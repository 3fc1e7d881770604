import VendorCss.Proofs.Pass.Learning
import VendorCss.Proofs.Sheet.Children

/-!
# The scope of a node

The vendor that a node is already written for is told by the tree alone: by what the node says itself, or else by what
the nodes above it say (`Sheet.scope`). A pass finds it out by going up to the root, and remembers what it found about
every node on the way. What it remembers is true of the sheet (`Pass.RemembersScopes`) and stays so with every question,
so the answers do not depend on what was asked before.
-/

namespace VendorCss

/-- The scope of the first node of a chain that goes up to the root, by what the nodes say themselves; only some vendors
count. -/
def scopeOf (vendors : List Text) : (told : List (Option (Option (Option Text)))) → Option Text
  | [] => none
  | told :: above =>
    let found :=
      match told with
      | none => none
      | some (some own) => own
      | some none => scopeOf vendors above
    found.filter fun vendor => vendors.contains vendor

/-- Nodes that tell the same about scopes. -/
def Node.SameScope (n n' : Node) : Prop := Pass.ownScope n' = Pass.ownScope n

namespace Sheet

variable {s s' : Sheet} {vendors : List Text} {id : Nat}

/-- What a node tells about its scope, if it is there. -/
def tells (s : Sheet) (id : Nat) : Option (Option (Option Text)) := (s.node? id).map Pass.ownScope

/-- The scope of a node, as the tree tells it. -/
def scope (s : Sheet) (vendors : List Text) (id : Nat) : Option Text :=
  scopeOf vendors ((id :: s.ancestors id).map s.tells)

/-- The scope of a node is told by the nodes of its chain. -/
theorem scope_congr (hchain : s'.ancestors id = s.ancestors id)
    (htells : ∀ i ∈ id :: s.ancestors id, s'.tells i = s.tells i) : s'.scope vendors id = s.scope vendors id := by
  rw [scope, scope, hchain, List.map_congr_left htells]

/-- The scope of a node stays where nodes come in, and others are changed but in what they tell about scopes. -/
theorem Grows.scope_eq (h : s.Grows Node.SameScope s') (hs : s.IsNumbered) (hs' : s'.IsNumbered) (hid : id ∈ s.ids) :
    s'.scope vendors id = s.scope vendors id := by
  refine scope_congr (h.ancestors_eq hs hs' hid) fun i hi => ?_
  have hi : i ∈ s.ids := by
    rcases List.mem_cons.1 hi with rfl | hi
    · exact hid
    · exact mem_ids_of_mem_ancestors hi
  have hrel := h.node?_rel (hs.lt_next i hi)
  rw [tells, tells]
  generalize s.node? i = old, s'.node? i = new at hrel
  cases hrel with
  | none => rfl
  | some hsame => exact congrArg some hsame

end Sheet

namespace Pass

variable {p : Pass} {id : Nat}

/-- The scopes that a pass remembers are those of nodes of the sheet, as the tree tells them. -/
def RemembersScopes (p : Pass) : Prop :=
  ∀ x ∈ p.memory.scope, x.1 ∈ p.sheet.ids ∧ x.2 = p.sheet.scope p.rules.selection.vendors x.1

/-- One more scope. -/
theorem RemembersScopes.learn (h : p.RemembersScopes) (hid : id ∈ p.sheet.ids) {found : Option Text}
    (hfound : found = p.sheet.scope p.rules.selection.vendors id) :
    (p.withScopes ((id, found) :: p.memory.scope)).RemembersScopes := by
  intro x hx
  rcases List.mem_cons.1 hx with rfl | hx
  · exact ⟨hid, hfound⟩
  · exact h x hx

/-- What is asked of the first node of a chain that goes up to the root is answered by the tree. -/
theorem RemembersScopes.scopeAlong (hs : p.sheet.IsNumbered) (h : p.RemembersScopes) (hid : id ∈ p.sheet.ids)
    {chain : List Nat} (hchain : chain = id :: p.sheet.ancestors id) :
    (scopeAlong chain p).1 = p.sheet.scope p.rules.selection.vendors id ∧
      ∃ facts, (Pass.scopeAlong chain p).2 = p.withScopes facts ∧ (p.withScopes facts).RemembersScopes := by
  induction chain generalizing id with
  | nil => cases hchain
  | cons i above ih =>
    obtain ⟨rfl, rfl⟩ := List.cons.inj hchain
    rw [Pass.scopeAlong]
    split
    · rename_i known hknown
      have hmem := Facts.mem_of_get? hknown
      exact ⟨(h _ hmem).2, p.memory.scope, rfl, h⟩
    · -- what is found goes through one filter, and is learned
      have hscope : p.sheet.scope p.rules.selection.vendors i = (match p.sheet.tells i with
          | none => none
          | some (some own) => own
          | some none => scopeOf p.rules.selection.vendors ((p.sheet.ancestors i).map p.sheet.tells)).filter
            fun vendor => p.rules.selection.vendors.contains vendor := rfl
      rw [← Sheet.tells]
      cases htells : p.sheet.tells i with
      | none =>
        rw [htells] at hscope
        exact ⟨hscope.symm, _, rfl, h.learn hid hscope.symm⟩
      | some own =>
        cases own with
        | some own =>
          rw [htells] at hscope
          exact ⟨hscope.symm, _, rfl, h.learn hid hscope.symm⟩
        | none =>
          rw [htells] at hscope
          dsimp only at hscope ⊢
          cases hparent : p.sheet.parent? i with
          | none =>
            rw [Sheet.ancestors_eq_nil hparent] at hscope ⊢
            exact ⟨hscope.symm, _, rfl, h.learn hid hscope.symm⟩
          | some parent =>
            have habove := hs.ancestors_of_parent? hparent
            have hparent : parent ∈ p.sheet.ancestors i := by
              rw [habove]
              exact List.mem_cons_self
            have hin : parent ∈ p.sheet.ids := Sheet.mem_ids_of_mem_ancestors hparent
            obtain ⟨hanswer, facts, hfacts, hremembers⟩ := ih hin habove
            rw [hfacts]
            have hfound : (Pass.scopeAlong (p.sheet.ancestors i) p).1 =
                scopeOf p.rules.selection.vendors ((p.sheet.ancestors i).map p.sheet.tells) := by
              rw [hanswer, habove]
              rfl
            rw [hfound]
            exact ⟨hscope.symm, _, rfl, hremembers.learn hid hscope.symm⟩

/-- What is asked of a node is answered by the tree. -/
theorem RemembersScopes.scope_eq (hs : p.sheet.IsNumbered) (h : p.RemembersScopes) (hid : id ∈ p.sheet.ids) :
    (p.scope id).1 = p.sheet.scope p.rules.selection.vendors id ∧
      ∃ facts, (p.scope id).2 = p.withScopes facts ∧ (p.withScopes facts).RemembersScopes :=
  h.scopeAlong hs hid rfl

end Pass

end VendorCss
