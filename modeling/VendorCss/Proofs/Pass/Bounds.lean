import VendorCss.Pass.Resolution
import VendorCss.Proofs.Pass.Growth
import VendorCss.Proofs.Sheet.Shrinking

/-!
# What a pass may write

Bounds say which declarations and selectors may stand in a sheet and which values may be remembered for a declaration
(`Bounds`). A pass within them stays there as long as each step writes what they allow (`Stays`). Other than a pass that
adds (`Adds`), it may also take nodes away; so of an old node it is only known that, if it is still there, it has its
frame (`Sheet.Succeeds`).

Where bounds do not speak of grids, grids are left alone.
-/

namespace VendorCss

/-! ## Edits of a sheet -/

namespace Sheet

variable {P Q : Node → Prop} {s s' s'' : Sheet} {id : Nat}

/-- The numbers are in order, and every node has a property. -/
structure Holds (P : Node → Prop) (s : Sheet) : Prop where
  numbered : s.IsNumbered
  nodes : ∀ x ∈ s.nodes, P x.2

theorem Holds.mono (hPQ : ∀ n, P n → Q n) (h : s.Holds P) : s.Holds Q :=
  ⟨h.numbered, fun x hx => hPQ _ (h.nodes x hx)⟩

theorem Holds.of_node? (h : s.Holds P) {n : Node} (hn : s.node? id = some n) : P n := h.nodes _ (mem_nodes_of_node? hn)

/-- The nodes of the second sheet with numbers of the first one stood there, in their frames. -/
structure Succeeds (s s' : Sheet) : Prop where
  next_le : s.next ≤ s'.next
  old : ∀ x ∈ s'.nodes, x.1 < s.next → ∃ n, (x.1, n) ∈ s.nodes ∧ n.SameFrame x.2

namespace Succeeds

theorem refl (s : Sheet) : s.Succeeds s := ⟨Nat.le_refl _, fun x hx _ => ⟨x.2, hx, Node.sameFrame_refl _⟩⟩

theorem trans (h : s.Succeeds s') (h' : s'.Succeeds s'') : s.Succeeds s'' where
  next_le := Nat.le_trans h.next_le h'.next_le
  old := fun x hx hlt => by
    obtain ⟨n', hn', hframe'⟩ := h'.old x hx (Nat.lt_of_lt_of_le hlt h.next_le)
    obtain ⟨n, hn, hframe⟩ := h.old _ hn' hlt
    exact ⟨n, hn, Node.sameFrame_trans _ _ _ hframe hframe'⟩

/-- An old node that is still there. -/
theorem node?_rel (h : s.Succeeds s') (hs : s.IsNumbered) {n' : Node} (hid : id < s.next)
    (hn' : s'.node? id = some n') : ∃ n, s.node? id = some n ∧ n.SameFrame n' := by
  obtain ⟨n, hn, hframe⟩ := h.old _ (mem_nodes_of_node? hn') hid
  exact ⟨n, hs.node?_eq hn, hframe⟩

end Succeeds

/-- The second sheet is reached by edits that keep a property of all nodes. -/
def Edits (P : Node → Prop) (s s' : Sheet) : Prop := s.Holds P → s'.Holds P ∧ s.Succeeds s'

namespace Edits

theorem refl (s : Sheet) : s.Edits P s := fun h => ⟨h, .refl s⟩

theorem trans (h : s.Edits P s') (h' : s'.Edits P s'') : s.Edits P s'' := fun hs =>
  have hs' := h hs
  have hs'' := h' hs'.1
  ⟨hs''.1, hs'.2.trans hs''.2⟩

theorem ite {c : Prop} [Decidable c] (h : c → s.Edits P s') (h' : ¬c → s.Edits P s'') :
    s.Edits P (if c then s' else s'') := by
  split
  · exact h ‹_›
  · exact h' ‹_›

theorem foldl {f : Sheet → α → Sheet} {xs : List α} (h : ∀ x ∈ xs, ∀ s, Edits P s (f s x)) (s : Sheet) :
    s.Edits P (xs.foldl f s) := by
  induction xs generalizing s with
  | nil => exact refl s
  | cons x xs ih => exact (h x List.mem_cons_self s).trans (ih (fun y hy => h y (List.mem_cons_of_mem _ hy)) (f s x))

end Edits

theorem edits_modify (s : Sheet) (id : Nat) {edit : Node → Node}
    (h : s.Holds P → ∀ n, s.node? id = some n → P (edit n) ∧ n.SameFrame (edit n)) :
    s.Edits P (s.modify id edit) := fun hs => by
  refine ⟨⟨hs.numbered.modify id edit, forall_nodes_modify hs.numbered hs.nodes fun n hn => (h hs n hn).1⟩,
    Nat.le_refl _, fun x hx hlt => ?_⟩
  have hgrows : s.Grows Node.SameFrame (s.modify id edit) :=
    grows_modify Node.sameFrame_refl hs.numbered fun n hn => (h hs n hn).2
  have hrel := hgrows.node?_rel hlt
  rw [(hs.numbered.modify id edit).node?_eq hx] at hrel
  cases hn : s.node? x.1 with
  | none =>
    rw [hn] at hrel
    cases hrel
  | some n =>
    rw [hn] at hrel
    cases hrel with
    | some hframe => exact ⟨n, mem_nodes_of_node? hn, hframe⟩

theorem edits_splice {new : Forest} {next : Nat} (hnew : s.IsFresh new next) (place : Place)
    (h : s.Holds P → ∀ x ∈ new.nodes, P x.2) : s.Edits P { s.splice place new with next } := fun hs => by
  refine ⟨⟨hs.numbered.splice hnew place, forall_nodes_splice hs.nodes (h hs) place next⟩, hnew.next_le,
    fun x hx hlt => ?_⟩
  rcases mem_nodes_splice hx with hx | hx
  · exact ⟨x.2, hx, Node.sameFrame_refl _⟩
  · exact absurd hlt (Nat.not_lt.2 (hnew.le x.1 (Forest.mem_ids_of_mem_nodes hx)))

theorem edits_cloneBefore (s : Sheet) (id : Nat) {edit : Node → Node}
    (h : s.Holds P → ∀ n, s.node? id = some n → P (edit n)) : s.Edits P (s.cloneBefore id edit) := by
  cases hf : s.find? id with
  | none =>
    rw [cloneBefore_none hf]
    exact .refl s
  | some y =>
    obtain ⟨n, k⟩ := y
    rw [cloneBefore_eq hf]
    refine edits_splice (isFresh_renumber s _) (.before id) fun hs x hx => ?_
    obtain ⟨j, hj⟩ := Forest.mem_nodes_renumber hx
    simp only [Forest.tree, Forest.nodes, List.append_nil, List.mem_cons] at hj
    rcases hj with hj | hj
    · rw [(Prod.mk.inj hj).2]
      exact h hs n (by rw [node?, hf]; rfl)
    · exact hs.nodes (j, x.2) ((nodes_of_find? hf).2.mem hj)

theorem edits_insert (s : Sheet) (place : Place) {n : Node} (h : s.Holds P → P n) :
    s.Edits P (s.insert place n).2 := by
  refine edits_splice (s.isFresh_tree n) place fun hs x hx => ?_
  simp only [Forest.tree, Forest.nodes, List.append_nil, List.mem_singleton] at hx
  rw [hx]
  exact h hs

theorem mem_of_mem_nodes_leaves {next : Nat} {ns : List Node} {x : Nat × Node} (h : x ∈ (leaves next ns).nodes) :
    x.2 ∈ ns := by
  induction ns generalizing next with
  | nil => cases h
  | cons n ns ih =>
    simp only [leaves, Forest.nodes, List.nil_append, List.mem_cons] at h
    rcases h with rfl | h
    · exact List.mem_cons_self
    · exact List.mem_cons_of_mem _ (ih h)

theorem isFresh_block (s : Sheet) (n : Node) (kids : List Node) :
    s.IsFresh (.tree s.next n (leaves (s.next + 1) kids)) (s.next + 1 + kids.length) := by
  have hids : (Forest.tree s.next n (leaves (s.next + 1) kids)).ids = List.range' s.next (kids.length + 1) := by
    simp [Forest.tree, Forest.ids, ids_leaves, List.range'_succ]
  refine ⟨?_, fun j hj => ?_, fun j hj => ?_, by omega⟩
  · rw [hids]
    exact List.nodup_range'
  · rw [hids, List.mem_range'_1] at hj
    exact hj.1
  · rw [hids, List.mem_range'_1] at hj
    omega

theorem edits_insertBlock (s : Sheet) (place : Place) {n : Node} {kids : List Node} (h : s.Holds P → P n)
    (hkids : ∀ k ∈ kids, P k) : s.Edits P (s.insertBlock place n kids).2 := by
  refine edits_splice (s.isFresh_block n kids) place fun hs x hx => ?_
  simp only [Forest.tree, Forest.nodes, List.append_nil, List.mem_cons] at hx
  rcases hx with rfl | hx
  · exact h hs
  · exact hkids _ (mem_of_mem_nodes_leaves hx)

theorem mem_nodes_remove {x : Nat × Node} (h : x ∈ (s.remove id).nodes) : x ∈ s.nodes := by
  unfold remove at h
  split at h
  · exact h
  · rw [nodes, whole, mapRuns, joinRuns_filter, nodes_joinRuns] at h
    obtain ⟨_, hmem, hx⟩ := List.mem_flatMap.1 h
    obtain ⟨f, hf, rfl⟩ := List.mem_map.1 hmem
    exact mem_nodes_of_mem_runs hf (Forest.mem_nodes_erase hx)

theorem edits_remove (s : Sheet) (id : Nat) : s.Edits P (s.remove id) := fun hs => by
  have hshrinks : s.Shrinks (fun _ => Node.SameFrame) (s.remove id) :=
    shrinks_remove (fun _ => Node.sameFrame_refl) s id
  refine ⟨⟨hshrinks.isNumbered hs.numbered, fun x hx => hs.nodes x (mem_nodes_remove hx)⟩,
    Nat.le_of_eq hshrinks.next_eq.symm, fun x hx _ => ⟨x.2, mem_nodes_remove hx, Node.sameFrame_refl _⟩⟩

end Sheet

/-! ## Bounds -/

/-- What may stand in a sheet, and what may be remembered of the values of a declaration. -/
structure Bounds where
  declares : Declaration → Prop
  selects : Text → Prop
  spells : Declaration → Text → Prop
  /-- Grids need not be left alone. -/
  grids : Prop
  /-- A spelled value stands however a free value changes. -/
  spells_setValue : ∀ d value spelled, Node.hasFreeValue d.prop = true → spells d spelled →
    spells { d with value } spelled

namespace Bounds

variable {b : Bounds} {n : Node}

/-- A property may be written with any value. -/
def Names (b : Bounds) (prop : Text) : Prop := ∀ d : Declaration, b.declares { d with prop }

/-- A node is within the bounds. -/
structure Allows (b : Bounds) (n : Node) : Prop where
  declaration : ∀ d, n.declaration? = some d → b.declares d
  selector : ∀ s, n.selector? = some s → b.selects s
  switch : ¬b.grids → n.isGridSwitch = false

namespace Allows

theorem withBefore (h : b.Allows n) (before : Text) : b.Allows (n.withBefore before) :=
  ⟨h.declaration, h.selector, h.switch⟩

theorem mapDeclaration (h : b.Allows n) {f : Declaration → Declaration}
    (hf : ∀ d, n.declaration? = some d → b.declares (f d)) : b.Allows (n.mapDeclaration f) := by
  obtain ⟨content, raws, source⟩ := n
  cases content with
  | declaration d =>
    refine ⟨fun d' hd' => ?_, nofun, fun _ => rfl⟩
    obtain rfl := Option.some.inj hd'
    exact hf d rfl
  | root | rule _ | comment _ | atRule _ => exact h

theorem mapSelector (h : b.Allows n) {f : Text → Text} (hf : ∀ s, b.selects s → b.selects (f s)) :
    b.Allows (n.mapSelector f) := by
  obtain ⟨content, raws, source⟩ := n
  cases content with
  | rule s =>
    refine ⟨nofun, fun s' hs' => ?_, fun _ => rfl⟩
    obtain rfl := Option.some.inj hs'
    exact hf s (h.selector s rfl)
  | root | declaration _ | comment _ | atRule _ => exact h

theorem mapAtRule (h : b.Allows n) (f : AtRule → AtRule) : b.Allows (n.mapAtRule f) := by
  obtain ⟨content, raws, source⟩ := n
  cases content with
  | atRule r => exact ⟨nofun, nofun, fun _ => rfl⟩
  | root | declaration _ | comment _ | rule _ => exact h

/-- A declaration with any spacing. -/
theorem of_declaration {d : Declaration} (h : b.declares d) (raws : Raws) :
    b.Allows { content := .declaration d, raws } :=
  ⟨fun _ hd => Option.some.inj hd ▸ h, nofun, fun _ => rfl⟩

end Allows

end Bounds

/-- Only a free value may have changed in a declaration of the same frame. -/
theorem Node.SameFrame.declaration_rel {n n' : Node} (h : n.SameFrame n') {d' : Declaration}
    (hd' : n'.declaration? = some d') : ∃ d, n.declaration? = some d ∧ d'.prop = d.prop ∧
      (d' = d ∨ hasFreeValue d.prop = true ∧ d' = { d with value := d'.value }) := by
  obtain ⟨content', raws', source'⟩ := n'
  obtain ⟨content, raws, source⟩ := n
  cases content' with
  | declaration e =>
    obtain rfl := Option.some.inj hd'
    have hprop := h.prop_eq
    cases content with
    | declaration d =>
      have heq : e.prop = d.prop := Option.some.inj hprop
      refine ⟨d, rfl, heq, ?_⟩
      simp only [SameFrame, frame, heq] at h
      by_cases hfree : hasFreeValue d.prop = true
      · refine .inr ⟨hfree, ?_⟩
        simp only [hfree, ↓reduceIte, Node.mk.injEq, Content.declaration.injEq, Declaration.mk.injEq] at h
        rw [← heq, h.1.2.2]
      · simp only [hfree, Bool.false_eq_true, ↓reduceIte, Node.mk.injEq, Content.declaration.injEq] at h
        exact .inl h.1.symm
    | root | rule _ | comment _ | atRule _ => cases hprop
  | root | rule _ | comment _ | atRule _ => cases hd'

/-! ## Passes within bounds -/

namespace Pass

variable {b b' : Bounds} {p q r : Pass}

/-- The sheet and the memory of a pass are within bounds, and what it knows about scopes is true. -/
structure Within (b : Bounds) (p : Pass) : Prop where
  sheet : p.sheet.Holds b.Allows
  values : ∀ x ∈ p.memory.values, x.1 < p.sheet.next ∧
    ∀ spelled ∈ x.2, spelled.1 ≠ [] ∧ ∀ d, p.sheet.declaration? x.1 = some d → b.spells d spelled.2
  knows : p.Knows
  option : ¬b.grids → p.rules.options.grid = .off
  grid : ¬b.grids → ∀ x ∈ p.memory.grid, x.2 = .off

theorem Within.leavesGrids (h : p.Within b) (hb : ¬b.grids) : p.LeavesGrids :=
  ⟨h.option hb, fun x hx => (h.sheet.nodes x hx).switch hb, h.grid hb⟩

theorem Within.declares (h : p.Within b) {decl : Nat} {d : Declaration} (hd : p.sheet.declaration? decl = some d) :
    b.declares d := by
  obtain ⟨n, hn, hd⟩ := Option.bind_eq_some_iff.1 hd
  exact (h.sheet.of_node? hn).declaration d hd

theorem Within.selects (h : p.Within b) {rule : Nat} {s : Text} (hs : p.sheet.selector? rule = some s) :
    b.selects s := by
  obtain ⟨n, hn, hs⟩ := Option.bind_eq_some_iff.1 hs
  exact (h.sheet.of_node? hn).selector s hs

theorem Within.lt_next (h : p.Within b) {decl : Nat} {d : Declaration} (hd : p.sheet.declaration? decl = some d) :
    decl < p.sheet.next := by
  obtain ⟨n, hn, _⟩ := Option.bind_eq_some_iff.1 hd
  exact h.sheet.numbered.lt_of_node? hn

/-- Within bounds the second pass is reached by steps that stay there. -/
structure StaysFrom (b : Bounds) (p q : Pass) : Prop where
  within : q.Within b
  rules : q.rules = p.rules
  succeeds : p.sheet.Succeeds q.sheet

def Stays (b : Bounds) (p q : Pass) : Prop := p.Within b → p.StaysFrom b q

/-- A number was given to a declaration of a property, which may be gone. -/
structure WasGiven (p : Pass) (decl : Nat) (prop : Text) : Prop where
  lt_next : decl < p.sheet.next
  declaration : ∀ n, p.sheet.node? decl = some n → ∃ d, n.declaration? = some d ∧ d.prop = prop

theorem WasGiven.prop_eq {decl : Nat} {prop : Text} (h : p.WasGiven decl prop) {d : Declaration}
    (hd : p.sheet.declaration? decl = some d) : d.prop = prop := by
  obtain ⟨n, hn, hd⟩ := Option.bind_eq_some_iff.1 hd
  obtain ⟨e, he, hprop⟩ := h.declaration n hn
  rw [← Option.some.inj (he.symm.trans hd), hprop]

theorem Within.wasGiven (h : p.Within b) {decl : Nat} {d : Declaration} (hd : p.sheet.declaration? decl = some d) :
    p.WasGiven decl d.prop := by
  obtain ⟨n, hn, hd⟩ := Option.bind_eq_some_iff.1 hd
  refine ⟨h.sheet.numbered.lt_of_node? hn, fun n' hn' => ⟨d, ?_, rfl⟩⟩
  rw [← Option.some.inj (hn.symm.trans hn')]
  exact hd

/-- An old declaration that is still there has its property. -/
theorem StaysFrom.wasGiven (h : p.StaysFrom b q) (hp : p.Within b) {decl : Nat} {prop : Text}
    (hd : p.WasGiven decl prop) : q.WasGiven decl prop := by
  refine ⟨Nat.lt_of_lt_of_le hd.lt_next h.succeeds.next_le, fun n' hn' => ?_⟩
  obtain ⟨n, hn, hframe⟩ := h.succeeds.node?_rel hp.sheet.numbered hd.lt_next hn'
  obtain ⟨d, hdecl, hprop⟩ := hd.declaration n hn
  have heq := hframe.prop_eq
  rw [hdecl] at heq
  obtain ⟨d', hd', hprop'⟩ := Option.map_eq_some_iff.1 heq
  exact ⟨d', hd', hprop'.trans hprop⟩

namespace Stays

theorem refl (p : Pass) : p.Stays b p := fun hp => ⟨hp, rfl, .refl _⟩

theorem trans (h : p.Stays b q) (h' : q.Stays b r) : p.Stays b r := fun hp =>
  have hq := h hp
  have hr := h' hq.within
  ⟨hr.within, hr.rules.trans hq.rules, hq.succeeds.trans hr.succeeds⟩

/-- The second step may use what the first one kept. -/
theorem bind (h : p.Stays b q) (h' : p.Within b → p.StaysFrom b q → q.Stays b r) : p.Stays b r := fun hp =>
  trans h (h' hp (h hp)) hp

theorem ite {c : Prop} [Decidable c] (h : c → p.Stays b q) (h' : ¬c → p.Stays b r) :
    p.Stays b (if c then q else r) := by
  split
  · exact h ‹_›
  · exact h' ‹_›

/-- Steps over a list, for which the rules are known. -/
theorem foldl {f : Pass → α → Pass} {xs : List α}
    (h : ∀ x ∈ xs, ∀ q, q.rules = p.rules → Stays b q (f q x)) : p.Stays b (xs.foldl f p) := by
  induction xs generalizing p with
  | nil => exact refl p
  | cons x xs ih =>
    refine (h x List.mem_cons_self p rfl).bind fun hp hfrom => ih fun y hy q hq => ?_
    exact h y (List.mem_cons_of_mem _ hy) q (hq.trans hfrom.rules)

theorem of_agrees (h : p.Agrees q) (hgrid : p.Within b → ¬b.grids → ∀ x ∈ q.memory.grid, x.2 = .off) :
    p.Stays b q := fun hp => {
  within := {
    sheet := by rw [h.sheet]; exact hp.sheet
    values := by rw [h.values, h.sheet]; exact hp.values
    knows := by
      unfold Knows
      rw [h.scope, h.sheet, h.rules]
      exact hp.knows
    option := by rw [h.rules]; exact hp.option
    grid := hgrid hp }
  rules := h.rules
  succeeds := by rw [h.sheet]; exact .refl _ }

theorem of_learns (h : p.Learns q) : p.Stays b q :=
  .of_agrees h.toAgrees fun hp hb => by
    rw [h.grid]
    exact hp.grid hb

theorem of_gridMode (p : Pass) (id : Nat) : p.Stays b (p.gridMode id).2 :=
  .of_agrees (p.gridMode_agrees id) fun hp hb => (gridMode_off (hp.leavesGrids hb) id).2.facts

theorem of_scope (p : Pass) {id : Nat} (h : p.sheet.node? id ≠ none) : p.Stays b (p.scope id).2 := fun hp => by
  obtain ⟨facts, heq, hknows⟩ := p.scope_learns id
  rw [heq]
  exact ⟨⟨hp.sheet, hp.values, hknows hp.sheet.numbered h hp.knows, hp.option, hp.grid⟩, rfl, .refl _⟩

/-- A change of the sheet. -/
theorem of_edits {s : Sheet} (h : p.Within b → p.sheet.Edits b.Allows s) : p.Stays b (p.withSheet s) := fun hp => by
  obtain ⟨hs, hsucceeds⟩ := h hp hp.sheet
  -- what is remembered is about declarations that are there in their frames
  have hold : ∀ i, i < p.sheet.next → ∀ d', s.declaration? i = some d' →
      ∃ d, p.sheet.declaration? i = some d ∧ d'.prop = d.prop ∧
        (d' = d ∨ Node.hasFreeValue d.prop = true ∧ d' = { d with value := d'.value }) := by
    intro i hi d' hd'
    obtain ⟨n', hn', hd'⟩ := Option.bind_eq_some_iff.1 hd'
    obtain ⟨n, hn, hframe⟩ := hsucceeds.node?_rel hp.sheet.numbered hi hn'
    obtain ⟨d, hd, hrel⟩ := hframe.declaration_rel hd'
    exact ⟨d, by rw [Sheet.declaration?, hn]; exact hd, hrel⟩
  refine ⟨⟨hs, fun x hx => ?_, fun x hx => ?_, hp.option, hp.grid⟩, rfl, hsucceeds⟩
  · obtain ⟨hlt, hspells⟩ := hp.values x hx
    refine ⟨Nat.lt_of_lt_of_le hlt hsucceeds.next_le, fun spelled hspelled => ?_⟩
    obtain ⟨hne, hspelled⟩ := hspells spelled hspelled
    refine ⟨hne, fun d' hd' => ?_⟩
    obtain ⟨d, hd, _, rfl | ⟨hfree, heq⟩⟩ := hold x.1 hlt d' hd'
    · exact hspelled d' hd
    · rw [heq]
      exact b.spells_setValue d _ _ hfree (hspelled d hd)
  · obtain ⟨hlt, htrue⟩ := hp.knows x hx
    refine ⟨Nat.lt_of_lt_of_le hlt hsucceeds.next_le, fun d' hd' hdash => ?_⟩
    obtain ⟨d, hd, hprop, _⟩ := hold x.1 hlt d' hd'
    rw [hprop] at hdash ⊢
    exact htrue d hd hdash

end Stays

/-! ## Edits within bounds -/

variable {id : Nat}

theorem stays_cloneBefore (p : Pass) (id : Nat) {edit : Node → Node}
    (h : ∀ n, p.sheet.node? id = some n → b.Allows n → b.Allows (edit n)) :
    p.Stays b (p.edit fun s => s.cloneBefore id edit) :=
  .of_edits fun _ => p.sheet.edits_cloneBefore id fun hs n hn => h n hn (hs.of_node? hn)

/-- A copy of a declaration. -/
theorem stays_cloneDeclaration (p : Pass) (id : Nat) {f : Declaration → Declaration}
    (h : ∀ d, p.sheet.declaration? id = some d → b.declares d → b.declares (f d)) :
    p.Stays b (p.edit fun s => s.cloneBefore id (·.mapDeclaration f)) :=
  p.stays_cloneBefore id fun n hn hallows => hallows.mapDeclaration fun d hd =>
    h d (by rw [Sheet.declaration?, hn]; exact hd) (hallows.declaration d hd)

theorem stays_insert (p : Pass) (place : Sheet.Place) {n : Node} (h : p.Within b → b.Allows n) :
    p.Stays b (p.edit fun s => (s.insert place n).2) :=
  .of_edits fun hp => p.sheet.edits_insert place fun _ => h hp

theorem stays_setBefore (p : Pass) {decl : Nat} {prop : Text} (h : p.Within b → p.WasGiven decl prop) (before : Text) :
    p.Stays b (p.edit fun s => s.setBefore decl before) := by
  refine .of_edits fun hp => p.sheet.edits_modify decl fun hs n hn => ⟨(hs.of_node? hn).withBefore before, ?_⟩
  obtain ⟨d, hd, _⟩ := (h hp).declaration n hn
  exact Node.sameFrame_withBefore hd before

/-- A declaration with a free value may get another one that the bounds allow. -/
theorem stays_setValue (p : Pass) {decl : Nat} {value : Text}
    (h : p.Within b → ∀ d, p.sheet.declaration? decl = some d →
      Node.hasFreeValue d.prop = true ∧ b.declares { d with value }) :
    p.Stays b (p.edit fun s => s.setValue decl value) := by
  refine .of_edits fun hp => p.sheet.edits_modify decl fun hs n hn => ?_
  have hd : ∀ d, n.declaration? = some d → p.sheet.declaration? decl = some d := fun d hd => by
    rw [Sheet.declaration?, hn]
    exact hd
  exact ⟨(hs.of_node? hn).mapDeclaration fun d hd' => (h hp d (hd d hd')).2,
    Node.sameFrame_setValue (fun d hd' => (h hp d (hd d hd')).1) value⟩

theorem stays_setParams (p : Pass) {rule : Nat}
    (h : ∀ r, p.sheet.atRule? rule = some r → Node.hasFreeParams r.name = true) (params : Text) :
    p.Stays b (p.edit fun s => s.setParams rule params) := by
  refine .of_edits fun _ => p.sheet.edits_modify rule fun hs n hn => ⟨(hs.of_node? hn).mapAtRule _, ?_⟩
  refine Node.sameFrame_setParams (fun r hr => h r ?_) params
  rw [Sheet.atRule?, hn]
  exact hr

/-- The params of an at-rule that is known to have free ones. -/
theorem stays_editParams (p : Pass) {rule : Nat} {r : AtRule} (hr : p.sheet.atRule? rule = some r)
    (h : Node.hasFreeParams r.name = true) (f : Text → Text) : p.Stays b (p.editParams rule f) := by
  unfold editParams
  rw [hr]
  refine p.stays_setParams (fun r' hr' => ?_) _
  obtain rfl : r = r' := Option.some.inj (hr.symm.trans hr')
  exact h

end Pass

end VendorCss
