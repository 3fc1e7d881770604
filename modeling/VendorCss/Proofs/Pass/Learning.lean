import VendorCss.Pass.Control
import VendorCss.Pass.Copy
import VendorCss.Proofs.Sheet.Whole

/-!
# What a pass learns

Asking for the scope of a node, or whether it is switched off, raises warnings and adds to the memory of the pass. The
sheet, the rules and the spelled values stay (`Agrees`). What is learned about the scopes of nodes is true of them
(`Knows`). The treatment of grids is learned as well; it is off at every node if it is off in the options and no comment
chooses another one (`gridMode_off`).
-/

namespace VendorCss

/-- The node is a comment that chooses a treatment of grids. -/
def Node.isGridSwitch (n : Node) : Bool := n.comment?.any Control.isGridSwitch

namespace Pass

/-! ## Learning -/

/-- The second pass has the rules of the first one, its sheet, and what it remembers of values and scopes. -/
structure Agrees (p q : Pass) : Prop where
  rules : q.rules = p.rules
  sheet : q.sheet = p.sheet
  values : q.memory.values = p.memory.values
  scope : q.memory.scope = p.memory.scope

theorem Agrees.refl (p : Pass) : p.Agrees p := ⟨rfl, rfl, rfl, rfl⟩

theorem Agrees.trans {p q r : Pass} (h : p.Agrees q) (h' : q.Agrees r) : p.Agrees r where
  rules := h'.rules.trans h.rules
  sheet := h'.sheet.trans h.sheet
  values := h'.values.trans h.values
  scope := h'.scope.trans h.scope

/-- The second pass has learned nothing about grids or scopes, and has changed nothing. -/
structure Learns (p q : Pass) : Prop extends p.Agrees q where
  grid : q.memory.grid = p.memory.grid

namespace Learns

theorem refl (p : Pass) : p.Learns p := ⟨.refl p, rfl⟩

theorem trans {p q r : Pass} (h : p.Learns q) (h' : q.Learns r) : p.Learns r where
  toAgrees := h.toAgrees.trans h'.toAgrees
  grid := h'.grid.trans h.grid

theorem foldl {f : Pass → α → Pass} (h : ∀ p x, Learns p (f p x)) (xs : List α) (p : Pass) :
    p.Learns (xs.foldl f p) := by
  induction xs generalizing p with
  | nil => exact refl p
  | cons x xs ih => exact (h p x).trans (ih (f p x))

end Learns

theorem warnAbout_learns (p : Pass) (id : Nat) (message : Text) (word : Option Text) :
    p.Learns (p.warnAbout id message word) := ⟨⟨rfl, rfl, rfl, rfl⟩, rfl⟩

theorem warn_learns (p : Pass) (id : Nat) (message : Text) : p.Learns (p.warn id message) :=
  p.warnAbout_learns id message none

theorem learnDisabled_learns (p : Pass) (id : Nat) (value : Bool) : p.Learns (p.learnDisabled id value) :=
  ⟨⟨rfl, rfl, rfl, rfl⟩, rfl⟩

theorem memory_foldl_warn (later : List Nat) (message : Text) (p : Pass) :
    (later.foldl (fun p i => p.warn i message) p).memory = p.memory := by
  induction later generalizing p with
  | nil => rfl
  | cons l later ih => exact ih _

theorem sheet_foldl_warn (later : List Nat) (message : Text) (p : Pass) :
    (later.foldl (fun p i => p.warn i message) p).sheet = p.sheet := by
  induction later generalizing p with
  | nil => rfl
  | cons l later ih => exact ih _

theorem disabledAlong_learns (chain : List Nat) (p : Pass) : p.Learns (disabledAlong chain p).2 := by
  induction chain generalizing p with
  | nil => exact .refl p
  | cons id above ih =>
    rw [disabledAlong]
    split
    · exact .refl p
    · split
      · exact ⟨⟨rfl, rfl, rfl, rfl⟩, rfl⟩
      · let p' := (switchIn p.sheet id Control.isSwitch).2.foldl (fun p i => p.warn i secondSwitch) p
        have hp : p.Learns p' := .foldl (fun p i => p.warn_learns i secondSwitch) _ p
        dsimp only
        refine Learns.trans ?_ (learnDisabled_learns _ id _)
        split
        · exact hp
        · exact hp
        · exact hp.trans (ih p')

theorem disabled_learns (p : Pass) (id : Nat) : p.Learns (p.disabled id).2 := disabledAlong_learns _ p

theorem widest_learns (p : Pass) (decl : Nat) (prefixes : List Text) : p.Learns (p.widest decl prefixes).2 := by
  unfold widest
  split
  · exact .refl p
  · exact ⟨⟨rfl, rfl, rfl, rfl⟩, rfl⟩

theorem indentation_learns (p : Pass) (decl : Nat) (planned : Text) (prefixes : List Text) :
    p.Learns (p.indentation decl planned prefixes).2 := p.widest_learns decl prefixes

/-! ## Scopes -/

/-- The pass that knows other scopes. -/
def withScopes (p : Pass) (scope : Facts (Option Text)) : Pass := { p with memory := { p.memory with scope } }

/-- The scope of a declaration with a vendor prefix: its vendor, if it is one of a browser. -/
def prefixedScope (r : Rules) (prop : Text) : Option Text :=
  (some (Vendor.ofName prop)).filter fun vendor => r.selection.vendors.contains vendor

/-- The scopes that a pass remembers are those of nodes that it has met, and what it remembers of a prefixed declaration
is the scope of it. -/
def Knows (p : Pass) : Prop :=
  ∀ x ∈ p.memory.scope, x.1 < p.sheet.next ∧
    ∀ d, p.sheet.declaration? x.1 = some d → d.prop.head? = some '-' → x.2 = prefixedScope p.rules d.prop

theorem Facts.mem_of_get? {f : Facts α} {id : Nat} {a : α} (h : f.get? id = some a) : (id, a) ∈ f := by
  obtain ⟨x, hx, rfl⟩ := Option.map_eq_some_iff.1 h
  have hid : x.1 = id := eq_of_beq (List.find?_some (p := fun (x : Nat × α) => x.1 == id) hx)
  rw [← hid]
  exact List.mem_of_find?_eq_some hx

theorem ownScope_of_prefixed {n : Node} {d : Declaration} (hd : n.declaration? = some d)
    (h : d.prop.head? = some '-') : ownScope n = some (some (Vendor.ofName d.prop)) := by
  obtain ⟨content, raws, source⟩ := n
  cases content with
  | declaration d' =>
    obtain rfl : d' = d := Option.some.inj hd
    simp [ownScope, h]
  | root | rule _ | comment _ | atRule _ => cases hd

/-- One more scope, which is that of the declaration if the node is one with a prefix. -/
theorem Knows.learn {p : Pass} (hp : p.Knows) {id : Nat} (hid : id < p.sheet.next) {found : Option Text}
    (h : ∀ n, p.sheet.node? id = some n → ∀ own, ownScope n = some own → found = own) :
    (p.withScopes ((id, found.filter fun vendor => p.rules.selection.vendors.contains vendor) ::
      p.memory.scope)).Knows := by
  intro x hx
  rcases List.mem_cons.1 hx with rfl | hx
  · refine ⟨hid, fun d hd hdash => ?_⟩
    obtain ⟨n, hn, hd⟩ := Option.bind_eq_some_iff.1 hd
    rw [h n hn _ (ownScope_of_prefixed hd hdash)]
    rfl
  · exact hp x hx

/-- Only scopes are learned, and they are true. -/
theorem scopeAlong_learns (chain : List Nat) (p : Pass) :
    ∃ facts, (scopeAlong chain p).2 = p.withScopes facts ∧
      ((∀ i ∈ chain, i < p.sheet.next) → p.Knows → (p.withScopes facts).Knows) := by
  induction chain with
  | nil => exact ⟨p.memory.scope, rfl, fun _ h => h⟩
  | cons id above ih =>
    rw [scopeAlong]
    split
    · exact ⟨p.memory.scope, rfl, fun _ h => h⟩
    · cases hn : p.sheet.node? id with
      | none =>
        refine ⟨_, rfl, fun hchain hp => hp.learn (hchain id List.mem_cons_self) fun n hn' => ?_⟩
        rw [hn] at hn'
        cases hn'
      | some n =>
        cases hown : ownScope n with
        | some own =>
          simp only [Option.map_some, hown]
          refine ⟨_, rfl, fun hchain hp => hp.learn (hchain id List.mem_cons_self) fun n' hn' own' hown' => ?_⟩
          obtain rfl := Option.some.inj (hn.symm.trans hn')
          exact Option.some.inj (hown.symm.trans hown')
        | none =>
          obtain ⟨facts, heq, hknows⟩ := ih
          simp only [Option.map_some, hown, heq]
          refine ⟨_, rfl, fun hchain hp => ?_⟩
          have habove := hknows (fun i hi => hchain i (List.mem_cons_of_mem _ hi)) hp
          refine habove.learn (hchain id List.mem_cons_self) fun n' hn' own' hown' => ?_
          obtain rfl := Option.some.inj (hn.symm.trans hn')
          rw [hown] at hown'
          cases hown'

/-- The scope of a node that stands in a numbered sheet. -/
theorem scope_learns (p : Pass) (id : Nat) :
    ∃ facts, (p.scope id).2 = p.withScopes facts ∧
      (p.sheet.IsNumbered → p.sheet.node? id ≠ none → p.Knows → (p.withScopes facts).Knows) := by
  obtain ⟨facts, heq, hknows⟩ := scopeAlong_learns (id :: p.sheet.ancestors id) p
  refine ⟨facts, heq, fun hs hid => hknows fun i hi => ?_⟩
  obtain ⟨n, hn⟩ := Option.ne_none_iff_exists'.1 hid
  rcases List.mem_cons.1 hi with rfl | hi
  · exact hs.lt_of_node? hn
  · exact hs.lt_next i (Sheet.mem_ids_of_mem_ancestors hi)

/-- The scope of a declaration with a prefix, from memory or not. -/
theorem scope_of_prefixed {p : Pass} (hp : p.Knows) {decl : Nat} {d : Declaration}
    (hd : p.sheet.declaration? decl = some d) (h : d.prop.head? = some '-') :
    (p.scope decl).1 = prefixedScope p.rules d.prop := by
  obtain ⟨n, hn, hnd⟩ := Option.bind_eq_some_iff.1 hd
  rw [scope, scopeAlong]
  split
  · rename_i known hknown
    exact (hp _ (Facts.mem_of_get? hknown)).2 d hd h
  · rw [hn, Option.map_some, ownScope_of_prefixed hnd h]
    rfl

theorem scope_sheet (p : Pass) (id : Nat) : (p.scope id).2.sheet = p.sheet := by
  obtain ⟨facts, heq, _⟩ := p.scope_learns id
  rw [heq]
  rfl

/-! ## Grids left alone -/

/-- Where no comment passes a test, there is no switch. -/
theorem switchIn_eq_none {s : Sheet} {test : Text → Bool} (h : ∀ x ∈ s.nodes, x.2.comment?.any test = false)
    (id : Nat) : switchIn s id test = (none, []) := by
  have hnone : ((s.children id).filterMap fun i =>
      (s.comment? i).bind fun t => if test t then some (i, t) else none) = [] := by
    refine List.filterMap_eq_nil_iff.2 fun i _ => ?_
    cases hc : s.comment? i with
    | none => rfl
    | some t =>
      obtain ⟨n, hn, ht⟩ := Option.bind_eq_some_iff.1 hc
      have hfalse : test t = false := by
        have hx := h (i, n) (Sheet.mem_nodes_of_node? hn)
        rwa [ht, Option.any_some] at hx
      simp [hfalse]
  rw [switchIn, hnone]
  rfl

/-- Whatever the treatment of grids, asking for it changes nothing. -/
theorem gridModeAlong_agrees (chain : List Nat) (p : Pass) : p.Agrees (gridModeAlong chain p).2 := by
  induction chain generalizing p with
  | nil => exact .refl p
  | cons id above ih =>
    rw [gridModeAlong]
    split
    · exact .refl p
    · let p' := (switchIn p.sheet id Control.isGridSwitch).2.foldl (fun p i => p.warn i secondGridSwitch) p
      have hp : p.Agrees p' := (Learns.foldl (fun p i => p.warn_learns i secondGridSwitch) _ p).toAgrees
      dsimp only
      split
      · exact hp.trans ⟨rfl, rfl, rfl, rfl⟩
      · exact hp.trans ⟨rfl, rfl, rfl, rfl⟩
      · exact (hp.trans (ih p')).trans ⟨rfl, rfl, rfl, rfl⟩

theorem gridMode_agrees (p : Pass) (id : Nat) : p.Agrees (p.gridMode id).2 := gridModeAlong_agrees _ p

/-- Grids are left alone: in the options, by the comments, and by what was learned. -/
structure LeavesGrids (p : Pass) : Prop where
  options : p.rules.options.grid = .off
  switches : ∀ x ∈ p.sheet.nodes, x.2.isGridSwitch = false
  facts : ∀ x ∈ p.memory.grid, x.2 = .off

/-- The second pass knows more than the first one about grids, and has changed nothing. -/
structure LearnsGrid (p q : Pass) : Prop extends p.Agrees q where
  facts : ∀ x ∈ q.memory.grid, x.2 = .off

theorem LeavesGrids.of_learnsGrid {p q : Pass} (hp : p.LeavesGrids) (h : p.LearnsGrid q) : q.LeavesGrids where
  options := by rw [h.rules]; exact hp.options
  switches := by rw [h.sheet]; exact hp.switches
  facts := h.facts

theorem learnGrid_off {p q : Pass} (h : p.LearnsGrid q) (id : Nat) : p.LearnsGrid (q.learnGrid id .off) where
  toAgrees := h.toAgrees.trans ⟨rfl, rfl, rfl, rfl⟩
  facts := fun x hx => by
    rcases List.mem_cons.1 hx with rfl | hx
    · rfl
    · exact h.facts x hx

theorem gridModeAlong_off (chain : List Nat) {p : Pass} (hp : p.LeavesGrids) :
    (gridModeAlong chain p).1 = .off ∧ p.LearnsGrid (gridModeAlong chain p).2 := by
  induction chain with
  | nil => exact ⟨hp.options, .refl p, hp.facts⟩
  | cons id above ih =>
    simp only [gridModeAlong, switchIn_eq_none hp.switches id, List.foldl_nil, Option.map_none]
    split
    · rename_i known hknown
      exact ⟨hp.facts _ (Facts.mem_of_get? hknown), .refl p, hp.facts⟩
    · obtain ⟨hmode, hlearn⟩ := ih
      have hself : p.LearnsGrid p := ⟨.refl p, hp.facts⟩
      by_cases hauto : (p.sheet.node? id).any asksForAutoplace = true
      · simp only [hauto, ↓reduceIte]
        exact ⟨trivial, learnGrid_off hself id⟩
      · simp only [hauto, Bool.false_eq_true, ↓reduceIte]
        cases above with
        | nil =>
          simp only [hp.options]
          exact ⟨trivial, learnGrid_off hself id⟩
        | cons parent above =>
          simp only [hmode, ite_self]
          exact ⟨trivial, learnGrid_off hlearn id⟩

theorem gridMode_off {p : Pass} (hp : p.LeavesGrids) (id : Nat) :
    (p.gridMode id).1 = .off ∧ p.LearnsGrid (p.gridMode id).2 := gridModeAlong_off _ hp

end Pass

end VendorCss
