import VendorCss.Pass.Transition
import VendorCss.Proofs.Pass.Learning
import VendorCss.Proofs.Sheet.Growth

/-!
# Passes that add

What adding leaves alone in a node is its frame (`Node.frame`). A pass adds when its sheet grows by new nodes and keeps
the frames of the old ones (`Adds`); it does so from a state in which grids are left alone and the numbers are in order
(`IsReady`), and it ends in such a state. So one lemma for each edit and each question is enough, and what the handlers
do is put together from them.
-/

namespace VendorCss

/-! ## Frames of nodes -/

namespace Node

/-- Adding may replace the value of a declaration: it names properties, or its property has a vendor prefix. -/
def hasFreeValue (prop : Text) : Bool := Transition.properties.contains prop || !(Vendor.ofName prop).isEmpty

/-- Adding may replace the params of an at-rule. -/
def hasFreeParams (name : Text) : Bool := name = "supports" || name = "media"

/-- A node without the fields that adding may change: the white space before a declaration, the values and the params
that are free. -/
def frame (n : Node) : Node :=
  match n.content with
  | .declaration d =>
    { n with
      content := .declaration (if hasFreeValue d.prop then { d with value := [] } else d),
      raws := { n.raws with before := [] } }
  | .atRule r => if hasFreeParams r.name then { n with content := .atRule { r with params := [] } } else n
  | _ => n

/-- Two nodes with one frame. -/
def SameFrame (n n' : Node) : Prop := n.frame = n'.frame

variable {n n' : Node}

theorem sameFrame_refl (n : Node) : n.SameFrame n := rfl

theorem sameFrame_trans (a b c : Node) (h : a.SameFrame b) (h' : b.SameFrame c) : a.SameFrame c := Eq.trans h h'

/-- The property of a declaration is in its frame. -/
theorem prop_frame (n : Node) : n.frame.declaration?.map Declaration.prop = n.declaration?.map Declaration.prop := by
  obtain ⟨content, raws, source⟩ := n
  cases content with
  | declaration d =>
    simp only [frame, declaration?]
    split <;> rfl
  | atRule r =>
    simp only [frame]
    split <;> rfl
  | root | rule _ | comment _ => rfl

theorem SameFrame.prop_eq (h : n.SameFrame n') :
    n'.declaration?.map Declaration.prop = n.declaration?.map Declaration.prop := by
  rw [← prop_frame n', ← h, prop_frame]

/-- The white space before a declaration is not in its frame. -/
theorem sameFrame_withBefore {d : Declaration} (h : n.declaration? = some d) (before : Text) :
    n.SameFrame (n.withBefore before) := by
  obtain ⟨content, raws, source⟩ := n
  cases content with
  | declaration d' => rfl
  | root | rule _ | comment _ | atRule _ => cases h

/-- A free value is not in the frame. -/
theorem sameFrame_setValue (h : ∀ d, n.declaration? = some d → hasFreeValue d.prop = true) (value : Text) :
    n.SameFrame (n.mapDeclaration fun d => { d with value }) := by
  obtain ⟨content, raws, source⟩ := n
  cases content with
  | declaration d =>
    simp only [SameFrame, mapDeclaration, frame, h d rfl, ↓reduceIte]
  | root | rule _ | comment _ | atRule _ => rfl

/-- Free params are not in the frame. -/
theorem sameFrame_setParams (h : ∀ r, n.atRule? = some r → hasFreeParams r.name = true) (params : Text) :
    n.SameFrame (n.mapAtRule fun r => { r with params }) := by
  obtain ⟨content, raws, source⟩ := n
  cases content with
  | atRule r =>
    simp only [SameFrame, mapAtRule, frame, h r rfl, ↓reduceIte]
  | root | rule _ | comment _ | declaration _ => rfl

/-! ### Comments -/

@[simp] theorem isGridSwitch_withBefore (n : Node) (before : Text) :
    (n.withBefore before).isGridSwitch = n.isGridSwitch := rfl

@[simp] theorem isGridSwitch_mapDeclaration (n : Node) (f : Declaration → Declaration) :
    (n.mapDeclaration f).isGridSwitch = n.isGridSwitch := by
  obtain ⟨content, raws, source⟩ := n
  cases content <;> rfl

@[simp] theorem isGridSwitch_mapAtRule (n : Node) (f : AtRule → AtRule) :
    (n.mapAtRule f).isGridSwitch = n.isGridSwitch := by
  obtain ⟨content, raws, source⟩ := n
  cases content <;> rfl

@[simp] theorem isGridSwitch_mapSelector (n : Node) (f : Text → Text) :
    (n.mapSelector f).isGridSwitch = n.isGridSwitch := by
  obtain ⟨content, raws, source⟩ := n
  cases content <;> rfl

end Node

/-- Rules as they are made: each property is spelled in the dialect of its name, and a value has vendors to be spelled
for. -/
structure Rules.IsSound (r : Rules) : Prop where
  dialect : ∀ v ∈ r.properties, v.dialect = PropertyDialect.ofName v.name
  planned : ∀ v ∈ r.values, ∀ planned ∈ v.prefixes, planned ≠ []

namespace Pass

/-! ## Steps that add -/

/-- The pass may go on adding: its rules are sound, its sheet is numbered, grids are left alone, and the spelled values
are for vendors. -/
structure IsReady (p : Pass) : Prop where
  rules : p.rules.IsSound
  numbered : p.sheet.IsNumbered
  grids : p.LeavesGrids
  values : ∀ x ∈ p.memory.values, ∀ spelled ∈ x.2, spelled.1 ≠ []

/-- From a state that is ready the second pass is reached by adding: it is ready too, has the same rules, and its sheet
has grown with all frames kept. -/
structure AddsFrom (p q : Pass) : Prop where
  ready : q.IsReady
  rules : q.rules = p.rules
  grows : p.sheet.Grows Node.SameFrame q.sheet

def Adds (p q : Pass) : Prop := p.IsReady → p.AddsFrom q

namespace Adds

variable {p q r : Pass}

theorem refl (p : Pass) : p.Adds p := fun hp => ⟨hp, rfl, .refl Node.sameFrame_refl _⟩

theorem trans (h : p.Adds q) (h' : q.Adds r) : p.Adds r := fun hp =>
  have hq := h hp
  have hr := h' hq.ready
  ⟨hr.ready, hr.rules.trans hq.rules, hq.grows.trans Node.sameFrame_trans hr.grows⟩

/-- The second step may use what the first one kept. -/
theorem bind (h : p.Adds q) (h' : p.IsReady → p.AddsFrom q → q.Adds r) : p.Adds r := fun hp =>
  trans h (h' hp (h hp)) hp

theorem foldl {f : Pass → α → Pass} {xs : List α} (h : ∀ x ∈ xs, ∀ p, Adds p (f p x)) (p : Pass) :
    p.Adds (xs.foldl f p) := by
  induction xs generalizing p with
  | nil => exact refl p
  | cons x xs ih => exact (h x List.mem_cons_self p).trans (ih (fun y hy => h y (List.mem_cons_of_mem _ hy)) (f p x))

theorem ite {c : Prop} [Decidable c] (h : c → p.Adds q) (h' : ¬c → p.Adds r) : p.Adds (if c then q else r) := by
  split
  · exact h ‹_›
  · exact h' ‹_›

theorem of_learns (h : p.Learns q) : p.Adds q := fun hp => {
  ready := {
    rules := by rw [h.rules]; exact hp.rules
    numbered := by rw [h.sheet]; exact hp.numbered
    grids := {
      options := by rw [h.rules]; exact hp.grids.options
      switches := by rw [h.sheet]; exact hp.grids.switches
      facts := by rw [h.grid]; exact hp.grids.facts }
    values := by rw [h.values]; exact hp.values }
  rules := h.rules
  grows := by rw [h.sheet]; exact .refl Node.sameFrame_refl _ }

theorem of_scope (p : Pass) (id : Nat) : p.Adds (p.scope id).2 := fun hp => by
  obtain ⟨facts, heq, _⟩ := p.scope_learns id
  rw [heq]
  exact ⟨⟨hp.rules, hp.numbered, ⟨hp.grids.options, hp.grids.switches, hp.grids.facts⟩, hp.values⟩, rfl,
    .refl Node.sameFrame_refl _⟩

theorem of_gridMode (p : Pass) (id : Nat) : p.Adds (p.gridMode id).2 := fun hp =>
  have h := (gridMode_off hp.grids id).2
  { ready := {
      rules := by rw [h.rules]; exact hp.rules
      numbered := by rw [h.sheet]; exact hp.numbered
      grids := hp.grids.of_learnsGrid h
      values := by rw [h.values]; exact hp.values }
    rules := h.rules
    grows := by rw [h.sheet]; exact .refl Node.sameFrame_refl _ }

/-- A change of the sheet. -/
theorem of_sheet {s : Sheet} (hn : p.sheet.IsNumbered → s.IsNumbered)
    (hg : p.IsReady → p.sheet.Grows Node.SameFrame s)
    (hs : p.IsReady → ∀ x ∈ s.nodes, x.2.isGridSwitch = false) : p.Adds (p.withSheet s) := fun hp => {
  ready := ⟨hp.rules, hn hp.numbered, ⟨hp.grids.options, hs hp, hp.grids.facts⟩, hp.values⟩
  rules := rfl
  grows := hg hp }

end Adds

/-! ## Edits -/

variable {p q : Pass} {id : Nat}

/-- A copy of a node, changed in a way that makes no comment. -/
theorem adds_cloneBefore (p : Pass) (id : Nat) {edit : Node → Node}
    (h : ∀ n, (edit n).isGridSwitch = n.isGridSwitch) : p.Adds (p.edit fun s => s.cloneBefore id edit) := by
  refine .of_sheet (fun hs => hs.cloneBefore id edit)
    (fun _ => Sheet.grows_cloneBefore Node.sameFrame_refl _ id edit) fun hp => ?_
  refine Sheet.forall_nodes_cloneBefore (P := fun n => n.isGridSwitch = false) hp.grids.switches fun n hn => ?_
  rw [h]
  exact hp.grids.switches _ (Sheet.mem_nodes_of_node? hn)

/-- A new node that is no comment. -/
theorem adds_insertBefore (p : Pass) (id : Nat) {n : Node} (h : p.IsReady → n.isGridSwitch = false) :
    p.Adds (p.edit fun s => s.insertBefore id n) := by
  have hfresh := p.sheet.isFresh_tree n
  refine .of_sheet (fun hs => hs.splice hfresh (.before id))
    (fun _ => Sheet.grows_splice Node.sameFrame_refl hfresh (.before id)) fun hp => ?_
  refine Sheet.forall_nodes_splice (P := fun n => n.isGridSwitch = false) hp.grids.switches (fun x hx => ?_)
    (.before id) _
  simp only [Forest.tree, Forest.nodes, List.append_nil, List.mem_singleton] at hx
  rw [hx]
  exact h hp

/-- A node changed in place within its frame. -/
theorem adds_modify (p : Pass) (id : Nat) {edit : Node → Node}
    (h : p.IsReady → ∀ n, p.sheet.node? id = some n → n.SameFrame (edit n) ∧ (edit n).isGridSwitch = n.isGridSwitch) :
    p.Adds (p.edit fun s => s.modify id edit) := by
  refine .of_sheet (fun hs => hs.modify id edit)
    (fun hp => Sheet.grows_modify Node.sameFrame_refl hp.numbered fun n hn => (h hp n hn).1) fun hp => ?_
  refine Sheet.forall_nodes_modify (P := fun n => n.isGridSwitch = false) hp.numbered hp.grids.switches fun n hn => ?_
  rw [(h hp n hn).2]
  exact hp.grids.switches _ (Sheet.mem_nodes_of_node? hn)

/-- A declaration may get other white space before it. -/
theorem adds_setBefore (p : Pass) {decl : Nat} (h : p.IsReady → (p.sheet.declaration? decl).isSome = true)
    (before : Text) : p.Adds (p.edit fun s => s.setBefore decl before) := by
  refine p.adds_modify decl fun hp n hn => ⟨?_, rfl⟩
  have hd := h hp
  rw [Sheet.declaration?, hn] at hd
  obtain ⟨d, hd⟩ := Option.isSome_iff_exists.1 hd
  exact Node.sameFrame_withBefore hd before

/-- A declaration with a free value may get another one. -/
theorem adds_setValue (p : Pass) {decl : Nat}
    (h : p.IsReady → ∀ d, p.sheet.declaration? decl = some d → Node.hasFreeValue d.prop = true) (value : Text) :
    p.Adds (p.edit fun s => s.setValue decl value) := by
  refine p.adds_modify decl fun hp n hn => ⟨?_, Node.isGridSwitch_mapDeclaration n _⟩
  refine Node.sameFrame_setValue (fun d hd => h hp d ?_) value
  rw [Sheet.declaration?, hn]
  exact hd

/-- An at-rule with free params may get other ones. -/
theorem adds_setParams (p : Pass) {rule : Nat}
    (h : ∀ r, p.sheet.atRule? rule = some r → Node.hasFreeParams r.name = true) (params : Text) :
    p.Adds (p.edit fun s => s.setParams rule params) := by
  refine p.adds_modify rule fun _ n hn => ⟨?_, Node.isGridSwitch_mapAtRule n _⟩
  refine Node.sameFrame_setParams (fun r hr => h r ?_) params
  rw [Sheet.atRule?, hn]
  exact hr

/-! ## Old declarations -/

/-- A declaration keeps its property. -/
theorem AddsFrom.prop_eq (hp : p.IsReady) (h : p.AddsFrom q) {decl : Nat} {d : Declaration}
    (hd : p.sheet.declaration? decl = some d) : ∃ d', q.sheet.declaration? decl = some d' ∧ d'.prop = d.prop := by
  obtain ⟨n, hn, hd⟩ := Option.bind_eq_some_iff.1 hd
  have hrel := h.grows.node?_rel (hp.numbered.lt_of_node? hn)
  rw [hn] at hrel
  rw [Sheet.declaration?]
  generalize q.sheet.node? decl = found at hrel
  cases hrel with
  | some hframe =>
    have hprop := hframe.prop_eq
    rw [hd] at hprop
    obtain ⟨d', hd', hp'⟩ := Option.map_eq_some_iff.1 hprop
    exact ⟨d', hd', hp'⟩

end Pass

end VendorCss
