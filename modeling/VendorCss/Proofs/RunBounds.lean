import VendorCss.Proofs.Pass.AdditionBounds
import VendorCss.Proofs.Prefixing

/-!
# A run within bounds

Taking away stays within all bounds that the sheet is in, as long as lists of properties may have any value. So a run
ends within bounds that allow the sheet and what its rules write (`Prefixer.run_within`).
-/

namespace VendorCss

/-- Grids are left alone: by the options, and by the comments of a sheet. -/
def Sheet.LeavesGrids (sheet : Sheet) (options : Options) : Prop :=
  options.grid = .off ∧ ∀ id text, sheet.comment? id = some text → Control.isGridSwitch text = false

theorem Sheet.LeavesGrids.switch {sheet : Sheet} {options : Options} (h : sheet.LeavesGrids options) {id : Nat}
    {n : Node} (hn : sheet.node? id = some n) : n.isGridSwitch = false := by
  have hleaves := h.2 id
  rw [Sheet.comment?, hn] at hleaves
  rw [Node.isGridSwitch]
  cases hc : n.comment? with
  | none => rfl
  | some text => exact hleaves text hc

/-- What taking away makes of a node within bounds. -/
theorem Node.Reduced.allows {b : Bounds} {P V : Prop} {n n' : Node} (h : n.Reduced P V n') (hn : b.Allows n)
    (hlists : ∀ prop ∈ Transition.properties, b.Names prop) : b.Allows n' := by
  obtain ⟨content, raws, source⟩ := n
  obtain ⟨content', raws', source'⟩ := n'
  have hcontent : content.Reduced P V content' := h.content
  cases hcontent with
  | same => exact ⟨hn.declaration, hn.selector, hn.switch⟩
  | params => exact ⟨nofun, nofun, fun _ => rfl⟩
  | @value d kept _ hprop _ =>
    refine ⟨fun d' hd' => ?_, nofun, fun _ => rfl⟩
    obtain rfl := Option.some.inj hd'
    exact hlists d.prop (List.contains_iff_mem.1 hprop) { d with value := Transition.render kept }

namespace Pass

variable {b : Bounds} {p q : Pass}

/-- Taking away before anything was found out about scopes and values. -/
theorem Takes.within {P V : Nat → Prop} (h : p.Takes P V q) (hp : p.Within b) (hvalues : p.memory.values = [])
    (hscope : p.memory.scope = []) (hlists : ∀ prop ∈ Transition.properties, b.Names prop) : q.Within b where
  sheet := by
    have hshrinks := h.shrinks hp.sheet.numbered
    have hnumbered := hshrinks.isNumbered hp.sheet.numbered
    refine ⟨hnumbered, fun x hx => ?_⟩
    obtain ⟨_, n, hn, hreduced⟩ := hshrinks.node?_rel hp.sheet.numbered (hnumbered.node?_eq hx)
    exact hreduced.allows (hp.sheet.of_node? hn) hlists
  values := by
    rw [h.values, hvalues]
    exact fun _ hx => (List.not_mem_nil hx).elim
  knows := by
    unfold Knows
    rw [h.scope, hscope]
    exact fun _ hx => (List.not_mem_nil hx).elim
  option := by
    rw [h.rules]
    exact hp.option
  grid := by
    rw [h.grid]
    exact hp.grid

/-- A pass that begins. -/
theorem within_of_node? {r : Rules} {sheet : Sheet} (hs : sheet.IsNumbered)
    (hnodes : ∀ id n, sheet.node? id = some n → b.Allows n) (hoption : ¬b.grids → r.options.grid = .off) :
    Within b { rules := r, sheet } where
  sheet := ⟨hs, fun x hx => hnodes x.1 x.2 (hs.node?_eq hx)⟩
  values := fun _ hx => (List.not_mem_nil hx).elim
  knows := fun _ hx => (List.not_mem_nil hx).elim
  option := hoption
  grid := fun _ _ hx => (List.not_mem_nil hx).elim

end Pass

/-- A run ends within bounds that allow the nodes of the sheet, and what the rules write. -/
theorem Prefixer.run_within {b : Bounds} (x : Prefixer) {sheet : Sheet} (hs : sheet.IsNumbered)
    (hnodes : ∀ id n, sheet.node? id = some n → b.Allows n) (hoption : ¬b.grids → x.rules.options.grid = .off)
    (selects : Text → Prop)
    (hspell : ∀ v ∈ x.rules.selectors, ∀ planned ∈ v.prefixes, ∀ s, b.selects s → b.selects (v.spell s planned))
    (hselects : ∀ s, b.selects s → selects s) (hnames : (b.withSelects selects).AllowsNames x.rules)
    (hareas : b.grids → ∀ prop ∈ Grid.cellProperties, b.Names prop) (hvalues : b.AllowsValues x.rules) :
    (x.run sheet).Within (b.withSelects fun _ => True) := by
  have hlearn := x.start_learns sheet
  have hstart : (x.start sheet).Within b :=
    (Pass.Stays.of_learns hlearn (Pass.within_of_node? hs hnodes hoption)).within
  have hrules : (x.start sheet).rules = x.rules := hlearn.rules
  let p := if x.rules.options.remove then (x.start sheet).removeOutdated else x.start sheet
  have htakes : (x.start sheet).Takes (fun _ => True) (fun _ => True) p :=
    .ite (fun _ => (x.start sheet).removeOutdated_takes hstart.sheet.numbered) fun _ => .refl _
  have hp : p.Within b := htakes.within hstart hlearn.values hlearn.scope hnames.lists
  have hrules' : p.rules = x.rules := htakes.rules.trans hrules
  have hadd : (p.addMissing x).Within (b.withSelects fun _ => True) := by
    rw [← hrules'] at hspell hnames hvalues
    exact Pass.addMissing_within hp x selects hspell hselects hnames hareas hvalues
  have hrun : x.run sheet = if x.rules.options.add then p.addMissing x else p := rfl
  rw [hrun]
  split
  · exact hadd
  · exact hp.withSelects fun _ _ => trivial

end VendorCss
