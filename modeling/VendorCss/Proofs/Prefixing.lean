import VendorCss.Prefixing
import VendorCss.Proofs.Pass.Addition
import VendorCss.Proofs.Pass.Removal

/-!
# A run with grids left alone

A run takes away first and adds afterwards. Taking away learns nothing about grids, spells no value and makes no comment,
so the pass is still ready for adding (`Takes.isReady`). Together: the old nodes that a run leaves stand in their old
order under their old parents, and each of them was reduced and then kept its frame (`Prefixer.run_old_nodes`).
-/

namespace VendorCss

theorem Node.Reduced.isGridSwitch_eq {P V : Prop} {a b : Node} (h : a.Reduced P V b) :
    b.isGridSwitch = a.isGridSwitch := by
  obtain ⟨_, _, _⟩ := a
  obtain ⟨_, _, _⟩ := b
  cases h.content <;> rfl

/-- Taking away keeps what adding asks for. -/
theorem Pass.Takes.isReady {P V : Nat → Prop} {p q : Pass} (h : p.Takes P V q) (hp : p.IsReady) : q.IsReady where
  rules := by
    rw [h.rules]
    exact hp.rules
  numbered := (h.shrinks hp.numbered).isNumbered hp.numbered
  grids := {
    options := by
      rw [h.rules]
      exact hp.grids.options
    switches := fun x hx => by
      have hshrinks := h.shrinks hp.numbered
      obtain ⟨_, n, hn, hreduced⟩ :=
        hshrinks.node?_rel hp.numbered ((hshrinks.isNumbered hp.numbered).node?_eq hx)
      rw [hreduced.isGridSwitch_eq]
      exact hp.grids.switches (x.1, n) (Sheet.mem_nodes_of_node? hn)
    facts := by
      rw [h.grid]
      exact hp.grids.facts }
  values := by
    rw [h.values]
    exact hp.values

namespace Prefixer

theorem start_learns (x : Prefixer) (sheet : Sheet) : Pass.Learns { rules := x.rules, sheet } (x.start sheet) := by
  unfold start
  dsimp only
  split
  · exact Pass.warn_learns _ _ _
  · exact .refl _

variable {table : CapabilityTable} {options : Options} {sheet : Sheet}

/-- A run of compiled rules takes away, and then adds to what is left. -/
theorem run_shrinks_grows (selection : Selection) (hgrid : options.grid = .off)
    (htable : ∀ f ∈ table.features, ∀ s ∈ f.support, s.vendor ≠ []) (hs : sheet.IsNumbered)
    (hswitch : ∀ id text, sheet.comment? id = some text → Control.isGridSwitch text = false) :
    ∃ left, sheet.Shrinks (fun _ => Node.Reduced True True) left ∧
      left.Grows Node.SameFrame ((compile table selection options).run sheet).sheet := by
  let x := compile table selection options
  have hready : Pass.IsReady { rules := x.rules, sheet } :=
    Pass.isReady_of_compile rfl hgrid (PrefixPlan.prefixes_ne_nil htable) hs hswitch rfl rfl
  have hstart := Pass.Takes.of_learns (P := fun _ => True) (V := fun _ => True) (x.start_learns sheet)
  have hnumbered : (x.start sheet).sheet.IsNumbered := (hstart.isReady hready).numbered
  let p := if x.rules.options.remove then (x.start sheet).removeOutdated else x.start sheet
  have htakes : (x.start sheet).Takes (fun _ => True) (fun _ => True) p :=
    .ite (fun _ => (x.start sheet).removeOutdated_takes hnumbered) fun _ => .refl _
  have hp : p.IsReady := htakes.isReady (hstart.isReady hready)
  refine ⟨p.sheet, ?_, ?_⟩
  · have hshrinks := htakes.shrinks hnumbered
    rwa [(x.start_learns sheet).sheet] at hshrinks
  · have hadds : p.Adds (x.run sheet) := .ite (fun _ => p.addMissing_adds x) fun _ => .refl p
    exact (hadds hp).grows

/-- The old nodes after a run: below each node they stood there before, in their order; each has its parent, and is what
taking away and then adding may make of it. -/
theorem run_old_nodes (selection : Selection) (hgrid : options.grid = .off)
    (htable : ∀ f ∈ table.features, ∀ s ∈ f.support, s.vendor ≠ []) (hs : sheet.IsNumbered)
    (hswitch : ∀ id text, sheet.comment? id = some text → Control.isGridSwitch text = false)
    {id : Nat} (hid : id < sheet.next) :
    let after := ((compile table selection options).run sheet).sheet
    ((after.descendants id).filter (· < sheet.next)).Sublist (sheet.descendants id) ∧
      ∀ n'', after.node? id = some n'' → after.parent? id = sheet.parent? id ∧
        ∃ n n', sheet.node? id = some n ∧ n.Reduced True True n' ∧ n'.SameFrame n'' := by
  intro after
  obtain ⟨left, hshrinks, hgrows⟩ := run_shrinks_grows selection hgrid htable hs hswitch
  have hleft := hshrinks.isNumbered hs
  rw [← hshrinks.next_eq] at hid ⊢
  refine ⟨?_, fun n'' hn'' => ?_⟩
  · rw [hgrows.descendants_filter hid hleft]
    exact hshrinks.descendants_sublist hs id
  · have hrel := hgrows.node?_rel hid
    rw [hn''] at hrel
    cases hn' : left.node? id with
    | none =>
      rw [hn'] at hrel
      cases hrel
    | some n' =>
      rw [hn'] at hrel
      obtain ⟨hparent, n, hn, hreduced⟩ := hshrinks.node?_rel hs hn'
      cases hrel with
      | some hframe => exact ⟨(hgrows.parent?_eq hid).trans hparent, n, n', hn, hreduced, hframe⟩

end Prefixer

end VendorCss
