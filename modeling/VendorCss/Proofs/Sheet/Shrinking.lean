import VendorCss.Proofs.Sheet.Whole

/-!
# Sheets that shrink

A sheet shrinks when subtrees go and the nodes that stay change as far as a relation allows, which may depend on the
number. What is left stood there before, in the same order and under the same parents (`Shrinks.descendants_sublist`,
`Shrinks.node?_rel`). Removing a node and changing one in place are such steps.
-/

namespace VendorCss.Sheet

variable {R R' R'' : Nat → Node → Node → Prop} {s s' s'' : Sheet} {id : Nat}

/-- The second sheet is the first one without some subtrees; `R` relates the old and the new node of a number. -/
structure Shrinks (R : Nat → Node → Node → Prop) (s s' : Sheet) : Prop where
  next_eq : s'.next = s.next
  whole : Forest.Embeds (fun i n' n => R i n n') (fun _ => True) s'.whole s.whole

namespace Shrinks

theorem refl (hR : ∀ i n, R i n n) (s : Sheet) : s.Shrinks R s := ⟨rfl, Forest.Embeds.refl (R := fun i n' n => R i n n') hR _⟩

theorem trans (hR : ∀ i a b c, R i a b → R' i b c → R'' i a c) (h : s.Shrinks R s') (h' : s'.Shrinks R' s'') :
    s.Shrinks R'' s'' where
  next_eq := h'.next_eq.trans h.next_eq
  whole := h'.whole.trans (fun i a b c hab hbc => hR i c b a hbc hab) (fun _ hi => hi) h.whole

theorem mono (hR : ∀ i n n', R i n n' → R' i n n') (h : s.Shrinks R s') : s.Shrinks R' s' :=
  ⟨h.next_eq, h.whole.mono fun i n n' => hR i n' n⟩

theorem isNumbered (h : s.Shrinks R s') (hs : s.IsNumbered) : s'.IsNumbered where
  nodup := h.whole.ids_sublist.nodup hs.nodup
  lt_next := fun i hi => by
    rw [h.next_eq]
    exact hs.lt_next i (h.whole.ids_sublist.mem hi)

/-! ## What is left -/

theorem find?_rel (h : s.Shrinks R s') (hs : s.IsNumbered) (hid : id ∈ s'.ids) :
    Forest.Embeds.SameFind (fun i n' n => R i n n') (fun j => ¬j ∈ s'.ids) id (s'.find? id) (s.find? id) := by
  rw [find?_eq, find?_eq]
  exact (h.whole.notMem hs.nodup).find?_rel (not_not_intro hid)

/-- A node that is left was there before, under the same parent. -/
theorem node?_rel (h : s.Shrinks R s') (hs : s.IsNumbered) {n' : Node} (hn : s'.node? id = some n') :
    s'.parent? id = s.parent? id ∧ ∃ n, s.node? id = some n ∧ R id n n' := by
  have hid : id ∈ s'.ids := Forest.mem_ids_of_mem_nodes (mem_nodes_of_node? hn)
  constructor
  · rw [parent?_eq, parent?_eq, (h.whole.notMem hs.nodup).parentUnder_eq (not_not_intro hid)]
  · have hrel := h.find?_rel hs hid
    rw [node?] at hn ⊢
    generalize s'.find? id = new, s.find? id = old at hrel hn
    cases hrel with
    | none => cases hn
    | @some _ y hxy =>
      obtain rfl := Option.some.inj hn
      exact ⟨y.1, rfl, hxy.1⟩

/-- What is left below a node stood below it before, in the same order. -/
theorem descendants_sublist (h : s.Shrinks R s') (hs : s.IsNumbered) (id : Nat) :
    (s'.descendants id).Sublist (s.descendants id) := by
  by_cases hid : id ∈ s'.ids
  · have hrel := h.find?_rel hs hid
    rw [descendants, descendants, kids, kids]
    generalize s'.find? id = new, s.find? id = old at hrel
    cases hrel with
    | none => exact .slnil
    | some hxy => exact hxy.2.ids_sublist
  · have hnone : s'.find? id = none := by
      rw [find?_eq]
      exact Forest.find?_eq_none hid
    rw [descendants, kids, hnone]
    exact List.nil_sublist _

end Shrinks

/-! ## Edits -/

theorem shrinks_modify (hR : ∀ i n, R i n n) (hs : s.IsNumbered) {edit : Node → Node}
    (h : ∀ n, s.node? id = some n → R id n (edit n)) : s.Shrinks R (s.modify id edit) where
  next_eq := rfl
  whole := map_embeds fun _ hf =>
    Forest.Embeds.flip_modify (R := fun i n' n => R i n n') hR fun n hn => h n (hs.node?_eq (mem_nodes_of_mem_runs hf hn))

theorem shrinks_erase (hR : ∀ i n, R i n n) (s : Sheet) (id : Nat) : s.Shrinks R (s.mapRuns (·.erase id)) := by
  refine ⟨rfl, ?_⟩
  rw [whole, mapRuns, joinRuns_filter]
  exact map_embeds fun f _ => Forest.Embeds.erase (R := fun i n' n => R i n n') hR id f

theorem shrinks_remove (hR : ∀ i n, R i n n) (s : Sheet) (id : Nat) : s.Shrinks R (s.remove id) := by
  unfold remove
  split
  · exact .refl hR s
  · exact shrinks_erase hR s id

end VendorCss.Sheet
