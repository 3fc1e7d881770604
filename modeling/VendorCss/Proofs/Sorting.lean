import Mathlib.Data.List.Nodup
import Mathlib.Data.List.Pairwise

/-!
# Stable sorting

A sorted list holds what the list holds, in the given order, and members that come neither before nor after each other in
that order stand as they stood (`pairwise_stable_mergeSort`). For a list without repeats this determines the sorted one.
-/

namespace VendorCss

variable {α : Type} {l : List α} {a b : α}

/-- Of two members one comes first. -/
theorem sublist_or_sublist (ha : a ∈ l) (hb : b ∈ l) (hne : a ≠ b) : [a, b].Sublist l ∨ [b, a].Sublist l := by
  induction l with
  | nil => cases ha
  | cons c l ih =>
    rcases List.mem_cons.1 ha with rfl | ha'
    · have hb' := (List.mem_cons.1 hb).resolve_left (Ne.symm hne)
      exact .inl ((List.singleton_sublist.2 hb').cons_cons a)
    · rcases List.mem_cons.1 hb with rfl | hb'
      · exact .inr ((List.singleton_sublist.2 ha').cons_cons b)
      · exact (ih ha' hb').imp (List.Sublist.cons _) (List.Sublist.cons _)

/-- A list without repeats holds two members in one order only. -/
theorem not_sublist_of_sublist (hl : l.Nodup) (h : [a, b].Sublist l) : ¬[b, a].Sublist l := by
  classical
  have hlt : l.Pairwise fun a b => l.idxOf a < l.idxOf b := by
    rw [List.pairwise_iff_getElem]
    intro i j hi hj hij
    rwa [hl.idxOf_getElem i hi, hl.idxOf_getElem j hj]
  rw [List.pairwise_iff_forall_sublist] at hlt
  exact fun h' => absurd (hlt h) (Nat.lt_asymm (hlt h'))

/-- Sorting a list without repeats keeps the order of members that could be swapped. -/
theorem pairwise_stable_mergeSort {le : α → α → Bool} (trans : ∀ a b c, le a b = true → le b c = true → le a c = true)
    (total : ∀ a b, (le a b || le b a) = true) (hl : l.Nodup) :
    (l.mergeSort le).Pairwise fun a b => le a b = true ∧ (le b a = true → [a, b].Sublist l) := by
  have hperm := List.mergeSort_perm l le
  have hnodup : (l.mergeSort le).Nodup := hperm.nodup_iff.2 hl
  rw [List.pairwise_iff_forall_sublist]
  intro a b hab
  have hne : a ≠ b := by
    rintro rfl
    exact not_sublist_of_sublist hnodup hab hab
  have hmem : ∀ c ∈ [a, b], c ∈ l := fun c hc => hperm.mem_iff.1 (hab.subset hc)
  refine ⟨List.pairwise_iff_forall_sublist.1 (List.pairwise_mergeSort trans total l) hab, fun hswap => ?_⟩
  -- sorting would have kept the other order
  refine (sublist_or_sublist (hmem a (by simp)) (hmem b (by simp)) hne).resolve_right fun h => ?_
  exact not_sublist_of_sublist hnodup hab (List.pair_sublist_mergeSort trans total hswap h)

end VendorCss
