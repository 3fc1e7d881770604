import VendorCss.Proofs.Separated

/-!
# Lists in parts

A separator that stands outside quotes, parentheses and escapes divides a list into two lists that can be cut apart, the
one before it without an empty item at its end (`split_append_cons`). An item is not cut again: it is trimmed, it is the
only item of itself, and a separator stands in it only inside quotes, parentheses or escapes (`split_parts`).
-/

namespace VendorCss.Separated

open Scan

variable {separators : List Char} {scan : Scan} {current a b item t u w : Text} {pieces qs : List Text} {c : Char}
variable {last : Bool}

/-! ## Divided lists -/

/-- The pieces before a separator that stands outside everything, and those after it. -/
theorem cut_append_cons (hc : c ∈ separators) (hplain : c ∉ enclosing) (ha : along separators scan a = {})
    (current b : Text) : cut separators scan current (a ++ c :: b) =
      cut separators scan current a ++ cut separators {} [] b := by
  induction a generalizing scan current with
  | nil =>
    obtain rfl : scan = {} := ha
    rw [List.nil_append, cut, cut, step_of_notMem hplain]
    dsimp only
    rw [if_pos (List.contains_iff_mem.2 hc), List.singleton_append]
  | cons d a ih =>
    rw [List.cons_append, cut, cut]
    dsimp only
    split
    · rw [ih ha, List.cons_append]
    · exact ih ha (current ++ [d])

/-- What counts as an item at the end of the first pieces does not depend on the flag: more pieces follow. -/
theorem items_append (hpieces : pieces ≠ []) (hqs : qs ≠ []) :
    items last (pieces ++ qs) = items false pieces ++ items last qs := by
  induction pieces with
  | nil => exact absurd rfl hpieces
  | cons piece pieces ih =>
    rw [List.cons_append, items_cons (List.append_ne_nil_of_right_ne_nil _ hqs)]
    cases pieces with
    | nil =>
      rw [items_singleton, List.nil_append]
      split <;> rfl
    | cons next pieces =>
      rw [items_cons (List.cons_ne_nil _ _), ih (List.cons_ne_nil _ _)]
      split <;> rfl

theorem split_append_cons (hc : c ∈ separators) (hplain : c ∉ enclosing) (ha : along separators {} a = {}) :
    split separators last (a ++ c :: b) = split separators false a ++ split separators last b := by
  rw [split, cut_append_cons hc hplain ha, items_append cut_ne_nil cut_ne_nil]
  rfl

/-! ## Items alone -/

/-- A text in which nothing separates is one item. -/
theorem split_eq_singleton (h : (through? separators {} t).isSome = true) (hne : t ≠ []) :
    split separators last t = [t.trim] := by
  obtain ⟨scan, hscan⟩ := Option.isSome_iff_exists.1 h
  have hcut := cut_append hscan [] []
  rw [List.append_nil] at hcut
  rw [split, hcut, List.nil_append, cut, items, List.isEmpty_eq_false_iff.2 hne, Bool.not_false, Bool.or_true,
    if_pos rfl]

/-- A separator outside everything would be seen. -/
theorem mem_enclosing_of_through? (h : (through? separators {} (u ++ c :: w)).isSome = true)
    (hu : along separators {} u = {}) (hc : c ∈ separators) : c ∈ enclosing := by
  obtain ⟨scan, hscan⟩ := Option.isSome_iff_exists.1 (isSome_through?_of_append h)
  obtain rfl : {} = scan := hu.symm.trans (along_eq hscan)
  rw [through?_append, hscan, Option.bind_some, through?] at h
  by_contra hplain
  rw [step_of_notMem hplain, if_pos (List.contains_iff_mem.2 hc)] at h
  cases h

/-- Lists on both sides of a separator are cut on their own. An item that is not empty has no blanks at its ends, is the
only item of itself, and has no separator outside quotes, parentheses and escapes. -/
theorem split_parts (separators : List Char) (last : Bool) :
    (∀ (a b : Text), ∀ c ∈ separators, c ∉ enclosing → along separators {} a = {} →
      split separators last (a ++ c :: b) = split separators false a ++ split separators last b) ∧
    ∀ (t : Text), ∀ item ∈ split separators last t, item ≠ [] →
      item.trim = item ∧ (∀ last, split separators last item = [item]) ∧
        ∀ u c w, item = u ++ c :: w → along separators {} u = {} → c ∈ separators → c ∈ enclosing := by
  refine ⟨fun a b c hc hplain ha => split_append_cons hc hplain ha, fun t item hitem hne => ?_⟩
  have htrim := (isTrimmed_of_mem_split hitem).trim_eq
  have hnone := isSome_through?_of_mem_split hitem
  refine ⟨htrim, fun last => ?_, fun u c w heq hu hc => ?_⟩
  · rw [split_eq_singleton hnone hne, htrim]
  · exact mem_enclosing_of_through? (heq ▸ hnone) hu hc

/-- A list of images, and the image at its end. -/
theorem split_parts_images :
    along [','] {} "url(a,b) , \"c,d\"" = {} ∧
      split [','] true "url(a,b) , \"c,d\",\\, e," =
        split [','] false "url(a,b) , \"c,d\"" ++ split [','] true "\\, e," ∧
      "\"c,d\"".toList ∈ split [','] false "url(a,b) , \"c,d\"" ∧
      split [','] true "\"c,d\"" = ["\"c,d\""] := by
  have hclosed : along [','] {} "url(a,b) , \"c,d\"" = {} := by decide
  have hmem : "\"c,d\"".toList ∈ split [','] false "url(a,b) , \"c,d\"" := by decide
  exact ⟨hclosed, (split_parts [','] true).1 "url(a,b) , \"c,d\"" "\\, e," ',' (by decide) (by decide) hclosed, hmem,
    ((split_parts [','] false).2 _ _ hmem (List.cons_ne_nil _ _)).2.1 true⟩

end VendorCss.Separated
