import Mathlib.Data.List.Perm.Subperm
import VendorCss.Plan
import VendorCss.Proofs.Text.Cuts

/-!
# What a plan holds

A planned name comes from a feature of the table. To be added are the prefixes that selected targets understand
(`Feature.mem_wanted`), to be removed the other prefixes that are known (`Feature.mem_planned_snd`).
-/

namespace VendorCss

namespace Feature

variable {f : Feature} {selection : Selection} {options : Options} {planned : Text}

/-- A prefix is wanted if some selected target understands it, unless it speaks the draft of 2009 and that one is off. -/
theorem mem_wanted : planned ∈ f.wanted selection options ↔
    (∃ s ∈ f.support, selection.contains s.target = true ∧ s.spelling = planned) ∧
      (options.flexbox = .no2009 → Text.contains planned "2009" = false) := by
  have hsorted : ∀ p, p ∈ Vendor.sort
      (Text.distinct ((f.support.filter fun s => selection.contains s.target).map Support.spelling)) ↔
        ∃ s ∈ f.support, selection.contains s.target = true ∧ s.spelling = p := by
    intro p
    simp only [Vendor.sort, List.mem_mergeSort, Text.mem_distinct, List.mem_map, List.mem_filter, and_assoc]
  unfold wanted
  dsimp only
  split
  · rename_i hno2009
    simp [List.mem_filter, hsorted, hno2009]
  · rename_i hno2009
    simp [hsorted, hno2009]

/-- Something is planned to be added where some prefix is wanted. -/
theorem planned_fst_eq_some {ps : List Text} : (f.planned selection options).1 = some ps ↔
    f.wanted selection options ≠ [] ∧ f.wanted selection options = ps := by
  unfold Feature.planned
  cases hw : f.wanted selection options with
  | nil => simp
  | cons p ps' => simp

theorem nodup_wanted (f : Feature) (selection : Selection) (options : Options) :
    (f.wanted selection options).Nodup := by
  have hsorted : (Vendor.sort
      (Text.distinct ((f.support.filter fun s => selection.contains s.target).map Support.spelling))).Nodup :=
    (List.mergeSort_perm _ Vendor.notAfter).nodup_iff.2 (Text.nodup_distinct _)
  unfold wanted
  dsimp only
  split
  · exact hsorted.filter _
  · exact hsorted

theorem mem_known : planned ∈ f.known ↔ (∃ s ∈ f.support, s.vendor = planned) ∨ planned ∈ f.mistakes ∨
    ∃ s ∈ f.support, s.note.isSome = true ∧ s.spelling = planned := by
  unfold known
  simp only [Text.mem_distinct, List.mem_append, List.mem_map, List.mem_filter, or_assoc, and_assoc]

/-- What is wanted is known, with its note. -/
theorem wanted_subset_known (f : Feature) (selection : Selection) (options : Options) :
    f.wanted selection options ⊆ f.known := by
  intro planned h
  obtain ⟨⟨s, hs, _, rfl⟩, _⟩ := mem_wanted.1 h
  rw [mem_known]
  cases hnote : s.note with
  | none => exact .inl ⟨s, hs, by rw [Support.spelling, hnote]⟩
  | some note => exact .inr (.inr ⟨s, hs, by rw [hnote]; rfl, rfl⟩)

/-- Whatever is known and not wanted is planned to be removed: where no fewer prefixes are wanted than known, they are
the same. -/
theorem mem_planned_snd : (∃ ps, (f.planned selection options).2 = some ps ∧ planned ∈ ps) ↔
    planned ∈ f.known ∧ planned ∉ f.wanted selection options := by
  unfold Feature.planned
  dsimp only
  split
  · rename_i hnone
    rw [List.isEmpty_iff.1 hnone]
    simp
  · split
    · simp
    · rename_i hlength
      have hperm := (List.subperm_of_subset (f.nodup_wanted selection options)
        (f.wanted_subset_known selection options)).perm_of_length_le (by omega)
      constructor
      · rintro ⟨ps, hps, _⟩
        cases hps
      · rintro ⟨hknown, hwanted⟩
        exact absurd (hperm.mem_iff.2 hknown) hwanted

end Feature

namespace PrefixPlan

variable {table : CapabilityTable} {selection : Selection} {options : Options} {p : PlannedFeature}

theorem mem_ofFeature {f : Feature} {prefixes : Option (List Text)} :
    p ∈ ofFeature f prefixes ↔ ∃ r ∈ f.records, ∃ ps, prefixes = some ps ∧ p = ⟨r, ps⟩ := by
  cases prefixes with
  | none => simp [ofFeature]
  | some ps =>
    simp only [ofFeature, List.mem_map]
    constructor
    · rintro ⟨r, hr, rfl⟩
      exact ⟨r, hr, ps, rfl, rfl⟩
    · rintro ⟨r, hr, ps', hps, rfl⟩
      exact ⟨r, hr, by rw [Option.some.inj hps]⟩

/-- What is added for a name are the wanted prefixes of its feature. -/
theorem mem_add : p ∈ (compile table selection options).add ↔
    ∃ f ∈ table.features, ∃ r ∈ f.records, f.wanted selection options ≠ [] ∧
      p = ⟨r, f.wanted selection options⟩ := by
  simp only [compile, List.mem_flatMap, List.mem_map]
  constructor
  · rintro ⟨_, ⟨f, hf, rfl⟩, h⟩
    obtain ⟨r, hr, ps, hps, rfl⟩ := mem_ofFeature.1 h
    obtain ⟨hne, rfl⟩ := Feature.planned_fst_eq_some.1 hps
    exact ⟨f, hf, r, hr, hne, rfl⟩
  · rintro ⟨f, hf, r, hr, hne, rfl⟩
    exact ⟨_, ⟨f, hf, rfl⟩, mem_ofFeature.2 ⟨r, hr, _, Feature.planned_fst_eq_some.2 ⟨hne, rfl⟩, rfl⟩⟩

theorem mem_remove : p ∈ (compile table selection options).remove ↔
    ∃ f ∈ table.features, ∃ r ∈ f.records, ∃ ps, (f.planned selection options).2 = some ps ∧ p = ⟨r, ps⟩ := by
  simp only [compile, List.mem_flatMap, List.mem_map]
  constructor
  · rintro ⟨_, ⟨f, hf, rfl⟩, h⟩
    exact ⟨f, hf, mem_ofFeature.1 h⟩
  · rintro ⟨f, hf, h⟩
    exact ⟨_, ⟨f, hf, rfl⟩, mem_ofFeature.2 h⟩

/-- The prefixes to add are not empty, where those of the table are not. -/
theorem prefixes_ne_nil (h : ∀ f ∈ table.features, ∀ s ∈ f.support, s.vendor ≠ []) :
    ∀ p ∈ (compile table selection options).add, ∀ planned ∈ p.prefixes, planned ≠ [] := by
  intro p hp planned hplanned hnil
  obtain ⟨f, hf, r, _, _, rfl⟩ := mem_add.1 hp
  obtain ⟨⟨s, hs, _, rfl⟩, _⟩ := Feature.mem_wanted.1 hplanned
  unfold Support.spelling at hnil
  split at hnil
  · exact List.append_ne_nil_of_left_ne_nil (h f hf s hs) _ hnil
  · exact h f hf s hs hnil

end PrefixPlan

end VendorCss
