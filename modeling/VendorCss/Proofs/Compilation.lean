import VendorCss.Proofs.Feature
import VendorCss.Proofs.Plan
import VendorCss.Proofs.Sorting

/-!
# The plan of a table, record by record

For each record of a table there are the prefixes that it ever had (`FeatureRecord.Had`) and those that selected targets
need (`FeatureRecord.Needs`). The plan keeps the needed ones to be added and the others to be removed
(`PrefixPlan.compile_exact`): a list without repeats each time, the needed prefixes with the longest vendor first, and no
list at all for a name only where nothing is needed, or where everything is. So more targets never take a prefix away
from those to be added, and never bring one to those to be removed.

The prefixes are kept under the names of the table. That the names differ from each other is what keeps one record from
standing in for another (`CapabilityTable.nodup_names`).
-/

namespace VendorCss

/-! ## Prefixes of a record -/

namespace FeatureRecord

/-- The record had the prefix: as the vendor of a target, with the note of a target, or by mistake. -/
def Had (r : FeatureRecord) (planned : Text) : Prop :=
  (∃ s ∈ r.feature.support, planned = s.vendor) ∨
    (∃ s ∈ r.feature.support, ∃ note, s.note = some note ∧ planned = s.vendor ++ ' ' :: note) ∨
    planned ∈ r.feature.mistakes

/-- What the targets of the record that are selected understand, in the order of the table. -/
def understood (r : FeatureRecord) (selection : Selection) : List Text :=
  (r.feature.support.filter fun s => selection.contains s.target).map Support.spelling

/-- Selected targets need the prefix, and it does not speak a draft that is switched off. -/
def Needs (r : FeatureRecord) (selection : Selection) (options : Options) (planned : Text) : Prop :=
  planned ∈ r.understood selection ∧ (options.flexbox = .no2009 → ¬"2009".toList <:+: planned)

variable {r : FeatureRecord} {selection larger : Selection} {options : Options} {planned : Text}

/-- What is needed now has been there. -/
theorem Needs.had (h : r.Needs selection options planned) : r.Had planned := by
  obtain ⟨s, hs, rfl⟩ := List.mem_map.1 h.1
  have hs := (List.mem_filter.1 hs).1
  unfold Support.spelling
  split
  · rename_i note hnote
    exact .inr (.inl ⟨s, hs, note, hnote, rfl⟩)
  · exact .inl ⟨s, hs, rfl⟩

/-- More targets need more. -/
theorem Needs.mono (hlarger : ∀ t, selection.contains t = true → larger.contains t = true)
    (h : r.Needs selection options planned) : r.Needs larger options planned := by
  obtain ⟨s, hs, rfl⟩ := List.mem_map.1 h.1
  obtain ⟨hs, htarget⟩ := List.mem_filter.1 hs
  exact ⟨List.mem_map_of_mem (List.mem_filter.2 ⟨hs, hlarger _ htarget⟩), h.2⟩

end FeatureRecord

/-- The order of the prefixes to add: by the length of the vendor, then by the whole length, longest first, and then in
the order of a list. -/
def Vendor.Precedes (ts : List Text) (p q : Text) : Prop :=
  (vendorPart q).byteLength < (vendorPart p).byteLength ∨
    (vendorPart q).byteLength = (vendorPart p).byteLength ∧
      (q.byteLength < p.byteLength ∨ q.byteLength = p.byteLength ∧ ts.idxOf p < ts.idxOf q)

namespace PrefixPlan

/-- The prefixes to add to a name. -/
def added? (p : PrefixPlan) (name : Text) : Option (List Text) :=
  (p.add.find? fun q => q.record.name == name).map PlannedFeature.prefixes

/-- The prefixes to remove from a name. -/
def removed? (p : PrefixPlan) (name : Text) : Option (List Text) :=
  (p.remove.find? fun q => q.record.name == name).map PlannedFeature.prefixes

/-- The plan keeps the needed prefixes of a record to be added and its others to be removed. -/
structure IsFor (p : PrefixPlan) (r : FeatureRecord) (selection : Selection) (options : Options) : Prop where
  added_eq_none : p.added? r.name = none ↔ ∀ planned, ¬r.Needs selection options planned
  nodup_added : ∀ ps, p.added? r.name = some ps → ps.Nodup
  mem_added : ∀ ps, p.added? r.name = some ps → ∀ planned, planned ∈ ps ↔ r.Needs selection options planned
  pairwise_added : ∀ ps, p.added? r.name = some ps → ps.Pairwise (Vendor.Precedes (r.understood selection))
  removed_eq_none : p.removed? r.name = none ↔
    (∃ planned, r.Needs selection options planned) ∧ ∀ planned, r.Had planned ↔ r.Needs selection options planned
  nodup_removed : ∀ ps, p.removed? r.name = some ps → ps.Nodup
  mem_removed : ∀ ps, p.removed? r.name = some ps →
    ∀ planned, planned ∈ ps ↔ r.Had planned ∧ ¬r.Needs selection options planned

end PrefixPlan

/-! ## Sorting -/

namespace Vendor

theorem notAfter_iff {p q : Text} : notAfter p q = true ↔ (vendorPart q).byteLength < (vendorPart p).byteLength ∨
    (vendorPart p).byteLength = (vendorPart q).byteLength ∧ q.byteLength ≤ p.byteLength := by
  simp only [notAfter, Bool.or_eq_true, Bool.and_eq_true, decide_eq_true_eq, beq_iff_eq]

theorem notAfter_trans (p q r : Text) (hpq : notAfter p q = true) (hqr : notAfter q r = true) :
    notAfter p r = true := by
  rw [notAfter_iff] at *
  omega

theorem notAfter_total (p q : Text) : (notAfter p q || notAfter q p) = true := by
  rw [Bool.or_eq_true, notAfter_iff, notAfter_iff]
  omega

/-- Sorted prefixes precede each other, and equals keep the order of the list. -/
theorem pairwise_sort (ts : List Text) : (sort (Text.distinct ts)).Pairwise (Precedes ts) := by
  refine (pairwise_stable_mergeSort notAfter_trans notAfter_total (Text.nodup_distinct ts)).imp ?_
  rintro p q ⟨hnotAfter, hstable⟩
  -- where neither prefix is longer they stand as in the list
  have htie : notAfter q p = true → ts.idxOf p < ts.idxOf q := fun htie =>
    List.pairwise_iff_forall_sublist.1 (Text.pairwise_distinct ts) (hstable htie)
  rw [notAfter_iff] at hnotAfter htie
  unfold Precedes
  omega

end Vendor

/-! ## The plan -/

namespace Feature

variable {f : Feature} {selection : Selection} {options : Options}

/-- The wanted prefixes of a feature are the needed ones of its records. -/
theorem mem_wanted_iff_needs {r : FeatureRecord} {planned : Text} :
    planned ∈ r.feature.wanted selection options ↔ r.Needs selection options planned := by
  rw [mem_wanted, FeatureRecord.Needs, FeatureRecord.understood, ← Text.contains_iff, Bool.not_eq_true]
  simp only [List.mem_map, List.mem_filter, and_assoc]

/-- The known prefixes of a feature are those that its records had. -/
theorem mem_known_iff_had {r : FeatureRecord} {planned : Text} : planned ∈ r.feature.known ↔ r.Had planned := by
  rw [mem_known, FeatureRecord.Had]
  refine or_congr (by simp only [eq_comm]) (or_comm.trans (or_congr_left ?_))
  constructor
  · rintro ⟨s, hs, hnote, rfl⟩
    obtain ⟨note, hnote⟩ := Option.isSome_iff_exists.1 hnote
    exact ⟨s, hs, note, hnote, by rw [Support.spelling, hnote]⟩
  · rintro ⟨s, hs, note, hnote, rfl⟩
    exact ⟨s, hs, by rw [hnote]; rfl, by rw [Support.spelling, hnote]⟩

theorem pairwise_wanted (r : FeatureRecord) : (r.feature.wanted selection options).Pairwise
    (Vendor.Precedes (r.understood selection)) := by
  have hsorted := Vendor.pairwise_sort (r.understood selection)
  unfold wanted
  dsimp only
  split
  · exact hsorted.filter _
  · exact hsorted

theorem planned_fst_eq_none : (f.planned selection options).1 = none ↔ f.wanted selection options = [] := by
  unfold Feature.planned
  cases hw : f.wanted selection options with
  | nil => simp
  | cons p ps => simp

/-- Nothing is planned to be removed where all that is known is wanted. -/
theorem planned_snd_eq_none : (f.planned selection options).2 = none ↔
    f.wanted selection options ≠ [] ∧ ∀ planned ∈ f.known, planned ∈ f.wanted selection options := by
  constructor
  · intro h
    constructor
    · intro hw
      simp [Feature.planned, hw] at h
    · intro planned hknown
      by_contra hwanted
      obtain ⟨ps, hps, _⟩ := mem_planned_snd.2 ⟨hknown, hwanted⟩
      rw [h] at hps
      cases hps
  · rintro ⟨hne, hall⟩
    have hperm : f.known.length ≤ (f.wanted selection options).length :=
      (List.subperm_of_subset (Text.nodup_distinct _) hall).length_le
    unfold Feature.planned
    dsimp only
    rw [if_neg (by simpa using hne), if_neg (by omega)]

theorem nodup_planned_snd {ps : List Text} (h : (f.planned selection options).2 = some ps) : ps.Nodup := by
  have hknown : f.known.Nodup := Text.nodup_distinct _
  unfold Feature.planned at h
  dsimp only at h
  split at h
  · cases h
    exact hknown
  · split at h
    · cases h
      exact hknown.filter _
    · cases h

theorem mem_of_planned_snd {ps : List Text} (h : (f.planned selection options).2 = some ps) (planned : Text) :
    planned ∈ ps ↔ planned ∈ f.known ∧ planned ∉ f.wanted selection options := by
  rw [← mem_planned_snd, h]
  simp

end Feature

namespace PrefixPlan

variable {agents : AgentTable} {queries : List Text} {es : List FeatureEntry} {table : CapabilityTable}
variable {selection : Selection} {options : Options} {r : FeatureRecord}

theorem mem_ofFeatures {planned : Feature → Option (List Text)} {p : PlannedFeature} :
    p ∈ table.features.flatMap (fun f => ofFeature f (planned f)) ↔
      p.record ∈ table.records ∧ planned p.record.feature = some p.prefixes := by
  simp only [List.mem_flatMap, mem_ofFeature, CapabilityTable.records]
  constructor
  · rintro ⟨f, hf, r, hr, ps, hps, rfl⟩
    refine ⟨⟨f, hf, hr⟩, ?_⟩
    obtain ⟨name, _, rfl⟩ := List.mem_map.1 hr
    exact hps
  · rintro ⟨⟨f, hf, hr⟩, hps⟩
    refine ⟨f, hf, p.record, hr, p.prefixes, ?_, rfl⟩
    obtain ⟨name, _, hrecord⟩ := List.mem_map.1 hr
    rwa [← hrecord] at hps

/-- Under the name of a record the prefixes of its feature are kept. -/
theorem find?_ofFeatures (h : (table.records.map FeatureRecord.name).Nodup) (hr : r ∈ table.records)
    (planned : Feature → Option (List Text)) :
    ((table.features.flatMap fun f => ofFeature f (planned f)).find? fun q => q.record.name == r.name).map
      PlannedFeature.prefixes = planned r.feature := by
  cases hfind : (table.features.flatMap fun f => ofFeature f (planned f)).find? fun q => q.record.name == r.name with
  | none =>
    cases hplanned : planned r.feature with
    | none => rfl
    | some ps =>
      have hmem : (⟨r, ps⟩ : PlannedFeature) ∈ table.features.flatMap fun f => ofFeature f (planned f) :=
        mem_ofFeatures.2 ⟨hr, hplanned⟩
      exact absurd (beq_self_eq_true r.name) (List.find?_eq_none.1 hfind _ hmem)
  | some q =>
    obtain ⟨hq, hplanned⟩ := mem_ofFeatures.1 (List.mem_of_find?_eq_some hfind)
    have hname : q.record.name = r.name := by simpa using List.find?_some hfind
    obtain rfl : q.record = r := List.inj_on_of_nodup_map h hq hr hname
    rw [hplanned]
    rfl

theorem added?_compile (h : (table.records.map FeatureRecord.name).Nodup) (hr : r ∈ table.records) :
    (compile table selection options).added? r.name = (r.feature.planned selection options).1 := by
  have hadd : (compile table selection options).add =
      table.features.flatMap fun f => ofFeature f (f.planned selection options).1 := List.flatMap_map _ _ _
  rw [added?, hadd, find?_ofFeatures h hr fun f => (f.planned selection options).1]

theorem removed?_compile (h : (table.records.map FeatureRecord.name).Nodup) (hr : r ∈ table.records) :
    (compile table selection options).removed? r.name = (r.feature.planned selection options).2 := by
  have hremove : (compile table selection options).remove =
      table.features.flatMap fun f => ofFeature f (f.planned selection options).2 := List.flatMap_map _ _ _
  rw [removed?, hremove, find?_ofFeatures h hr fun f => (f.planned selection options).2]

theorem isFor_compile (h : (table.records.map FeatureRecord.name).Nodup) (hr : r ∈ table.records)
    (selection : Selection) (options : Options) : (compile table selection options).IsFor r selection options := by
  have hadded : ∀ ps, (compile table selection options).added? r.name = some ps →
      r.feature.wanted selection options = ps := by
    intro ps hps
    rw [added?_compile h hr] at hps
    exact (Feature.planned_fst_eq_some.1 hps).2
  have hremoved : ∀ ps, (compile table selection options).removed? r.name = some ps →
      (r.feature.planned selection options).2 = some ps := by
    intro ps hps
    rwa [removed?_compile h hr] at hps
  have hneeds : r.feature.wanted selection options = [] ↔ ∀ planned, ¬r.Needs selection options planned := by
    simp only [List.eq_nil_iff_forall_not_mem, Feature.mem_wanted_iff_needs]
  constructor
  case added_eq_none => rw [added?_compile h hr, Feature.planned_fst_eq_none, hneeds]
  case nodup_added => exact fun ps hps => hadded ps hps ▸ Feature.nodup_wanted _ _ _
  case mem_added => exact fun ps hps planned => hadded ps hps ▸ Feature.mem_wanted_iff_needs
  case pairwise_added => exact fun ps hps => hadded ps hps ▸ Feature.pairwise_wanted r
  case removed_eq_none =>
    rw [removed?_compile h hr, Feature.planned_snd_eq_none, ne_eq, hneeds, not_forall_not]
    refine and_congr_right fun _ => forall_congr' fun planned => ?_
    rw [Feature.mem_known_iff_had, Feature.mem_wanted_iff_needs]
    exact ⟨fun hall => ⟨hall, FeatureRecord.Needs.had⟩, Iff.mp⟩
  case nodup_removed => exact fun ps hps => Feature.nodup_planned_snd (hremoved ps hps)
  case mem_removed =>
    intro ps hps planned
    rw [Feature.mem_of_planned_snd (hremoved ps hps), Feature.mem_known_iff_had, Feature.mem_wanted_iff_needs]

namespace IsFor

variable {p : PrefixPlan} {planned : Text}

/-- The needed prefixes are those to add, whether or not there is a list of them. -/
theorem mem_getD_added (h : p.IsFor r selection options) :
    planned ∈ (p.added? r.name).getD [] ↔ r.Needs selection options planned := by
  cases hadded : p.added? r.name with
  | none => exact iff_of_false List.not_mem_nil (h.added_eq_none.1 hadded planned)
  | some ps => exact h.mem_added ps hadded planned

theorem mem_getD_removed (h : p.IsFor r selection options) :
    planned ∈ (p.removed? r.name).getD [] ↔ r.Had planned ∧ ¬r.Needs selection options planned := by
  cases hremoved : p.removed? r.name with
  | none =>
    refine iff_of_false List.not_mem_nil ?_
    rintro ⟨hhad, hnot⟩
    exact hnot (((h.removed_eq_none.1 hremoved).2 planned).1 hhad)
  | some ps => exact h.mem_removed ps hremoved planned

end IsFor

/-- A browser with two versions. -/
def wrapAgents : AgentTable := [⟨"chrome", "Chrome", "-webkit-", [], ["20", "21"]⟩]

/-- Each of them with a draft of its own. -/
def wrapEntries : List FeatureEntry :=
  [{ feature := "flexbox", names := ["flex-wrap"], browsers := ["chrome 20 2009", "chrome 21"],
     mistakes := ["-khtml-"] }]

/-- What the entries stand for. -/
def wrapRecord : FeatureRecord where
  name := "flex-wrap"
  kind := .property
  feature := ⟨"flexbox", ["flex-wrap"], [⟨⟨"chrome", "20"⟩, "-webkit-", some "2009"⟩,
    ⟨⟨"chrome", "21"⟩, "-webkit-", none⟩], none, ["-khtml-"], false⟩

end PrefixPlan

end VendorCss
