import VendorCss.Proofs.Pass.AdditionBounds
import VendorCss.Proofs.Rules

/-!
# The vendors of written names

A planned prefix is a vendor, with or without a note after a space (`Vendor.IsFor`), where the vendors of the table are
words between hyphens. What a dialect writes for it begins with that vendor, or is a name without vendor
(`PropertyDialect.ofName_of_writes`): `-moz-` had `color-adjust` unprefixed.
-/

namespace VendorCss

namespace Vendor

variable {vendor planned name : Text}

/-- A planned prefix of a vendor. -/
def IsFor (planned vendor : Text) : Prop := planned = vendor ∨ ∃ note, planned = vendor ++ ' ' :: note

namespace IsVendor

theorem ne_nil (h : IsVendor vendor) : vendor ≠ [] := by
  obtain ⟨word, _, _, rfl⟩ := h
  exact List.cons_ne_nil _ _

theorem head?_eq (h : IsVendor vendor) : vendor.head? = some '-' := by
  obtain ⟨word, _, _, rfl⟩ := h
  rfl

theorem notMem_blank (h : IsVendor vendor) : ∀ c ∈ vendor, isBlank c = false := by
  obtain ⟨word, _, hword, rfl⟩ := h
  intro c hc
  rcases List.mem_append.1 hc with hc | hc
  · rcases List.mem_cons.1 hc with rfl | hc
    · decide
    · exact Text.isBlank_of_isAsciiWordChar (hword c hc)
  · rw [List.mem_singleton.1 hc]
    decide

end IsVendor

theorem isVendor_of_known (h : vendor ∈ known) : IsVendor vendor := by
  simp only [known, List.mem_cons, List.not_mem_nil, or_false] at h
  rcases h with rfl | rfl | rfl | rfl
  · exact ⟨"webkit", by decide, by decide, rfl⟩
  · exact ⟨"moz", by decide, by decide, rfl⟩
  · exact ⟨"ms", by decide, by decide, rfl⟩
  · exact ⟨"o", by decide, by decide, rfl⟩

theorem IsFor.ofName_append (h : IsVendor vendor) (hplanned : IsFor planned vendor) (name : Text) :
    ofName (planned ++ name) = vendor := by
  rcases hplanned with rfl | ⟨note, rfl⟩
  · exact h.ofName_append name
  · rw [List.append_assoc]
    exact h.ofName_append _

theorem unprefixed_append (h : IsVendor vendor) (name : Text) : unprefixed (vendor ++ name) = name := by
  rw [unprefixed, h.ofName_append, List.drop_left]

/-- The vendor of a planned prefix is its first word. -/
theorem IsFor.vendorPart (h : IsVendor vendor) (hplanned : IsFor planned vendor) : vendorPart planned = vendor := by
  have hhyphens : isHyphenated vendor = true := by
    obtain ⟨word, _, _, rfl⟩ := h
    rw [isHyphenated, List.getLast?_concat]
    rfl
  have hlength : 1 < vendor.length := by
    obtain ⟨word, _, _, rfl⟩ := h
    simp
  have hfirst : ∀ ws : List Text, (vendor :: ws).find? (fun w => 1 < w.length && isHyphenated w) = some vendor := by
    intro ws
    rw [List.find?_cons_of_pos]
    rw [hhyphens, decide_eq_true hlength]
    rfl
  have hword : vendor.isEmpty = false := List.isEmpty_eq_false_iff.2 h.ne_nil
  have hwords : ∃ ws, Text.words planned = vendor :: ws := by
    rcases hplanned with rfl | ⟨note, rfl⟩
    · refine ⟨[], ?_⟩
      rw [Text.words, Text.piecesBy_of_forall h.notMem_blank, List.filter_cons_of_pos (by rw [hword]; rfl)]
      rfl
    · refine ⟨Text.words note, ?_⟩
      rw [Text.words, Text.piecesBy_append_cons h.notMem_blank (by decide),
        List.filter_cons_of_pos (by rw [hword]; rfl)]
      rfl
  obtain ⟨ws, hws⟩ := hwords
  rw [Vendor.vendorPart, hws, hfirst]
  rfl

theorem IsFor.ofName_vendorPart (h : IsVendor vendor) (hplanned : IsFor planned vendor) (name : Text) :
    ofName (Vendor.vendorPart planned ++ name) = vendor := by
  rw [hplanned.vendorPart h]
  exact h.ofName_append name

end Vendor

/-! ## Standard names -/

namespace PropertyName

open Vendor

variable {prop name planned : Text}

theorem unprefixed_of_ofName (h : Vendor.ofName prop = []) : unprefixed prop = prop := by
  rw [unprefixed, h]
  rfl

theorem normalize_of_plain (h : PropertyDialect.ofName prop = .plain) : normalize prop = prop := by
  rw [normalize, h]
  rfl

/-- A plain name stands for itself. -/
theorem standard_of_plain (h : PropertyDialect.ofName prop = .plain) (hprop : unprefixed name = prop) :
    standard name = prop := by
  have hdirection : prop ≠ "flex-direction" := by
    rintro rfl
    exact absurd h (by decide)
  rw [standard, hprop, normalize_of_plain h, if_neg hdirection]

/-- A prefix does not change what a name stands for. -/
theorem standard_append (hplanned : IsVendor planned) (hprop : Vendor.ofName prop = []) :
    standard (planned ++ prop) = standard prop := by
  rw [standard, standard, unprefixed_append hplanned, unprefixed_of_ofName hprop]

/-- A dialect leaves names alone, or leads from those of its family to names that start in another way than a prefix. -/
theorem normalize_eq_or_head? (dialect : PropertyDialect) : (∀ prop, dialect.normalize prop = prop) ∨
    ∀ prop ∈ dialect.family, (dialect.normalize prop).head? ≠ some '-' := by
  cases dialect <;> first | exact .inl fun _ => rfl | right; rw [(PropertyDialect.spelledFamily _).2]; decide +kernel

/-- No name stands for a prefixed one. -/
theorem append_ne_standard (hplanned : IsVendor planned) (hprop : Vendor.ofName prop = []) :
    planned ++ prop ≠ standard prop := by
  have hhead : (planned ++ prop).head? = some '-' := by
    rw [List.head?_append_of_ne_nil _ hplanned.ne_nil, hplanned.head?_eq]
  have hlonger : planned ++ prop ≠ prop := fun heq => hplanned.ne_nil (List.append_left_eq_self.1 heq)
  have hnormal : planned ++ prop ≠ normalize prop := by
    rw [normalize]
    rcases PropertyDialect.mem_family_ofName prop with hplain | hmem
    · rw [hplain]
      exact hlonger
    · rcases normalize_eq_or_head? (PropertyDialect.ofName prop) with hself | hstart
      · rw [hself]
        exact hlonger
      · intro heq
        exact hstart prop hmem (heq ▸ hhead)
  rw [standard, unprefixed_of_ofName hprop]
  split
  · intro heq
    rw [heq] at hhead
    exact absurd hhead (by decide)
  · exact hnormal

end PropertyName

/-! ## Names of a dialect -/

namespace PropertyDialect

open Vendor

variable {name prop planned vendor spelled : Text}

/-- Some prefixes are known to be of one vendor only. -/
theorem vendor_eq (h : IsVendor vendor) (hplanned : IsFor planned vendor) {known : Text} (heq : planned = known)
    (hknown : Vendor.vendorPart known = known) : vendor = known := by
  rw [← hplanned.vendorPart h, heq, hknown]

/-- The name for a planned prefix begins with its vendor, or it is the one that `-moz-` had without a prefix. -/
theorem ofName_prefixed (h : IsVendor vendor) (hplanned : IsFor planned vendor)
    (hname : prop = name ∨ name ∈ gridNames) :
    Vendor.ofName ((ofName name).prefixed prop planned) = vendor ∨
      (ofName name).prefixed prop planned = "color-adjust" := by
  have happend : ∀ rest, Vendor.ofName (planned ++ rest) = vendor := hplanned.ofName_append h
  have hpart : ∀ rest, Vendor.ofName (Vendor.vendorPart planned ++ rest) = vendor := hplanned.ofName_vendorPart h
  rcases hname with rfl | hname
  · rcases mem_family_ofName prop with hplain | hmem
    · rw [hplain]
      exact .inl (happend prop)
    · generalize ofName prop = dialect at hmem ⊢
      cases dialect
      case gridStart =>
        simp only [prefixed]
        split
        · rename_i hms
          have hall : ∀ p ∈ gridStart.family,
              Vendor.ofName (Text.replaceFirst "-start" [] ("-ms-".toList ++ p)) = "-ms-" := by
            rw [gridStart.spelledFamily.2]
            decide
          rw [vendor_eq h hplanned hms (by decide), hms]
          exact .inl (hall prop hmem)
        · exact .inl (happend _)
      case maskBorder =>
        simp only [prefixed]
        split
        · rename_i hwebkit
          have hall : ∀ p ∈ maskBorder.family,
              Vendor.ofName (Text.replace "mask-border" "mask-box-image" ("-webkit-".toList ++ p)) = "-webkit-" := by
            rw [maskBorder.spelledFamily.2]
            decide
          rw [vendor_eq h hplanned hwebkit (by decide), hwebkit]
          exact .inl (hall prop hmem)
        · exact .inl (happend _)
      case imageRendering =>
        simp only [prefixed]
        split
        · rename_i hms
          rw [vendor_eq h hplanned hms (by decide)]
          exact .inl (by decide)
        · exact .inl (happend _)
      case printColorAdjust =>
        simp only [prefixed]
        split
        · exact .inr rfl
        · exact .inl (happend _)
      case columnBreak =>
        simp only [prefixed, List.append_assoc]
        exact .inl (happend _)
      all_goals first | exact .inl (happend _) | exact .inl (hpart _)
  · simp only [gridNames, List.mem_cons, List.not_mem_nil, or_false] at hname
    rcases hname with rfl | rfl | rfl <;> exact .inl (happend _)

/-- So it is for all names that the dialect writes. -/
theorem ofName_of_writes (h : IsVendor vendor) (hplanned : IsFor planned vendor)
    (hname : prop = name ∨ name ∈ gridNames) (hwrites : (ofName name).Writes prop planned spelled) :
    Vendor.ofName spelled = vendor ∨ spelled = "color-adjust" := by
  cases hwrites with
  | name => exact ofName_prefixed h hplanned hname
  | skip => exact .inl (hplanned.ofName_append h _)
  | box => exact .inl (hplanned.ofName_vendorPart h _)
  | composite => exact .inl (hplanned.ofName_append h _)
  | grid _ hms _ =>
    have hgrid := hplanned.ofName_append h
    rw [hms] at hgrid
    exact .inl (hgrid _)

end PropertyDialect

/-! ## Prefixes of compiled rules -/

namespace Rules

open Vendor

variable {table : CapabilityTable} {selection : Selection} {options : Options}

theorem isFor_spelling (s : Support) : IsFor s.spelling s.vendor := by
  unfold Support.spelling
  split
  · exact .inr ⟨_, rfl⟩
  · exact .inl rfl

/-- The prefixes of a plan are for vendors of the table. -/
theorem isFor_of_mem_add (htable : ∀ f ∈ table.features, ∀ s ∈ f.support, IsVendor s.vendor) {p : PlannedFeature}
    (hp : p ∈ (compile table selection options).plan.add) {planned : Text} (hplanned : planned ∈ p.prefixes) :
    ∃ vendor, IsVendor vendor ∧ IsFor planned vendor := by
  obtain ⟨f, hf, r, _, _, rfl⟩ := PrefixPlan.mem_add.1 hp
  obtain ⟨⟨s, hs, _, rfl⟩, _⟩ := Feature.mem_wanted.1 hplanned
  exact ⟨s.vendor, htable f hf s hs, isFor_spelling s⟩

/-- What is written for the planned prefixes are these, or `-webkit-`. -/
theorem mem_written {dialect : PropertyDialect} {prefixes : List Text} {planned : Text}
    (h : planned ∈ dialect.written prefixes) : planned ∈ prefixes ∨ planned = "-webkit-" := by
  have hrenamed : planned ∈ prefixes.map (renamed [("-ms-", "-webkit-")]) →
      planned ∈ prefixes ∨ planned = "-webkit-" := by
    intro hmem
    obtain ⟨p, hp, rfl⟩ := List.mem_map.1 hmem
    by_cases hms : p = "-ms-"
    · rw [hms]
      exact .inr (by decide)
    · refine .inl ?_
      rw [renamed, List.find?_cons_of_neg (by simpa using Ne.symm hms)]
      exact hp
  unfold PropertyDialect.written at h
  split at h
  all_goals first
    | exact hrenamed (Text.mem_distinct.1 h)
    | exact .inl (Text.mem_distinct.1 h)

/-- The prefixes of a property are for vendors. -/
theorem isFor_of_mem_properties (htable : ∀ f ∈ table.features, ∀ s ∈ f.support, IsVendor s.vendor)
    {v : PropertyVariants} (hv : v ∈ (compile table selection options).properties) {planned : Text}
    (hplanned : planned ∈ v.prefixes) : ∃ vendor, IsVendor vendor ∧ IsFor planned vendor := by
  obtain ⟨p, hp, rfl⟩ := List.mem_map.1 hv
  rcases mem_written hplanned with hplanned | rfl
  · exact isFor_of_mem_add htable (List.mem_filter.1 hp).1 hplanned
  · exact ⟨"-webkit-", ⟨"webkit", by decide, by decide, rfl⟩, .inl rfl⟩

/-- So are those of a token of values. -/
theorem isFor_of_mem_values (htable : ∀ f ∈ table.features, ∀ s ∈ f.support, IsVendor s.vendor)
    {v : ValueVariants} (hv : v ∈ (compile table selection options).values) {planned : Text}
    (hplanned : planned ∈ v.prefixes) : ∃ vendor, IsVendor vendor ∧ IsFor planned vendor := by
  obtain ⟨p, hp, rfl⟩ := List.mem_map.1 hv
  exact isFor_of_mem_add htable (List.mem_filter.1 hp).1 hplanned

/-- The variants of a property are spelled in the dialect of the name that they are found under. -/
theorem eq_of_property? {name : Text} {v : PropertyVariants}
    (h : (compile table selection options).property? name = some v) :
    v ∈ (compile table selection options).properties ∧ v.name = name ∧ v.dialect = PropertyDialect.ofName name := by
  have hmem := List.mem_of_find?_eq_some h
  have hname : v.name = name := eq_of_beq (List.find?_some (p := fun (v : PropertyVariants) => v.name == name) h)
  obtain ⟨p, _, rfl⟩ := List.mem_map.1 hmem
  exact ⟨hmem, hname, congrArg PropertyDialect.ofName hname⟩

end Rules

end VendorCss
