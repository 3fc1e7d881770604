import VendorCss.Rules
import VendorCss.Proofs.Plan

/-!
# Names that are both needed and outdated

A plan keeps the prefixes to add apart from those to remove, but it tells them by their texts, notes included. What is
written and what is deleted are names, and a dialect may spell one name for two prefixes. So a name that selected
browsers need can be outdated as well; `removes_prefixed_eq_false_iff` says when.

* Prefixes of one vendor with different notes spell one name where the drafts of flexbox agree on it
  (`removes_of_vendorPart_eq`).
* Where a dialect writes `-webkit-` for `-ms-`, the name is outdated if WebKit itself does not need it
  (`removes_of_rewritten`).
* Properties that are spelled plainly are safe (`removes_eq_false_of_plain`).
-/

namespace VendorCss

namespace PropertyDialect

theorem written_nil (d : PropertyDialect) : d.written [] = [] := by
  cases d <;> rfl

/-- Only a direction had two names. -/
theorem outdated_eq_singleton {d : PropertyDialect} (h : d ≠ .flexDirection) (prop planned : Text) :
    d.outdated prop planned = [d.prefixed prop planned] := by
  simp [outdated, h]

end PropertyDialect

/-- The prefix of a vendor: a word between two hyphens. -/
def Vendor.IsVendor (planned : Text) : Prop :=
  ∃ word : Text, word ≠ [] ∧ (∀ c ∈ word, isAsciiWordChar c = true) ∧ planned = '-' :: word ++ ['-']

/-- The name begins with it and tells it. -/
theorem Vendor.IsVendor.ofName_append {planned : Text} (h : Vendor.IsVendor planned) (name : Text) :
    Vendor.ofName (planned ++ name) = planned := by
  obtain ⟨word, hne, hword, rfl⟩ := h
  have htake : (word ++ '-' :: name).takeWhile isAsciiWordChar = word := by
    rw [List.takeWhile_append_of_pos hword, List.takeWhile_cons_of_neg (by decide), List.append_nil]
  have hdrop : (word ++ '-' :: name).drop word.length = '-' :: name := List.drop_left
  have hcons : '-' :: word ++ ['-'] ++ name = '-' :: (word ++ '-' :: name) := by simp
  have hempty : word.isEmpty = false := List.isEmpty_eq_false_iff.2 hne
  rw [hcons, Vendor.ofName]
  simp only [htake, hdrop, hempty, List.head?_cons, Bool.not_false, decide_true, Bool.and_self, ↓reduceIte]

/-- Without names of its own in the drafts a property has its name after the vendor. -/
theorem FlexNames.prefixed_none (prop planned : Text) :
    FlexNames.prefixed {} prop planned = Vendor.vendorPart planned ++ prop := by
  unfold FlexNames.prefixed
  split <;> rfl

/-! ## Needed names and outdated names -/

/-- The prefixes written for a property. -/
def Rules.written (r : Rules) (name : Text) : List Text :=
  ((r.property? name).map PropertyVariants.prefixes).getD []

/-- One early spelling of `align-self` in WebKit stays while the other one is written. -/
def Rules.Spares (r : Rules) (name planned : Text) : Prop :=
  name = "align-self" ∧ ((planned = "-webkit- 2009" ∧ "-webkit-".toList ∈ r.written name) ∨
    (planned = "-webkit-" ∧ "-webkit- 2009".toList ∈ r.written name))

/-- Selected browsers need a name: it is written for a prefix that a feature of properties wants. -/
def CapabilityTable.Needs (table : CapabilityTable) (selection : Selection) (options : Options) (spelled : Text) :
    Prop :=
  ∃ f ∈ table.features, ∃ name ∈ f.names, f.kindOf name = .property ∧
    ∃ planned ∈ (PropertyDialect.ofName name).written (f.wanted selection options),
      spelled = (PropertyDialect.ofName name).prefixed name planned

/-- A name is outdated: it belongs to a prefix that a feature of properties knows and does not want. -/
def CapabilityTable.Outdates (table : CapabilityTable) (selection : Selection) (options : Options) (spelled : Text) :
    Prop :=
  ∃ f ∈ table.features, ∃ name ∈ f.names, f.kindOf name = .property ∧
    ∃ lost ∈ f.known, lost ∉ f.wanted selection options ∧ ¬(Rules.compile table selection options).Spares name lost ∧
      spelled ∈ (PropertyDialect.ofName name).outdated name lost

namespace Rules

variable {table : CapabilityTable} {selection : Selection} {options : Options} {f : Feature}
variable {name planned lost spelled : Text}

theorem mem_ofKind {kind : FeatureKind} {ps : List PlannedFeature} {p : PlannedFeature} :
    p ∈ ofKind kind ps ↔ p ∈ ps ∧ p.record.kind = kind := by
  simp only [ofKind, List.mem_filter, decide_eq_true_eq]

/-- The names of a feature that are written: those of its properties for the prefixes that are wanted. -/
theorem mem_properties {v : PropertyVariants} : v ∈ (compile table selection options).properties ↔
    ∃ f ∈ table.features, ∃ name ∈ f.names, f.kindOf name = .property ∧ f.wanted selection options ≠ [] ∧
      v = ⟨name, (PropertyDialect.ofName name).written (f.wanted selection options), .ofName name⟩ := by
  simp only [compile, List.mem_map, mem_ofKind, PrefixPlan.mem_add, Feature.records]
  constructor
  · rintro ⟨_, ⟨⟨f, hf, _, ⟨name, hname, rfl⟩, hne, rfl⟩, hkind⟩, rfl⟩
    exact ⟨f, hf, name, hname, hkind, hne, rfl⟩
  · rintro ⟨f, hf, name, hname, hkind, hne, rfl⟩
    exact ⟨_, ⟨⟨f, hf, _, ⟨name, hname, rfl⟩, hne, rfl⟩, hkind⟩, rfl⟩

/-- The tokens of a feature that are written, for the prefixes that are wanted. -/
theorem mem_values {v : ValueVariants} : v ∈ (compile table selection options).values ↔
    ∃ f ∈ table.features, ∃ name ∈ f.names, f.kindOf name = .value ∧ f.wanted selection options ≠ [] ∧
      v = ⟨(ValueDialect.ofName name).token name, f.wanted selection options, .ofName name, f.props.getD []⟩ := by
  simp only [compile, List.mem_map, mem_ofKind, PrefixPlan.mem_add, Feature.records]
  constructor
  · rintro ⟨_, ⟨⟨f, hf, _, ⟨name, hname, rfl⟩, hne, rfl⟩, hkind⟩, rfl⟩
    exact ⟨f, hf, name, hname, hkind, hne, rfl⟩
  · rintro ⟨f, hf, name, hname, hkind, hne, rfl⟩
    exact ⟨_, ⟨⟨f, hf, _, ⟨name, hname, rfl⟩, hne, rfl⟩, hkind⟩, rfl⟩

theorem mem_outdatedNames {r : Rules} {p : PlannedFeature} : spelled ∈ outdatedNames r.properties p ↔
    ∃ planned ∈ p.prefixes, ¬r.Spares p.record.name planned ∧
      spelled ∈ (PropertyDialect.ofName p.record.name).outdated p.record.name planned := by
  simp only [outdatedNames, List.mem_flatMap, List.mem_filter, Spares, written, property?, Bool.not_eq_true',
    ← Bool.not_eq_true, Bool.and_eq_true, Bool.or_eq_true, decide_eq_true_eq, List.contains_iff_mem, and_assoc]

theorem removes_iff :
    (compile table selection options).removes spelled = true ↔ table.Outdates selection options spelled := by
  have hnames : spelled ∈ (compile table selection options).outdatedProperties ↔
      ∃ p, (p ∈ (PrefixPlan.compile table selection options).remove ∧ p.record.kind = .property) ∧
        spelled ∈ outdatedNames (compile table selection options).properties p := by
    simp only [compile, List.mem_flatMap, mem_ofKind]
  simp only [removes, List.contains_iff_mem, hnames, PrefixPlan.mem_remove, mem_outdatedNames, Feature.records,
    List.mem_map]
  constructor
  · rintro ⟨_, ⟨⟨f, hf, _, ⟨name, hname, rfl⟩, ps, hps, rfl⟩, hkind⟩, lost, hlost, hspares, hspelled⟩
    obtain ⟨hknown, hwanted⟩ := Feature.mem_planned_snd.1 ⟨ps, hps, hlost⟩
    exact ⟨f, hf, name, hname, hkind, lost, hknown, hwanted, hspares, hspelled⟩
  · rintro ⟨f, hf, name, hname, hkind, lost, hknown, hwanted, hspares, hspelled⟩
    obtain ⟨ps, hps, hlost⟩ := Feature.mem_planned_snd.2 ⟨hknown, hwanted⟩
    exact ⟨_, ⟨⟨f, hf, _, ⟨name, hname, rfl⟩, ps, hps, rfl⟩, hkind⟩, lost, hlost, hspares, hspelled⟩

/-- The names of planned prefixes are those that are needed. -/
theorem exists_planned_iff : (∃ v ∈ (compile table selection options).properties, ∃ planned ∈ v.prefixes,
    spelled = v.dialect.prefixed v.name planned) ↔ table.Needs selection options spelled := by
  constructor
  · rintro ⟨v, hv, planned, hplanned, rfl⟩
    obtain ⟨f, hf, name, hname, hkind, _, rfl⟩ := mem_properties.1 hv
    exact ⟨f, hf, name, hname, hkind, planned, hplanned, rfl⟩
  · rintro ⟨f, hf, name, hname, hkind, planned, hplanned, rfl⟩
    have hne : f.wanted selection options ≠ [] := by
      intro hnil
      rw [hnil, PropertyDialect.written_nil] at hplanned
      cases hplanned
    exact ⟨_, mem_properties.2 ⟨f, hf, name, hname, hkind, hne, rfl⟩, planned, hplanned, rfl⟩

/-- An outdated prefix has its name removed. -/
theorem removes_of_mem_known (hf : f ∈ table.features) (hname : name ∈ f.names) (hkind : f.kindOf name = .property)
    (hlost : lost ∈ f.known) (hwanted : lost ∉ f.wanted selection options) (halign : name ≠ "align-self")
    (hspelled : spelled ∈ (PropertyDialect.ofName name).outdated name lost) :
    (compile table selection options).removes spelled = true :=
  removes_iff.2 ⟨f, hf, name, hname, hkind, lost, hlost, hwanted, fun h => halign h.1, hspelled⟩

/-- Wrapping has one name in all drafts, so a note that is not wanted takes the name from all prefixes of its vendor. -/
theorem removes_of_vendorPart_eq (hf : f ∈ table.features) (hname : name ∈ f.names) (hkind : f.kindOf name = .property)
    (hdialect : PropertyDialect.ofName name ∈ [.flexWrap, .flexFlow])
    (hplanned : planned ∈ f.wanted selection options) (hlost : lost ∈ f.known)
    (hwanted : lost ∉ f.wanted selection options) (hvendor : Vendor.vendorPart planned = Vendor.vendorPart lost) :
    table.Needs selection options (Vendor.vendorPart planned ++ name) ∧
      (compile table selection options).removes (Vendor.vendorPart planned ++ name) = true := by
  have halign : name ≠ "align-self" := by
    rintro rfl
    exact absurd hdialect (by decide)
  have hspelled : ∀ p, (PropertyDialect.ofName name).prefixed name p = Vendor.vendorPart p ++ name := by
    intro p
    rcases List.mem_pair.1 hdialect with h | h <;> rw [h] <;> exact FlexNames.prefixed_none name p
  have hwritten : planned ∈ (PropertyDialect.ofName name).written (f.wanted selection options) := by
    rcases List.mem_pair.1 hdialect with h | h <;> rw [h] <;> exact Text.mem_distinct.2 hplanned
  have hdirection : PropertyDialect.ofName name ≠ .flexDirection := by
    intro h
    exact absurd (h ▸ hdialect) (by decide)
  refine ⟨⟨f, hf, name, hname, hkind, planned, hwritten, (hspelled planned).symm⟩, ?_⟩
  refine removes_of_mem_known hf hname hkind hlost hwanted halign ?_
  rw [PropertyDialect.outdated_eq_singleton hdirection, List.mem_singleton, hspelled, hvendor]

/-- A prefix that is written as another one has the name of the other one, which may be outdated. -/
theorem removes_of_rewritten (hf : f ∈ table.features) (hname : name ∈ f.names) (hkind : f.kindOf name = .property)
    (hdialect : PropertyDialect.ofName name ∈ [.appearance, .backdropFilter, .backgroundClip])
    (hms : "-ms-".toList ∈ f.wanted selection options) (hknown : "-webkit-".toList ∈ f.known)
    (hwebkit : "-webkit-".toList ∉ f.wanted selection options) :
    table.Needs selection options ("-webkit-" ++ name) ∧
      (compile table selection options).removes ("-webkit-" ++ name) = true := by
  have halign : name ≠ "align-self" := by
    rintro rfl
    exact absurd hdialect (by decide)
  obtain ⟨hspelled, hwritten, hdirection⟩ :
      (PropertyDialect.ofName name).prefixed name "-webkit-" = "-webkit-" ++ name ∧
        "-webkit-".toList ∈ (PropertyDialect.ofName name).written (f.wanted selection options) ∧
        PropertyDialect.ofName name ≠ .flexDirection := by
    have hmem : "-webkit-".toList ∈ (f.wanted selection options).map (renamed [("-ms-", "-webkit-")]) :=
      List.mem_map.2 ⟨_, hms, by decide⟩
    simp only [List.mem_cons, List.not_mem_nil, or_false] at hdialect
    rcases hdialect with h | h | h <;> rw [h] <;> exact ⟨rfl, Text.mem_distinct.2 hmem, by decide⟩
  refine ⟨⟨f, hf, name, hname, hkind, _, hwritten, hspelled.symm⟩, ?_⟩
  refine removes_of_mem_known hf hname hkind hknown hwebkit halign ?_
  rw [PropertyDialect.outdated_eq_singleton hdirection, List.mem_singleton, hspelled]

/-- A browser with the draft of 2009 and a later one with the final draft. -/
def wrapFeature : Feature where
  name := "flexbox"
  names := ["flex-wrap"]
  support := [⟨⟨"chrome", "20"⟩, "-webkit-", some "2009"⟩, ⟨⟨"chrome", "21"⟩, "-webkit-", none⟩]
  props := none
  mistakes := []
  selector := false

/-- The later one. -/
def wrapSelection : Selection where
  agents := default
  targets := [⟨"chrome", "21"⟩]
  vendors := ["-webkit-"]

example : (compile ⟨[wrapFeature], []⟩ wrapSelection {}).removes "-webkit-flex-wrap" = true := by
  have hplanned : "-webkit-".toList ∈ wrapFeature.wanted wrapSelection {} := Feature.mem_wanted.2 (by decide)
  have hlost : "-webkit- 2009".toList ∈ wrapFeature.known := by decide
  have hwanted : "-webkit- 2009".toList ∉ wrapFeature.wanted wrapSelection {} := by
    rw [Feature.mem_wanted]
    decide
  exact (removes_of_vendorPart_eq List.mem_cons_self List.mem_cons_self rfl (by decide) hplanned hlost hwanted rfl).2

/-! ## Prefixes that do not -/

/-- Plain names that are listed once are safe, where each prefix is that of a vendor. -/
theorem removes_eq_false_of_plain
    (hplain : ∀ f ∈ table.features, ∀ name ∈ f.names, f.kindOf name = .property → PropertyDialect.ofName name = .plain)
    (hunique : ∀ f ∈ table.features, ∀ g ∈ table.features, ∀ name ∈ f.names, name ∈ g.names → f = g)
    (hvendor : ∀ f ∈ table.features, ∀ planned ∈ f.known, Vendor.IsVendor planned)
    (hneeds : table.Needs selection options spelled) : (compile table selection options).removes spelled = false := by
  rw [Bool.eq_false_iff, ne_eq, removes_iff]
  rintro ⟨g, hg, other, hother, hkind', lost, hlost, hwanted, _, h⟩
  obtain ⟨f, hf, name, hname, hkind, planned, hplanned, rfl⟩ := hneeds
  rw [hplain f hf name hname hkind] at hplanned h
  rw [hplain g hg other hother hkind', PropertyDialect.outdated_eq_singleton (by decide), List.mem_singleton] at h
  have hspelled : planned ++ name = lost ++ other := h
  have hplanned : planned ∈ f.wanted selection options := Text.mem_distinct.1 hplanned
  have hknown := f.wanted_subset_known selection options hplanned
  obtain rfl : planned = lost := by
    rw [← (hvendor f hf planned hknown).ofName_append name, hspelled, (hvendor g hg lost hlost).ofName_append other]
  obtain rfl : name = other := List.append_cancel_left hspelled
  obtain rfl := hunique f hf g hg name hname hother
  exact hwanted hplanned

end Rules

end VendorCss
