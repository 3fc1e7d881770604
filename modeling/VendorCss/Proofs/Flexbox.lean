import VendorCss.Proofs.Bundled
import VendorCss.Proofs.FlexNames
import VendorCss.Proofs.RunBounds
import VendorCss.Proofs.Text.Respelling

/-!
# Flexbox left alone

The options may rule out prefixed spellings of flexbox, or those of its draft of 2009. Adding honours that in all places
that it writes to (`Prefixer.honours_flexbox`), with these exceptions:

* without the draft of 2009, `-moz-` is written all the same: it had no other draft;
* with flexbox off, lists of transitions name `align-items`, and `@supports` tests `align-self`, with their prefixes.

A rule is copied as it stands, so what the author wrote in a ruled out spelling may come again.
-/

namespace VendorCss

/-! ## Spellings that are ruled out -/

namespace FlexboxMode

variable {mode : FlexboxMode} {prop planned vendor spelled value : Text}

/-- The names that a mode rules out behind a prefix. -/
def rulesOut (mode : FlexboxMode) (name : Text) : Bool :=
  match mode with
  | .all => false
  | .no2009 => Flexbox.names2009.contains name
  | .off => Flexbox.isName name

/-- The values of `display` that a mode rules out behind a prefix. -/
def displays : FlexboxMode → List Text
  | .all => []
  | .no2009 => ["box", "inline-box"]
  | .off => ["box", "inline-box", "flexbox", "inline-flexbox", "flex", "inline-flex"]

/-- A property is a prefixed spelling that a mode rules out. -/
def RulesOutName (mode : FlexboxMode) (prop : Text) : Prop :=
  Vendor.ofName prop ≠ [] ∧ mode.rulesOut (Vendor.unprefixed prop) = true

/-- So is a value of `display`. -/
def RulesOutDisplay (mode : FlexboxMode) (value : Text) : Prop :=
  ∃ vendor ∈ Vendor.known, ∃ name ∈ mode.displays, value = vendor ++ name

/-- A declaration is in a spelling that a mode rules out. -/
def RulesOut (mode : FlexboxMode) (prop value : Text) : Prop :=
  mode.RulesOutName prop ∨ prop = "display" ∧ mode.RulesOutDisplay value

/-- Without the draft of 2009, `-moz-` still has it. -/
def Tolerates (mode : FlexboxMode) (prop value : Text) : Prop :=
  mode = .no2009 ∧ (Vendor.ofName prop = "-moz-" ∨ prop = "display" ∧ Vendor.ofName value = "-moz-")

theorem not_rulesOutName (h : Vendor.ofName prop = []) : ¬mode.RulesOutName prop := fun hout => hout.1 h

theorem rulesOut_eq_false_of_start {name : Text} (h : name.take 3 ∉ Flexbox.starts) : mode.rulesOut name = false := by
  rw [← Bool.not_eq_true]
  intro hout
  cases mode with
  | all => cases hout
  | no2009 => exact h (Flexbox.start_of_names2009 (List.contains_iff_mem.1 hout) ▸ by decide)
  | off => exact h (Flexbox.start_of_isName hout)

/-- What is ruled out belongs to flexbox. -/
theorem isName_of_rulesOut {name : Text} (h : mode.rulesOut name = true) : Flexbox.isName name = true := by
  have hnames : ∀ name ∈ Flexbox.names2009, Flexbox.isName name = true := by
    simp only [Flexbox.isName, PropertyDialect.ofName, PropertyDialect.names_eq_spelled]
    decide +kernel
  cases mode with
  | all => cases h
  | no2009 => exact hnames name (List.contains_iff_mem.1 h)
  | off => exact h

/-- A prefix before a name that is not of flexbox makes none. -/
theorem not_rulesOutName_append (h : Vendor.IsVendor vendor) (hplanned : Vendor.IsFor planned vendor)
    (hprop : prop.take 3 ∉ Flexbox.starts) : ¬mode.RulesOutName (planned ++ prop) := by
  rintro ⟨_, hout⟩
  have hstart : (Vendor.unprefixed (planned ++ prop)).take 3 ∉ Flexbox.starts := by
    rcases PropertyDialect.eq_or_start_append h hplanned (.inr hprop) with heq | hstart
    · rwa [heq]
    · exact hstart
  rw [rulesOut_eq_false_of_start hstart] at hout
  cases hout

/-- A dialect writes no name that is ruled out, but for a property of flexbox, or for `-moz-` in place of the draft of
2009. -/
theorem rulesOutName_of_writes (h : Vendor.IsVendor vendor) (hplanned : Vendor.IsFor planned vendor)
    (hno2009 : mode = .no2009 → Text.contains planned "2009" = false) (hbox : prop ∉ CapabilityTable.boxNames)
    (hgrid : (PropertyDialect.ofName prop).writesGrid = true →
      PropertyDialect.ofName prop = .placeSelf ∨ spelled = (PropertyDialect.ofName prop).prefixed prop planned)
    (hwrites : (PropertyDialect.ofName prop).Writes prop planned spelled) (hout : mode.RulesOutName spelled) :
    mode = .off ∧ Flexbox.isName prop = true ∨ mode = .no2009 ∧ Vendor.ofName spelled = "-moz-" := by
  by_cases hname : Flexbox.isName prop = true
  · cases mode with
    | all => cases hout.2
    | off => exact .inl ⟨rfl, hname⟩
    | no2009 =>
      right
      have hspelled : Vendor.unprefixed spelled ∈ Flexbox.names2009 := List.contains_iff_mem.1 hout.2
      have hnames : Flexbox.names2009 ⊆ CapabilityTable.boxNames := by decide +kernel
      rcases PropertyDialect.draft_of_writes h hplanned hname hwrites hspelled with hprop | hdraft
      · exact absurd (hnames hprop) hbox
      · obtain rfl := FlexDraft.vendor_of_year2009 h hplanned (hno2009 rfl) hdraft
        refine ⟨rfl, (PropertyDialect.ofName_of_writes h hplanned (.inl rfl) hwrites).resolve_right ?_⟩
        rintro rfl
        exact hout.1 (by decide)
  · -- the name is that of the property, or begins in another way
    rw [Bool.not_eq_true] at hname
    rcases PropertyDialect.eq_or_start_of_writes h hplanned hname hgrid hwrites with heq | hstart
    · have hprop := isName_of_rulesOut hout.2
      rw [heq, hname] at hprop
      cases hprop
    · have hno := hout.2
      rw [rulesOut_eq_false_of_start hstart] at hno
      cases hno

end FlexboxMode

/-- The names of flexbox in use. -/
theorem Flexbox.eq_of_isName {name : Text} (h : isName name = true) (hbox : name ∉ CapabilityTable.boxNames) :
    name.contains "flex" = true ∨
      name ∈ (["order", "justify-content", "align-items", "align-self", "align-content"] : List Text) := by
  have hall : ∀ d ∈ dialects, ∀ name ∈ d.family, name ∈ CapabilityTable.boxNames ∨ name.contains "flex" = true ∨
      name ∈ (["order", "justify-content", "align-items", "align-self", "align-content"] : List Text) := by
    intro d
    rw [d.spelledFamily.2]
    revert d
    decide +kernel
  have hdialect : PropertyDialect.ofName name ∈ dialects := List.contains_iff_mem.1 h
  rcases PropertyDialect.mem_family_ofName name with hplain | hmem
  · rw [hplain] at hdialect
    exact absurd hdialect (by decide)
  · exact (hall _ hdialect name hmem).resolve_left hbox

/-! ## Values of `display` -/

namespace ValueDialect

variable {dialect : ValueDialect} {token planned value spelled : Text}

/-- What every step keeps is kept by the spelling. -/
theorem keeps_of_spell? {P : Text → Prop} (h : dialect.spell? token planned value = some spelled)
    (hstep : ∀ value next, dialect.step? token planned value = some next → P value → P next) (hvalue : P value) :
    P spelled := by
  refine spell?.partial_correctness dialect token planned (fun value spelled => P value → P spelled) ?_ _ _ h hvalue
  intro spell ih value spelled h hvalue
  split at h
  · cases h
  · rename_i next hnext
    split at h
    · cases h
      exact hvalue
    · exact ih next spelled h (hstep value next hnext hvalue)

/-- A value of flexbox is spelled by its name for the prefix. -/
theorem displayName?_of_spell? (h : displayFlex.spell? token planned value = some spelled) :
    Flexbox.displayName? token planned = some spelled := by
  refine spell?.partial_correctness displayFlex token planned
    (fun _ spelled => Flexbox.displayName? token planned = some spelled) ?_ _ _ h
  intro spell ih value spelled h
  split at h
  · cases h
  · rename_i next hnext
    split at h
    · rename_i heq
      cases h
      exact hnext.trans (congrArg some heq)
    · exact ih next spelled h

/-- A prefix before a word takes no character away. -/
theorem subset_of_spell? (hdialect : dialect = plain ∨ dialect = displayGrid) (htoken : token ≠ [])
    (hplanned : '$' ∉ planned) (h : dialect.spell? token planned value = some spelled) : value ⊆ spelled := by
  refine keeps_of_spell? (P := (value ⊆ ·)) h (fun old next hstep hold => List.Subset.trans hold ?_)
    (List.Subset.refl _)
  have hnext : next = (WordPattern.word token).substitute (placeTemplate none planned) old := by
    rcases hdialect with rfl | rfl <;> exact (Option.some.inj hstep).symm
  rw [hnext]
  exact (WordPattern.respelled_substitute (p := .word token) htoken (expand_placeTemplate hplanned (by simp)) old).subset
    fun w => List.subset_append_right planned w

end ValueDialect

namespace Flexbox

/-- A value with a letter that no value of flexbox has, such as one with a `calc` or a `grid`. -/
def IsOther (value : Text) : Prop := 'c' ∈ value ∨ 'g' ∈ value

/-- The tokens that are looked for in `display`. -/
def displayTokens : List (ValueDialect × Text) :=
  [(.plain, "calc"), (.displayFlex, "flex"), (.displayFlex, "inline-flex"), (.displayGrid, "grid"),
   (.displayGrid, "inline-grid")]

end Flexbox

namespace FlexboxMode

open Flexbox

variable {mode : FlexboxMode} {vendor planned token value spelled : Text}

theorem not_isOther_of_rulesOutDisplay (h : mode.RulesOutDisplay value) : ¬IsOther value := by
  have hall : ∀ mode ∈ [all, no2009, off], ∀ vendor ∈ Vendor.known, ∀ name ∈ mode.displays,
      ¬('c' ∈ vendor ++ name ∨ 'g' ∈ vendor ++ name) := by decide
  obtain ⟨vendor, hvendor, name, hname, rfl⟩ := h
  exact hall mode (by cases mode <;> decide) vendor hvendor name hname

/-- A value of `display` that is spelled is no value of flexbox before and after, or it is not ruled out. -/
def SpellsDisplay (mode : FlexboxMode) (value spelled : Text) : Prop :=
  IsOther value ∧ IsOther spelled ∨ ¬IsOther value ∧ spelled ∉ (["flex", "inline-flex"] : List Text) ∧
    (mode.RulesOutDisplay spelled → mode.Tolerates "display" spelled)

/-- The name of a value of flexbox for a planned prefix is not ruled out, unless flexbox is off. -/
theorem spellsDisplay_of_displayName? (hmode : mode ≠ .off) (h : Vendor.IsVendor vendor)
    (hplanned : Vendor.IsFor planned vendor) (hno2009 : mode = .no2009 → Text.contains planned "2009" = false)
    (htoken : token ∈ (["flex", "inline-flex"] : List Text)) (hspelled : displayName? token planned = some spelled) :
    mode.SpellsDisplay token spelled := by
  have hothers : ∀ token ∈ (["flex", "inline-flex"] : List Text), ¬('c' ∈ token ∨ 'g' ∈ token) := by decide
  obtain ⟨draft, hdraft, rfl⟩ := Option.map_eq_some_iff.1 hspelled
  rw [hplanned.vendorPart h]
  refine .inr ⟨hothers token htoken, fun hmem => ?_, fun ⟨other, hother, name, hname, heq⟩ => ?_⟩
  · have hnone : ∀ t ∈ (["flex", "inline-flex"] : List Text), Vendor.ofName t = [] := by decide
    exact h.ne_nil ((h.ofName_append _).symm.trans (hnone _ hmem))
  · have hvendor : Vendor.IsVendor other := Vendor.isVendor_of_known hother
    obtain rfl : vendor = other := by
      rw [← h.ofName_append, heq, hvendor.ofName_append]
    have hname' := List.append_cancel_left heq
    cases mode with
    | all => cases hname
    | off => exact absurd rfl hmode
    | no2009 =>
      cases draft with
      | year2009 =>
        obtain rfl := FlexDraft.vendor_of_year2009 h hplanned (hno2009 rfl) hdraft
        exact ⟨rfl, .inr ⟨rfl, h.ofName_append _⟩⟩
      | year2012 =>
        exfalso
        rw [← hname'] at hname
        revert hname
        dsimp only
        split <;> decide
      | final =>
        have hno : ∀ t ∈ (["flex", "inline-flex"] : List Text), t ∉ (["box", "inline-box"] : List Text) := by decide
        rw [← hname'] at hname
        exact absurd hname (hno token htoken)

/-- So it is with all tokens that are looked for in `display`, also where a value has been spelled before. -/
theorem spellsDisplay_of_spell? {d : Declaration} {dialect : ValueDialect} {known : Text}
    (hdisplay : (dialect, token) ∈ displayTokens)
    (hoff : mode = .off → d.value ∉ (["flex", "inline-flex"] : List Text)) (h : Vendor.IsVendor vendor)
    (hplanned : Vendor.IsFor planned vendor) (hdollar : '$' ∉ planned)
    (hno2009 : mode = .no2009 → Text.contains planned "2009" = false) (haccepts : dialect.accepts token d = true)
    (hknown : known = d.value ∨ mode.SpellsDisplay d.value known)
    (hspelled : dialect.spell? token planned known = some spelled) : mode.SpellsDisplay d.value spelled := by
  -- what prefixes come before keeps its letters
  have hother : IsOther d.value → dialect = .plain ∨ dialect = .displayGrid → token ≠ [] →
      mode.SpellsDisplay d.value spelled := by
    intro hvalue hdialect htoken
    have hsubset := ValueDialect.subset_of_spell? hdialect htoken hdollar hspelled
    have hisOther : IsOther known := by
      rcases hknown with rfl | ⟨_, hknown⟩ | ⟨hno, _⟩
      · exact hvalue
      · exact hknown
      · exact absurd hvalue hno
    exact .inl ⟨hvalue, hisOther.imp (hsubset ·) (hsubset ·)⟩
  have hvalue : dialect = .displayFlex ∨ dialect = .displayGrid → d.value = token := by
    rintro (rfl | rfl) <;> exact of_decide_eq_true (Bool.and_eq_true_iff.1 haccepts).2
  simp only [displayTokens, List.mem_cons, Prod.mk.injEq, List.not_mem_nil, or_false] at hdisplay
  rcases hdisplay with ⟨rfl, rfl⟩ | ⟨rfl, htoken⟩ | ⟨rfl, htoken⟩ | ⟨rfl, rfl⟩ | ⟨rfl, rfl⟩
  · have hcalc : ("calc" : Text) <:+: d.value := Text.contains_iff.1 (Bool.and_eq_true_iff.1 haccepts).1
    exact hother (.inl (hcalc.subset (by decide))) (.inl rfl) (by decide)
  · have hmem : token ∈ (["flex", "inline-flex"] : List Text) := by simp [htoken]
    rw [hvalue (.inl rfl)] at hoff ⊢
    exact spellsDisplay_of_displayName? (fun heq => hoff heq hmem) h hplanned hno2009 hmem
      (ValueDialect.displayName?_of_spell? hspelled)
  · have hmem : token ∈ (["flex", "inline-flex"] : List Text) := by simp [htoken]
    rw [hvalue (.inl rfl)] at hoff ⊢
    exact spellsDisplay_of_displayName? (fun heq => hoff heq hmem) h hplanned hno2009 hmem
      (ValueDialect.displayName?_of_spell? hspelled)
  · exact hother (.inr (by rw [hvalue (.inr rfl)]; decide)) (.inr rfl) (by decide)
  · exact hother (.inr (by rw [hvalue (.inr rfl)]; decide)) (.inr rfl) (by decide)

end FlexboxMode

namespace Rules

variable {agents : AgentTable} {table : CapabilityTable} {selection : Selection} {options : Options}

/-- The tokens that the bundled table has for `display`. -/
theorem displayTokens_of_mem (hagents : AgentTable.bundled = .ok agents)
    (htable : CapabilityTable.bundled agents = .ok table) {v : ValueVariants}
    (hv : v ∈ (compile table selection options).valuesFor "display") :
    (v.dialect, v.token) ∈ Flexbox.displayTokens ∧ ∀ planned ∈ v.prefixes, '$' ∉ planned := by
  have hall : ∀ e ∈ CapabilityTable.bundledEntries, ("*" : Text) ∈ e.props.getD [] ∨ ("display" : Text) ∈ e.props.getD [] →
      (∀ name ∈ e.names, (ValueDialect.ofName name, (ValueDialect.ofName name).token name) ∈ Flexbox.displayTokens) ∧
        ∀ planned ∈ e.plannable, '$' ∉ planned := by
    rw [CapabilityTable.spelledEntries.2]
    decide +kernel
  obtain ⟨f, hf, name, hname, _, _, rfl⟩ := mem_values.1 (mem_of_mem_applying hv)
  have hprops := mem_props_of_mem_applying hv
  obtain ⟨e, he, hnames, hfprops, _, hplannable⟩ :=
    @CapabilityTable.mem_plannable agents table selection options hagents htable f hf
  rw [hfprops] at hprops
  rw [hnames] at hname
  obtain ⟨htokens, hdollar⟩ := hall e he hprops
  exact ⟨htokens name hname, fun planned hplanned => hdollar planned (hplannable planned hplanned)⟩

end Rules

/-! ## Bounds for flexbox -/

namespace FlexboxMode

variable {mode : FlexboxMode} {authored : Declaration → Prop} {prop : Text} {d : Declaration}

/-- A declaration is in no spelling that is ruled out, or it is a copy of what was there before. -/
structure Keeps (mode : FlexboxMode) (authored : Declaration → Prop) (d : Declaration) : Prop where
  display : d.prop = "display" → ∃ d', authored d' ∧ d'.prop = "display"
  name : mode.RulesOutName d.prop → mode.Tolerates d.prop d.value ∨ ∃ d', authored d' ∧ d'.prop = d.prop
  value : d.prop = "display" → d.value ∈ (["flex", "inline-flex"] : List Text) ∨ mode.RulesOutDisplay d.value →
    mode.Tolerates d.prop d.value ∨ ∃ d', authored d' ∧ d'.prop = d.prop ∧ d'.value = d.value

theorem Keeps.of_authored (h : authored d) : mode.Keeps authored d :=
  ⟨fun hprop => ⟨d, h, hprop⟩, fun _ => .inr ⟨d, h, rfl⟩, fun _ _ => .inr ⟨d, h, rfl, rfl⟩⟩

/-- The declarations that a mode and the author allow, and the values of `display`. -/
def bounds (mode : FlexboxMode) (authored : Declaration → Prop) : Bounds where
  declares := mode.Keeps authored
  selects _ := True
  spells d spelled := d.prop = "display" → mode.SpellsDisplay d.value spelled
  grids := False
  spells_setValue d _ _ hfree _ hdisplay := by
    have hno : Node.hasFreeValue "display" = false := by decide
    rw [hdisplay, hno] at hfree
    cases hfree

/-- A property other than `display` may be written where it is not ruled out, or is for `-moz-`. -/
theorem names_bounds (hdisplay : prop ≠ "display")
    (h : mode.RulesOutName prop → mode = .no2009 ∧ Vendor.ofName prop = "-moz-") :
    (mode.bounds authored).Names prop := fun _ =>
  ⟨fun heq => absurd heq hdisplay, fun hout => .inl ⟨(h hout).1, .inl (h hout).2⟩, fun heq => absurd heq hdisplay⟩

theorem names_bounds_append {vendor planned : Text} (h : Vendor.IsVendor vendor)
    (hplanned : Vendor.IsFor planned vendor) (hprop : prop.take 3 ∉ Flexbox.starts) :
    (mode.bounds authored).Names (planned ++ prop) := by
  refine names_bounds (fun heq => h.ne_nil ?_) fun hout => absurd hout (not_rulesOutName_append h hplanned hprop)
  rw [← hplanned.ofName_append h prop, heq]
  decide

/-- Saving a spelled value keeps what is allowed. -/
theorem allowsSaving_bounds : (mode.bounds authored).AllowsSaving := by
  have hothers : ∀ t ∈ (["flex", "inline-flex"] : List Text), ¬('c' ∈ t ∨ 'g' ∈ t) := by decide
  intro d spelled hd hspells
  refine ⟨hd.display, fun hout => ?_, fun hdisplay hspelled => .inl ?_⟩
  · refine (hd.name hout).imp_left fun htolerates => ⟨htolerates.1, .inl (htolerates.2.resolve_right ?_)⟩
    rintro ⟨hdisplay, _⟩
    rw [hdisplay] at hout
    exact not_rulesOutName (by decide) hout
  · rcases hspells hdisplay with ⟨_, hother⟩ | ⟨_, hno, htolerates⟩
    · rcases hspelled with hplain | hout
      · exact absurd hother (hothers _ hplain)
      · exact absurd hother (not_isOther_of_rulesOutDisplay hout)
    · rw [hdisplay]
      exact htolerates (hspelled.resolve_left hno)

end FlexboxMode

namespace Rules

open Vendor

variable {agents : AgentTable} {table : CapabilityTable} {selection : Selection} {options : Options}
variable {authored : Declaration → Prop} {name : Text}

/-- The properties of the bundled table have their names in use, without a vendor. -/
theorem name_of_property? (htable : CapabilityTable.bundled agents = .ok table) {v : PropertyVariants}
    (hv : (compile table selection options).property? name = some v) :
    name ∉ CapabilityTable.boxNames ∧ name.head? ≠ some '-' := by
  obtain ⟨hmem, hname, _⟩ := eq_of_property? hv
  obtain ⟨f, hf, other, hmem', _, _, rfl⟩ := mem_properties.1 hmem
  obtain rfl : other = name := hname
  exact CapabilityTable.names_bundled htable hf hmem'

/-- Where the draft of 2009 is ruled out, no prefix of a property has its note. -/
theorem no2009_of_mem_prefixes {v : PropertyVariants} (hv : v ∈ (compile table selection options).properties)
    {planned : Text} (hplanned : planned ∈ v.prefixes) (hmode : options.flexbox = .no2009) :
    Text.contains planned "2009" = false := by
  obtain ⟨f, _, name, _, _, _, rfl⟩ := mem_properties.1 hv
  rcases mem_written hplanned with hwanted | rfl
  · exact (Feature.mem_wanted.1 hwanted).2 hmode
  · decide

/-- What a dialect writes is allowed, for a property that is not of flexbox where this is off. -/
theorem names_of_writes (hagents : AgentTable.bundled = .ok agents)
    (htable : CapabilityTable.bundled agents = .ok table) {v : PropertyVariants}
    (hv : (compile table selection options).property? name = some v)
    (hoff : options.flexbox = .off → Flexbox.isName name = false)
    (hgrid : (PropertyDialect.ofName name).writesGrid = true → PropertyDialect.ofName name = .placeSelf)
    {planned spelled : Text} (hplanned : planned ∈ v.prefixes) (hwrites : v.dialect.Writes name planned spelled) :
    (options.flexbox.bounds authored).Names spelled := by
  obtain ⟨hmem, _, hdialect⟩ := eq_of_property? hv
  rw [hdialect] at hwrites
  obtain ⟨vendor, hvendor, hfor⟩ :=
    isFor_of_mem_properties (fun f hf s hs => isVendor_of_known (CapabilityTable.vendor_mem_known hagents htable hf hs)) hmem hplanned
  refine FlexboxMode.names_bounds ?_ fun hout => ?_
  · rintro rfl
    have hnames := PropertyDialect.ofName_of_writes hvendor hfor (.inl rfl) hwrites
    rcases hnames with hnil | hcolor
    · exact hvendor.ne_nil (hnil.symm.trans (by decide))
    · exact absurd hcolor (by decide)
  · refine (FlexboxMode.rulesOutName_of_writes hvendor hfor (no2009_of_mem_prefixes hmem hplanned)
      (name_of_property? htable hv).1 (fun hgrids => .inl (hgrid hgrids)) hwrites hout).resolve_left ?_
    rintro ⟨hmode, hname⟩
    rw [hoff hmode] at hname
    cases hname

/-- A spelled value is allowed, for one that is not of flexbox where this is off. -/
theorem allowsSpelling_bounds (hagents : AgentTable.bundled = .ok agents)
    (htable : CapabilityTable.bundled agents = .ok table) {v : ValueVariants} {d : Declaration}
    (hv : v ∈ (compile table selection options).values)
    (hdisplay : d.prop = "display" → v ∈ (compile table selection options).valuesFor "display")
    (hoff : options.flexbox = .off → d.prop = "display" → d.value ∉ (["flex", "inline-flex"] : List Text)) :
    (options.flexbox.bounds authored).AllowsSpelling (compile table selection options) v d := by
  intro haccepts planned hplanned
  obtain ⟨vendor, hvendor, hfor⟩ :=
    isFor_of_mem_values (fun f hf s hs => isVendor_of_known (CapabilityTable.vendor_mem_known hagents htable hf hs)) hv hplanned
  refine ⟨?_, fun _ _ known hknown value hvalue hprop => ?_⟩
  · rintro rfl
    rcases hfor with heq | ⟨note, heq⟩
    · exact hvendor.ne_nil heq.symm
    · exact hvendor.ne_nil (List.append_eq_nil_iff.1 heq.symm).1
  · obtain ⟨htokens, hdollar⟩ := displayTokens_of_mem hagents htable (hdisplay hprop)
    have hno2009 : options.flexbox = .no2009 → Text.contains planned "2009" = false := by
      obtain ⟨f, _, _, _, _, _, rfl⟩ := mem_values.1 hv
      exact (Feature.mem_wanted.1 hplanned).2
    exact FlexboxMode.spellsDisplay_of_spell? htokens (fun hmode => hoff hmode hprop) hvendor hfor
      (hdollar planned hplanned) hno2009 haccepts (hknown.imp_right fun h => h hprop) hvalue

/-- The names of flexbox that are left to other tests than the first one. -/
theorem isName_eq_false_of_not_isFlexProperty (htable : CapabilityTable.bundled agents = .ok table)
    {v : PropertyVariants} (hv : (compile table selection options).property? name = some v)
    (hflex : Pass.isFlexProperty name = false) (halign : name ≠ "align-self") : Flexbox.isName name = false := by
  rw [← Bool.not_eq_true]
  intro hname
  have hlist : name ∈ (["order", "justify-content", "align-items", "align-self", "align-content"] : List Text) →
      Pass.isFlexProperty name = true ∨ name = "align-self" := by
    simp only [List.mem_cons, List.not_mem_nil, or_false]
    rintro (rfl | rfl | rfl | rfl | rfl) <;> decide
  rcases Flexbox.eq_of_isName hname (name_of_property? htable hv).1 with hcontains | hother
  · rw [Pass.isFlexProperty, hcontains] at hflex
    cases hflex
  · rcases hlist hother with h | h
    · rw [h] at hflex
      cases hflex
    · exact halign h

/-- A property that is not of grid writes no names of grid, but those for `place-self`. -/
theorem writesGrid_of_not_isGridProperty (h : Pass.isGridProperty name = false) :
    (PropertyDialect.ofName name).writesGrid = true → PropertyDialect.ofName name = .placeSelf := by
  have hall : ∀ d ∈ PropertyDialect.all, d.writesGrid = true → d ≠ .placeSelf →
      ∀ name ∈ d.family, Pass.isGridProperty name = true := by
    intro d
    rw [d.spelledFamily.2]
    revert d
    decide +kernel
  have hmem := PropertyDialect.mem_family_ofName name
  generalize PropertyDialect.ofName name = dialect at hmem
  intro hwrites
  by_contra hne
  have hfamily : name ∈ dialect.family := hmem.resolve_left fun hplain => by
    rw [hplain] at hwrites
    cases hwrites
  have hgrid := hall dialect (by cases dialect <;> first | decide | cases hwrites) hwrites hne name hfamily
  rw [h] at hgrid
  cases hgrid

theorem allowsNames_bounds (hagents : AgentTable.bundled = .ok agents)
    (htable : CapabilityTable.bundled agents = .ok table) (hselection : ∀ v ∈ selection.vendors, v ∈ Vendor.known) :
    (options.flexbox.bounds authored).AllowsNames (compile table selection options) where
  cells := fun _ _ _ => trivial
  names := by
    intro prop name v hhandles hv planned hplanned spelled hwrites
    obtain ⟨_, _, hdialect⟩ := eq_of_property? hv
    cases hhandles with
    | own hflex halign hgrid =>
      refine names_of_writes hagents htable hv (fun hoff => ?_)
        (writesGrid_of_not_isGridProperty (hgrid not_false).1) hplanned hwrites
      refine isName_eq_false_of_not_isFlexProperty htable hv ?_ fun heq => halign heq hoff
      exact Bool.eq_false_iff.2 fun hname => hflex ⟨hoff, hname⟩
    | grid hgrids => exact hgrids.elim
  lists := by
    intro prop hprop
    have hall : ∀ p ∈ Transition.properties, p ≠ "display" ∧ Vendor.ofName p = [] := by decide
    obtain ⟨hdisplay, hnone⟩ := hall prop hprop
    exact FlexboxMode.names_bounds hdisplay fun hout => absurd hout (FlexboxMode.not_rulesOutName hnone)
  listsPlanned := by
    intro prop hprop v hv planned hplanned
    have hstart : ∀ p ∈ Transition.properties, p.take 3 ∉ Flexbox.starts := by decide
    obtain ⟨hmem, _, _⟩ := eq_of_property? hv
    obtain ⟨vendor, hvendor, hfor⟩ := isFor_of_mem_properties
      (fun f hf s hs => isVendor_of_known (CapabilityTable.vendor_mem_known hagents htable hf hs)) hmem hplanned
    exact FlexboxMode.names_bounds_append hvendor hfor (hstart prop hprop)
  listsSelected := by
    intro prop hprop vendor hvendor _ _ _
    have hstart : ∀ p ∈ Transition.properties, p.take 3 ∉ Flexbox.starts := by decide
    exact FlexboxMode.names_bounds_append (isVendor_of_known (hselection vendor hvendor)) (.inl rfl)
      (hstart prop hprop)

theorem allowsValues_bounds (hagents : AgentTable.bundled = .ok agents)
    (htable : CapabilityTable.bundled agents = .ok table) :
    (options.flexbox.bounds authored).AllowsValues (compile table selection options) where
  values := by
    intro d _ hspells v hv
    have hcontains : ∀ t ∈ (["flex", "inline-flex"] : List Text), t.contains "flex" = true := by decide
    refine allowsSpelling_bounds hagents htable (mem_of_mem_applying hv) (fun hdisplay => ?_)
      fun hoff hdisplay hmem => (hspells hdisplay).1 ⟨hoff, hcontains _ hmem⟩
    have hplain : PropertyDialect.ofName "display" = .plain := by
      rw [PropertyDialect.ofName, PropertyDialect.names_eq_spelled]
      decide
    rw [hdisplay, PropertyName.standard_of_plain hplain (by decide)] at hv
    exact hv
  saving := FlexboxMode.allowsSaving_bounds

end Rules

/-! ## Transitions -/

namespace Transition

variable {agents : AgentTable} {table : CapabilityTable} {selection : Selection} {options : Options}

/-- An entry that is added names a property anew, for a prefix that is not left alone. -/
theorem mem_additions {r : Rules} {vendors : Option (List Text)} {es : List Entry} {e : Entry}
    (h : e ∈ additions r vendors es) : ∃ old ∈ es, ∃ v, r.property? (propertyOf old) = some v ∧
      ∃ planned ∈ v.prefixes, leavesAlone r.options (propertyOf old) planned = false ∧
        e = rename (propertyOf old) (PropertyName.prefixed (propertyOf old) planned) old := by
  obtain ⟨old, hold, h⟩ := List.mem_flatMap.1 h
  obtain ⟨new, hnew, rfl⟩ := List.mem_map.1 h
  obtain ⟨planned, hplanned, rfl⟩ := List.mem_map.1 (List.mem_filter.1 hnew).1
  obtain ⟨hrule, hleaves⟩ := List.mem_filter.1 hplanned
  have hprefix := (List.mem_filter.1 hrule).1
  cases hv : r.property? (propertyOf old) with
  | none =>
    rw [hv] at hprefix
    cases hprefix
  | some v =>
    rw [hv] at hprefix
    exact ⟨old, hold, v, hv, planned, hprefix, Bool.not_eq_true' _ ▸ hleaves, rfl⟩

/-- The entries that are added name nothing that is ruled out, but `align-items` where flexbox is off, and names for
`-moz-` where the draft of 2009 is. -/
theorem exists_rename_of_mem_additions (hagents : AgentTable.bundled = .ok agents)
    (htable : CapabilityTable.bundled agents = .ok table) {vendors : Option (List Text)} {es : List Entry} {e : Entry}
    (h : e ∈ additions (Rules.compile table selection options) vendors es) :
    ∃ old ∈ es, ∃ new, e = rename (propertyOf old) new old ∧ (options.flexbox.RulesOutName new →
      options.flexbox = .off ∧ propertyOf old = "align-items" ∨
        options.flexbox = .no2009 ∧ Vendor.ofName new = "-moz-") := by
  obtain ⟨old, hold, v, hv, planned, hplanned, hleaves, rfl⟩ := mem_additions h
  refine ⟨old, hold, _, rfl, fun hout => ?_⟩
  generalize propertyOf old = name at hv hleaves hout
  obtain ⟨hmem, _, _⟩ := Rules.eq_of_property? hv
  obtain ⟨hbox, hdash⟩ := Rules.name_of_property? htable hv
  obtain ⟨vendor, hvendor, hfor⟩ := Rules.isFor_of_mem_properties
    (fun f hf s hs => Vendor.isVendor_of_known (CapabilityTable.vendor_mem_known hagents htable hf hs)) hmem hplanned
  have hunprefixed : Vendor.unprefixed name = name := by
    have hnone : Vendor.ofName name = [] := by
      unfold Vendor.ofName
      split
      · exact absurd rfl hdash
      · rfl
    rw [Vendor.unprefixed, hnone]
    rfl
  rw [PropertyName.prefixed, hunprefixed] at hout ⊢
  rcases FlexboxMode.rulesOutName_of_writes hvendor hfor (Rules.no2009_of_mem_prefixes hmem hplanned) hbox
    (fun _ => .inr rfl) .name hout with ⟨hoff, hname⟩ | hmoz
  · left
    refine ⟨hoff, ?_⟩
    have hleaves' : (name.contains "flex" || flexLike.contains name) = false := by
      simpa [leavesAlone, show (Rules.compile table selection options).options = options from rfl, hoff] using hleaves
    obtain ⟨hno, hlike⟩ := Bool.or_eq_false_iff.1 hleaves'
    have hothers : name ∈ (["order", "justify-content", "align-items", "align-self", "align-content"] : List Text) →
        flexLike.contains name = true ∨ name = "align-items" := by
      simp only [List.mem_cons, List.not_mem_nil, or_false]
      rintro (rfl | rfl | rfl | rfl | rfl) <;> decide
    rcases Flexbox.eq_of_isName hname hbox with hcontains | hother
    · rw [hno] at hcontains
      cases hcontains
    · refine (hothers hother).resolve_left ?_
      rw [hlike]
      exact Bool.false_ne_true
  · exact .inr hmoz

end Transition

/-! ## Conditions of `@supports` -/

namespace Supports

open FlexboxMode

variable {agents : AgentTable} {table : CapabilityTable} {selection : Selection} {options : Options}
variable {prop value : Text}

/-- A sheet with a rule that one declaration stands in. -/
theorem holds_insert (rule : Nat) : ((Sheet.parse ['a', '\x7b', '\x7d']).insert (.appended rule)
    (.declaration prop value)).2.Holds fun n =>
      (∀ d, n.declaration? = some d → d.prop = prop ∧ d.value = value) ∧ n.isGridSwitch = false := by
  have hparse : ∀ x ∈ (Sheet.parse ['a', '\x7b', '\x7d']).nodes,
      x.2.declaration? = none ∧ x.2.isGridSwitch = false := by decide
  refine (Sheet.edits_insert _ _ (fun _ => ⟨fun d hd => ?_, rfl⟩)
    ⟨Sheet.isNumbered_parse _, fun x hx => ⟨fun d hd => ?_, (hparse x hx).2⟩⟩).1
  · obtain rfl := Option.some.inj hd
    exact ⟨rfl, rfl⟩
  · rw [(hparse x hx).1] at hd
    cases hd

theorem of_isLeftAlone_eq_false (hgrid : options.grid = .off) (h : isLeftAlone options prop value = false) :
    Pass.isGridProperty prop = false ∧ (options.flexbox = .off →
      Pass.isFlexProperty prop = false ∧ ¬(prop = "display" ∧ value.contains "flex" = true)) := by
  simp only [isLeftAlone, hgrid, GridMode.isEnabled, Bool.not_false, Bool.true_and, Bool.or_eq_false_iff,
    Bool.and_eq_false_iff, decide_eq_false_iff_not] at h
  obtain ⟨⟨_, hprop⟩, hflex⟩ := h
  refine ⟨hprop, fun hoff => ?_⟩
  obtain ⟨hdisplay, hname⟩ := hflex.resolve_left (not_not.2 hoff)
  refine ⟨hname, fun hflex => ?_⟩
  rcases hdisplay with hne | hno
  · exact hne hflex.1
  · exact Bool.false_ne_true (hno.symm.trans hflex.2)

/-- The declarations that stand for a condition are in no spelling that is ruled out, but for the condition itself. -/
theorem keeps_of_mem_declarationsFor (hagents : AgentTable.bundled = .ok agents)
    (htable : CapabilityTable.bundled agents = .ok table) (hgrid : options.grid = .off)
    (hleft : isLeftAlone options prop value = false) (halign : options.flexbox = .off → prop ≠ "align-self")
    {alt : Text × Text} (h : alt ∈ declarationsFor (Rules.compile table selection options) prop value) :
    ∃ d, d.prop = alt.1 ∧ d.value = alt.2 ∧
      options.flexbox.Keeps (fun d => d.prop = prop ∧ d.value = value) d := by
  have hleft' := of_isLeftAlone_eq_false hgrid hleft
  unfold declarationsFor at h
  dsimp only at h
  split at h
  · obtain rfl := List.mem_singleton.1 h
    exact ⟨{ prop, value }, rfl, rfl, .of_authored ⟨rfl, rfl⟩⟩
  · rename_i rule _
    have hsheet := @holds_insert prop value rule
    generalize (Sheet.parse ['a', '\x7b', '\x7d']).insert (.appended rule) (.declaration prop value) = inserted
      at h hsheet
    obtain ⟨decl, sheet⟩ := inserted
    dsimp only at h hsheet
    let b : Bounds := options.flexbox.bounds fun d => d.prop = prop ∧ d.value = value
    let r := Rules.compile table selection options
    let p : Pass := { rules := r, sheet }
    have hp : p.Within b := by
      refine Pass.within_of_node? hsheet.numbered (fun id n hn => ?_) fun _ => hgrid
      obtain ⟨hdeclares, hswitch⟩ := hsheet.of_node? hn
      exact ⟨fun d hd => .of_authored (hdeclares d hd), fun _ _ => trivial, fun _ => hswitch⟩
    have hdecl : ∀ d, p.sheet.declaration? decl = some d → d.prop = prop := by
      intro d hd
      obtain ⟨n, hn, hd⟩ := Option.bind_eq_some_iff.1 hd
      exact ((hsheet.of_node? hn).1 d hd).1
    -- the copies of the declaration, and then those of its values
    have hcopies : p.Stays b (p.addVariantsOf decl prop) := by
      unfold Pass.addVariantsOf
      split
      · rename_i v hv
        refine PropertyVariants.process_stays (fun _ _ _ => trivial) p fun d hd planned hplanned name hwrites => ?_
        rw [hdecl d hd] at hwrites
        refine Rules.names_of_writes hagents htable hv (fun hoff => ?_)
          (Rules.writesGrid_of_not_isGridProperty hleft'.1) hplanned hwrites
        exact Rules.isName_eq_false_of_not_isFlexProperty htable hv (hleft'.2 hoff).1 (halign hoff)
      · exact .refl p
    generalize hp₁ : p.addVariantsOf decl prop = p₁ at hcopies
    have hvalues : p₁.Stays b ((p₁.sheet.childDeclarations rule).foldl (addValues prop) p₁) := by
      refine .foldl fun i _ q hq => q.addValues_stays prop allowsSaving_bounds fun d hd hdeclares v hv => ?_
      have hrules : q.rules = r := hq.trans (hcopies hp).rules
      rw [hrules] at hv ⊢
      refine Rules.allowsSpelling_bounds hagents htable (Rules.mem_of_mem_applying hv) (fun hdisplay => ?_)
        fun hoff hdisplay hflex => ?_
      · obtain ⟨d', ⟨hprop, _⟩, hdisplay'⟩ := hdeclares.display hdisplay
        rw [← hprop, hdisplay'] at hv
        exact hv
      · have hcontains : ∀ t ∈ (["flex", "inline-flex"] : List Text), t.contains "flex" = true := by decide
        rcases hdeclares.value hdisplay (.inl hflex) with ⟨hmode, _⟩ | ⟨d', ⟨rfl, rfl⟩, hprop, hvalue⟩
        · rw [hoff] at hmode
          cases hmode
        · refine (hleft'.2 hoff).2 ⟨hprop.trans hdisplay, ?_⟩
          rw [hvalue]
          exact hcontains _ hflex
    have hwithin := ((hcopies.trans hvalues) hp).within
    rw [← hp₁] at hwithin
    obtain ⟨⟨i, d⟩, hmem, rfl⟩ := List.mem_map.1 h
    obtain ⟨n, hn, hd⟩ := Sheet.exists_of_mem_childDeclarationsOf hmem
    exact ⟨d, rfl, rfl, (hwithin.sheet.nodes _ hn).declaration d hd⟩

/-- So it is with all alternatives of a condition, where `align-self` is kept apart. -/
theorem of_mem_alternatives (hagents : AgentTable.bundled = .ok agents)
    (htable : CapabilityTable.bundled agents = .ok table) (hgrid : options.grid = .off) {condition : Text}
    {alt : Text × Text} (h : alt ∈ alternatives (Rules.compile table selection options) condition)
    (hout : options.flexbox.RulesOut alt.1 alt.2) :
    options.flexbox.Tolerates alt.1 alt.2 ∨ options.flexbox = .off ∧ (declarationOf condition).1 = "align-self" ∨
      alt.1 = (declarationOf condition).1 ∧ (alt.1 = "display" → alt.2 = (declarationOf condition).2) := by
  unfold alternatives at h
  generalize declarationOf condition = pair at h ⊢
  obtain ⟨prop, value⟩ := pair
  dsimp only at h ⊢
  split at h
  · rw [List.mem_singleton.1 h]
    exact .inr (.inr ⟨rfl, fun _ => rfl⟩)
  · rename_i hleft
    by_cases halign : options.flexbox = .off ∧ prop = "align-self"
    · exact .inr (.inl halign)
    obtain ⟨d, hprop, hvalue, hkeeps⟩ := keeps_of_mem_declarationsFor hagents htable hgrid
      (Bool.eq_false_iff.2 hleft) (fun hoff heq => halign ⟨hoff, heq⟩) h
    rw [← hprop, ← hvalue] at hout ⊢
    rcases hout with hname | ⟨hdisplay, hspelled⟩
    · have hdisplay : d.prop ≠ "display" := by
        intro heq
        rw [heq] at hname
        exact not_rulesOutName (by decide) hname
      refine (hkeeps.name hname).imp_right fun ⟨d', ⟨hprop', _⟩, heq⟩ => .inr ⟨heq.symm.trans hprop', ?_⟩
      exact fun heq => absurd heq hdisplay
    · refine (hkeeps.value hdisplay (.inr hspelled)).imp_right fun ⟨d', ⟨hprop', hvalue'⟩, heq, heq'⟩ => .inr ?_
      exact ⟨heq.symm.trans hprop', fun _ => heq'.symm.trans hvalue'⟩

end Supports

/-! ## Runs -/

namespace Prefixer

open FlexboxMode

variable {agents : AgentTable} {table : CapabilityTable} {queries : List Text} {selection : Selection}
variable {options : Options} {sheet : Sheet}

/-- A run leaves no declaration in a spelling that is ruled out, unless it is a copy of one that was there. -/
theorem run_flexbox (hagents : AgentTable.bundled = .ok agents) (htable : CapabilityTable.bundled agents = .ok table)
    (hselection : Selection.ofQueries agents queries = .ok selection) (hs : sheet.IsNumbered)
    (hgrids : sheet.LeavesGrids options) {id : Nat} {d : Declaration}
    (hd : ((compile table selection options).run sheet).sheet.declaration? id = some d) :
    options.flexbox.Keeps (fun d => ∃ id, sheet.declaration? id = some d) d := by
  have hnodes : ∀ id n, sheet.node? id = some n →
      (options.flexbox.bounds fun d => ∃ id, sheet.declaration? id = some d).Allows n := fun id n hn => {
    declaration := fun d hd => .of_authored ⟨id, by rw [Sheet.declaration?, hn]; exact hd⟩
    selector := fun _ _ => trivial
    switch := fun _ => hgrids.switch hn }
  exact (run_within (compile table selection options) hs hnodes (fun _ => hgrids.1) (fun _ => True)
    (fun _ _ _ _ _ _ => trivial) (fun _ _ => trivial)
    (Rules.allowsNames_bounds hagents htable (Selection.vendors_bundled hagents hselection)) False.elim
    (Rules.allowsValues_bounds hagents htable)).declares hd

/-- A rule with two declarations of flexbox. -/
def flexSheet : Sheet := Sheet.parse "a\x7bflex:1;display:flex\x7d"

end Prefixer

end VendorCss
