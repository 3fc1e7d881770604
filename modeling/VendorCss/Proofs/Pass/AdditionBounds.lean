import VendorCss.Proofs.Pass.Addition
import VendorCss.Proofs.Pass.GridBounds

/-!
# Adding within bounds

What a handler may write is told by its prefixes and its dialect: the names of a property (`PropertyDialect.Writes`), the
values that a token is spelled into, the properties and the selectors of transitions. Where bounds allow all this
(`Bounds.AllowsNames`, `Bounds.AllowsValues`), adding stays within them (`addMissing_within`).

Bounds may tell apart by the vendor scope: a prefixed declaration gets values for its own vendor only, if that is one of
a browser.
-/

namespace VendorCss

/-! ## Names that a dialect writes -/

namespace PropertyDialect

/-- A name that a dialect writes for a property and a planned prefix. -/
inductive Writes (dialect : PropertyDialect) (prop planned : Text) : Text → Prop
  | name : Writes dialect prop planned (dialect.prefixed prop planned)
  | skip (h : dialect = textDecorationSkipInk) : Writes dialect prop planned (planned ++ "text-decoration-skip")
  /-- What the draft of 2009 had for the directions of a flexbox. -/
  | box {name : Text} (h : dialect = flexFlow ∨ dialect = flexDirection)
      (hdraft : FlexDraft.of? planned = some .year2009) (hname : name ∈ (["box-orient", "box-direction"] : List Text)) :
      Writes dialect prop planned (Vendor.vendorPart planned ++ name)
  | composite (h : dialect = maskComposite) : Writes dialect prop planned (planned ++ "mask-composite")
  /-- The first draft of grid had other properties. -/
  | grid {name : Text} (h : dialect.writesGrid = true) (hplanned : planned = "-ms-")
      (hname : dialect = placeSelf → name ∈ (["grid-row-align", "grid-column-align"] : List Text)) :
      Writes dialect prop planned ("-ms-" ++ name)

theorem writes_of_spell? {dialect : PropertyDialect} {d copy : Declaration} {planned : Text}
    (h : dialect.spell? d planned = some copy) : dialect.Writes d.prop planned copy.prop := by
  obtain ⟨value, _, rfl⟩ := Option.map_eq_some_iff.1 h
  dsimp only
  split
  · rename_i hskip
    simp only [Bool.and_eq_true, decide_eq_true_eq] at hskip
    exact .skip hskip.1.1
  · exact .name

end PropertyDialect

namespace Pass

variable {b : Bounds} {decl : Nat} {d : Declaration} {planned : Text}

/-! ## Copies of a declaration -/

theorem alignWithCopies_stays (p : Pass) {prop : Text} (h : p.Within b → p.WasGiven decl prop)
    (prefixes : List Text) : p.Stays b (p.alignWithCopies decl prefixes) := by
  unfold alignWithCopies
  have hrestore : p.Stays b (p.restoreIndentation decl) := p.stays_setBefore h _
  have hlearn : (p.restoreIndentation decl).Stays b ((p.restoreIndentation decl).indentation decl [] prefixes).2 :=
    .of_learns ((p.restoreIndentation decl).indentation_learns decl [] prefixes)
  refine .ite (fun _ => (hrestore.trans hlearn).bind fun hp hfrom => ?_) fun _ => .refl p
  exact stays_setBefore _ (fun _ => hfrom.wasGiven hp (h hp)) _

theorem insertVariant_stays (p : Pass) (decl : Nat) {prop : Text} (h : b.Names prop) (value planned : Text)
    (prefixes : List Text) : p.Stays b (p.insertVariant decl prop value planned prefixes).2 := by
  unfold insertVariant
  dsimp only
  split
  · refine (Stays.of_learns (p.indentation_learns decl planned prefixes)).trans ?_
    refine stays_cloneBefore _ decl fun n _ hn => (hn.withBefore _).mapDeclaration fun d _ => h { d with value }
  · exact p.stays_cloneDeclaration decl fun d _ _ => h { d with value }

theorem insertCopy_stays (p : Pass) (dialect : PropertyDialect) (hd : p.sheet.declaration? decl = some d)
    (planned : Text) (h : ∀ name, dialect.Writes d.prop planned name → b.Names name) (prefixes : List Text) :
    p.Stays b (p.insertCopy dialect decl planned prefixes).2 := by
  unfold insertCopy
  split
  · rename_i node copy parent hnode hcopy _
    rw [hd, Option.bind_some] at hcopy
    have hallows : p.Within b → b.Allows (node.mapDeclaration fun _ => copy) := fun hp =>
      (hp.sheet.of_node? hnode).mapDeclaration fun _ _ => h _ (PropertyDialect.writes_of_spell? hcopy) copy
    split
    · exact .refl p
    · dsimp only
      split
      · refine (Stays.of_learns (p.indentation_learns decl planned prefixes)).bind fun hp _ => ?_
        exact stays_insert _ (.before decl) fun _ => (hallows hp).withBefore _
      · exact p.stays_insert (.before decl) hallows
  · exact .refl p

theorem insertOrientation_stays (p : Pass) (decl : Nat) (keyword : Text)
    (h : ∀ name ∈ (["box-orient", "box-direction"] : List Text), b.Names (Vendor.vendorPart planned ++ name))
    (prefixes : List Text) : p.Stays b (p.insertOrientation decl keyword planned prefixes).2 := by
  unfold insertOrientation
  dsimp only
  split
  · exact .refl p
  · exact (insertVariant_stays p decl (h _ (by decide)) _ planned prefixes).trans
      (insertVariant_stays _ decl (h _ (by decide)) _ planned prefixes)

theorem insertMask_stays (p : Pass) (decl : Nat) (d : Declaration) (hname : b.Names (planned ++ d.prop))
    (hcomposite : b.Names (planned ++ "mask-composite")) (prefixes : List Text) :
    p.Stays b (p.insertMask decl d planned prefixes).2 := by
  unfold insertMask
  dsimp only
  split
  · split
    · exact insertVariant_stays p decl hcomposite _ planned prefixes
    · exact .refl p
  · split
    · exact (insertVariant_stays p decl hname _ planned prefixes).trans
        (insertVariant_stays _ decl hcomposite _ planned prefixes)
    · exact insertVariant_stays p decl hname _ planned prefixes

theorem insertWritingMode_stays (p : Pass) (decl : Nat) (d : Declaration) (h : b.Names (planned ++ d.prop))
    (prefixes : List Text) : p.Stays b (p.insertWritingMode decl d planned prefixes).2 := by
  unfold insertWritingMode
  split
  · exact .refl p
  · exact insertVariant_stays p decl h _ planned prefixes

/-- The copies for a planned prefix have the names that the dialect writes. -/
theorem insertFor_stays (hcells : ∀ s nth, b.selects s → b.selects (Grid.cellSelector (Separated.byComma s) nth))
    (p : Pass) (dialect : PropertyDialect) (hd : p.sheet.declaration? decl = some d) (planned : Text)
    (h : ∀ name, dialect.Writes d.prop planned name → b.Names name) (prefixes : List Text) :
    p.Stays b (p.insertFor dialect decl d planned prefixes).2 := by
  have hgrid : dialect.writesGrid = true → dialect ≠ .placeSelf → planned = "-ms-" → b.AllowsGrid :=
    fun hw hne hms => ⟨fun name => h _ (.grid hw hms fun heq => absurd heq hne), hcells⟩
  unfold insertFor
  dsimp only
  split
  case h_1 =>
    rename_i hold
    have hdraft := of_decide_eq_true hold
    split
    · exact p.insertOrientation_stays decl _ (fun name hname => h _ (.box (.inl rfl) hdraft hname)) prefixes
    · exact .refl p
  case h_2 =>
    rename_i hold
    have hdraft := of_decide_eq_true hold
    exact p.insertOrientation_stays decl _ (fun name hname => h _ (.box (.inr rfl) hdraft hname)) prefixes
  case h_3 => exact p.insertMask_stays decl d (h _ .name) (h _ (.composite rfl)) prefixes
  case h_4 => exact p.insertWritingMode_stays decl d (h _ .name) prefixes
  case h_5 hms => exact insertEnd_stays (hgrid rfl (by decide) (of_decide_eq_true hms)) p decl d
  case h_6 hms => exact insertRowColumn_stays (hgrid rfl (by decide) (of_decide_eq_true hms)) p decl d
  case h_7 hms => exact insertArea_stays (hgrid rfl (by decide) (of_decide_eq_true hms)) p decl d
  case h_8 hms =>
    exact p.insertPlaceSelf_stays decl d fun name hname => h _ (.grid rfl (of_decide_eq_true hms) fun _ => hname)
  case h_9 hms => exact insertTracks_stays (hgrid rfl (by decide) (of_decide_eq_true hms)) p decl d
  case h_10 hms => exact insertTemplate_stays (hgrid rfl (by decide) (of_decide_eq_true hms)) p decl d
  case h_11 hms => exact insertTemplateAreas_stays (hgrid rfl (by decide) (of_decide_eq_true hms)) p decl d
  case h_12 =>
    split
    · exact .refl p
    · exact p.insertCopy_stays _ hd planned h prefixes

end Pass

namespace PropertyVariants

open Pass

variable {b : Bounds} {decl : Nat} {d : Declaration} {v : PropertyVariants}

/-- Copies for prefixes in turn; the declaration keeps its property while they are written. -/
theorem addVariants_stays (hcells : ∀ s nth, b.selects s → b.selects (Grid.cellSelector (Separated.byComma s) nth))
    {prop : Text} (prefixes : List Text)
    (h : ∀ planned ∈ prefixes, ∀ name, v.dialect.Writes prop planned name → b.Names name) (written : List Text)
    (p : Pass) (hdecl : p.WasGiven decl prop) : p.Stays b (v.addVariants decl prefixes written p).2 := by
  induction prefixes generalizing written p with
  | nil => exact .refl p
  | cons planned prefixes ih =>
    rw [addVariants]
    have hstep : p.Stays b (v.addVariant p decl planned (written ++ [planned])).2 := by
      unfold addVariant
      split
      · exact .refl p
      · rename_i d hd
        split
        · exact .refl p
        · refine insertFor_stays hcells p v.dialect hd planned (fun name hname => ?_) _
          rw [hdecl.prop_eq hd] at hname
          exact h planned List.mem_cons_self name hname
    exact hstep.bind fun hp hfrom =>
      ih (fun q hq => h q (List.mem_cons_of_mem _ hq)) _ _ (hfrom.wasGiven hp hdecl)

/-- The copies of a declaration. -/
theorem process_stays (hcells : ∀ s nth, b.selects s → b.selects (Grid.cellSelector (Separated.byComma s) nth))
    (p : Pass) (h : ∀ d, p.sheet.declaration? decl = some d →
      ∀ planned ∈ v.prefixes, ∀ name, v.dialect.Writes d.prop planned name → b.Names name) :
    p.Stays b (v.process p decl) := by
  unfold process
  refine .ite (fun haccepts => ?_) fun _ => .refl p
  have hd : ∃ d, p.sheet.declaration? decl = some d := by
    unfold accepts at haccepts
    split at haccepts
    · exact ⟨_, ‹_›⟩
    · cases haccepts
  obtain ⟨d, hd⟩ := hd
  have hscope : p.Stays b (p.scope decl).2 := .of_scope p fun hn => by
    rw [Sheet.declaration?, hn] at hd
    cases hd
  have hadd : p.Stays b
      (v.addVariants decl (v.prefixes.filter (Pass.inScope (p.scope decl).1)) [] (p.scope decl).2).2 := by
    refine hscope.bind fun hp hfrom => addVariants_stays hcells _ (fun planned hplanned => ?_) [] _
      (hfrom.wasGiven hp (hp.wasGiven hd))
    exact h d hd planned (List.mem_filter.1 hplanned).1
  dsimp only
  refine .ite (fun _ => hadd) fun _ => hadd.bind fun hp hfrom => ?_
  exact Pass.alignWithCopies_stays _ (fun _ => hfrom.wasGiven hp (hp.wasGiven hd)) _

end PropertyVariants

/-! ## Variants of a value -/

/-- The bounds allow all values that a token of a declaration is spelled into: from its value, or from one spelled
before. -/
def Bounds.AllowsSpelling (b : Bounds) (r : Rules) (v : ValueVariants) (d : Declaration) : Prop :=
  v.dialect.accepts v.token d = true → ∀ planned ∈ v.prefixes, planned ≠ [] ∧
    ((d.prop.head? = some '-' → Pass.inScope (Pass.prefixedScope r d.prop) planned = true) →
      v.dialect.applies d.prop planned = true → ∀ known, known = d.value ∨ b.spells d known →
        ∀ value, v.dialect.spell? v.token planned known = some value → b.spells d value)

/-- The bounds allow a declaration with a value that may be remembered for it. -/
def Bounds.AllowsSaving (b : Bounds) : Prop :=
  ∀ d value, b.declares d → b.spells d value → b.declares { d with value }

namespace Pass

variable {b : Bounds} {decl : Nat} {d : Declaration}

theorem Within.spelledValues {p : Pass} (hp : p.Within b) (hd : p.sheet.declaration? decl = some d) :
    ∀ spelled ∈ p.spelledValues decl, spelled.1 ≠ [] ∧ b.spells d spelled.2 := by
  unfold Pass.spelledValues
  cases h : p.memory.values.get? decl with
  | none => exact fun _ hx => (List.not_mem_nil hx).elim
  | some values =>
    intro spelled hspelled
    obtain ⟨hne, hspells⟩ := (hp.values _ (Facts.mem_of_get? h)).2 spelled hspelled
    exact ⟨hne, hspells d hd⟩

/-- What a prefix is spelled from is the value of the declaration or an earlier spelling. -/
theorem Within.spells_known {p : Pass} (hp : p.Within b) (hd : p.sheet.declaration? decl = some d) {planned known : Text}
    (h : (((p.spelledValues decl).find? fun (k, _) => k == planned).map Prod.snd).getD d.value = known) :
    known = d.value ∨ b.spells d known := by
  subst h
  cases hfind : (p.spelledValues decl).find? fun (k, _) => k == planned with
  | none => exact .inl rfl
  | some spelled => exact .inr (hp.spelledValues hd spelled (List.mem_of_find?_eq_some hfind)).2

theorem recordValue_stays (p : Pass) (hd : p.sheet.declaration? decl = some d) {planned value : Text}
    (hplanned : planned ≠ []) (h : p.Within b → b.spells d value) : p.Stays b (p.recordValue decl planned value) :=
  fun hp => {
    within := {
      sheet := hp.sheet
      values := fun x hx => by
        rcases List.mem_cons.1 hx with rfl | hx
        · refine ⟨hp.lt_next hd, fun spelled hspelled => ?_⟩
          rcases mem_setValueFor hspelled with rfl | hspelled
          · exact ⟨hplanned, fun d' hd' => Option.some.inj (hd.symm.trans hd') ▸ h hp⟩
          · obtain ⟨hne, hspells⟩ := hp.spelledValues hd spelled hspelled
            exact ⟨hne, fun d' hd' => Option.some.inj (hd.symm.trans hd') ▸ hspells⟩
        · exact hp.values x hx
      knows := hp.knows
      option := hp.option
      grid := hp.grid }
    rules := rfl
    succeeds := .refl _ }

/-- A spelled value goes into a declaration of its vendor, or into a copy. -/
theorem saveValue_stays (h : b.AllowsSaving) (p : Pass) {spelled : Text × Text} {values : List (Text × Text)}
    (hvalues : (decl, values) ∈ p.memory.values) (hspelled : spelled ∈ values) :
    p.Stays b (saveValue decl p spelled) := by
  have hallows : p.Within b → ∀ d, p.sheet.declaration? decl = some d → b.declares { d with value := spelled.2 } :=
    fun hp d hd => h d _ (hp.declares hd) (((hp.values _ hvalues).2 spelled hspelled).2 d hd)
  obtain ⟨planned, value⟩ := spelled
  unfold saveValue
  dsimp only
  split
  · rename_i d rule hd _
    refine .ite (fun _ => .refl p) fun _ => .ite (fun hvendor => ?_) fun _ => .ite (fun _ => .refl p) fun _ => ?_
    · refine p.stays_setValue fun hp d' hd' => ⟨?_, hallows hp d' hd'⟩
      obtain rfl : d = d' := Option.some.inj (hd.symm.trans hd')
      have hne : (Vendor.ofName d.prop).isEmpty = false := by
        rw [hvendor]
        exact List.isEmpty_eq_false_iff.2 ((hp.values _ hvalues).2 _ hspelled).1
      rw [Node.hasFreeValue, hne]
      exact Bool.or_true _
    · exact fun hp => p.stays_cloneDeclaration decl (fun d' hd' _ => hallows hp d' hd') hp
  · exact .refl p

theorem memory_saveValue (p : Pass) (decl : Nat) (spelled : Text × Text) :
    (saveValue decl p spelled).memory = p.memory := by
  unfold saveValue
  dsimp only
  repeat' split
  all_goals rfl

theorem saveValues_stays (h : b.AllowsSaving) (p : Pass) (decl : Nat) : p.Stays b (p.saveValues decl) := by
  unfold saveValues Pass.spelledValues
  cases hget : p.memory.values.get? decl with
  | none => exact .refl p
  | some values =>
    have hmem := Facts.mem_of_get? hget
    have hfold : ∀ (xs : List (Text × Text)) (q : Pass), (∀ x ∈ xs, x ∈ values) → (decl, values) ∈ q.memory.values →
        q.Stays b (xs.foldl (saveValue decl) q) := by
      intro xs
      induction xs with
      | nil => exact fun q _ _ => .refl q
      | cons x xs ih =>
        intro q hxs hq
        refine (saveValue_stays h q hq (hxs x List.mem_cons_self)).trans
          (ih _ (fun y hy => hxs y (List.mem_cons_of_mem _ hy)) ?_)
        rw [memory_saveValue]
        exact hq
    exact hfold values p (fun _ hx => hx) hmem

end Pass

namespace ValueVariants

open Pass

variable {b : Bounds} {decl : Nat} {d : Declaration} {v : ValueVariants}

theorem sheet_spellFor (v : ValueVariants) (decl : Nat) (p : Pass) (planned : Text) :
    (v.spellFor decl p planned).sheet = p.sheet := by
  unfold spellFor
  dsimp only
  repeat' split
  all_goals rfl

theorem spellFor_stays (p : Pass) (hd : p.sheet.declaration? decl = some d) {planned : Text} (hplanned : planned ≠ [])
    (h : v.dialect.applies d.prop planned = true → ∀ known, known = d.value ∨ b.spells d known →
      ∀ value, v.dialect.spell? v.token planned known = some value → b.spells d value) :
    p.Stays b (v.spellFor decl p planned) := by
  unfold spellFor
  rw [hd]
  dsimp only
  refine .ite (fun happlies => ?_) fun _ => .refl p
  split
  · rename_i value hvalue
    exact p.recordValue_stays hd hplanned fun hp => h happlies _ (hp.spells_known hd rfl) value hvalue
  · exact .refl p

theorem sheet_process (v : ValueVariants) (p : Pass) (decl : Nat) : (v.process p decl).sheet = p.sheet := by
  have hfold : ∀ (prefixes : List Text) (q : Pass), (prefixes.foldl (v.spellFor decl) q).sheet = q.sheet := by
    intro prefixes
    induction prefixes with
    | nil => exact fun _ => rfl
    | cons planned prefixes ih =>
      intro q
      rw [List.foldl_cons, ih, sheet_spellFor]
  unfold process
  split
  · exact (hfold _ _).trans (p.scope_sheet decl)
  · rfl

/-- The value of a declaration is spelled for the prefixes in its scope. -/
theorem process_stays (p : Pass) (h : ∀ d, p.sheet.declaration? decl = some d → b.declares d →
    b.AllowsSpelling p.rules v d) : p.Stays b (v.process p decl) := by
  unfold process
  refine .ite (fun haccepts => ?_) fun _ => .refl p
  obtain ⟨d, hd, haccepts⟩ : ∃ d, p.sheet.declaration? decl = some d ∧ v.dialect.accepts v.token d = true := by
    cases hd : p.sheet.declaration? decl with
    | none =>
      rw [hd] at haccepts
      cases haccepts
    | some d => exact ⟨d, rfl, by rwa [hd] at haccepts⟩
  have hscope : p.Stays b (p.scope decl).2 := .of_scope p fun hn => by
    rw [Sheet.declaration?, hn] at hd
    cases hd
  refine hscope.bind fun hp hfrom => ?_
  have hallows := h d hd (hp.declares hd) haccepts
  have hprefixed : d.prop.head? = some '-' → (p.scope decl).1 = prefixedScope p.rules d.prop :=
    scope_of_prefixed hp.knows hd
  have hfold : ∀ (prefixes : List Text) (q : Pass), q.sheet.declaration? decl = some d →
      (∀ planned ∈ prefixes, planned ∈ v.prefixes ∧ inScope (p.scope decl).1 planned = true) →
        q.Stays b (prefixes.foldl (v.spellFor decl) q) := by
    intro prefixes
    induction prefixes with
    | nil => exact fun q _ _ => .refl q
    | cons planned prefixes ih =>
      intro q hq hmem
      obtain ⟨hplanned, hin⟩ := hmem planned List.mem_cons_self
      obtain ⟨hne, hspells⟩ := hallows planned hplanned
      refine (spellFor_stays q hq hne (hspells fun hdash => ?_)).trans
        (ih _ ?_ fun x hx => hmem x (List.mem_cons_of_mem _ hx))
      · rw [← hprefixed hdash]
        exact hin
      · rw [sheet_spellFor]
        exact hq
  refine hfold _ _ ?_ fun planned hplanned => List.mem_filter.1 hplanned
  rw [scope_sheet]
  exact hd

end ValueVariants

/-! ## What rules ask for -/

/-- Names of grid that are looked up for properties of another name. -/
def PropertyDialect.gridNames : List Text := ["grid-row-align", "grid-column-align", "place-self"]

/-- The variants of a declaration are looked up under a name: that of its property, unless the options say to leave it
alone, and where grids are written also names of grid. -/
inductive Rules.Handles (r : Rules) (grids : Prop) (prop : Text) : Text → Prop
  | own (hflex : ¬(r.options.flexbox = .off ∧ Pass.isFlexProperty prop = true))
      (halign : prop = "align-self" → r.options.flexbox ≠ .off)
      (hgrid : ¬grids → Pass.isGridProperty prop = false ∧ prop ≠ "place-self") : Handles r grids prop prop
  | grid {name : Text} (h : grids) (hname : name ∈ PropertyDialect.gridNames) : Handles r grids prop name

/-- The values of a declaration are spelled, unless the options say to leave it alone. -/
def Rules.Spells (r : Rules) (grids : Prop) (d : Declaration) : Prop :=
  d.prop = "display" →
    ¬(r.options.flexbox = .off ∧ d.value.contains "flex" = true) ∧ (¬grids → d.value.contains "grid" = false)

/-- Bounds that allow the names under which rules write declarations. -/
structure Bounds.AllowsNames (b : Bounds) (r : Rules) : Prop where
  cells : ∀ s nth, b.selects s → b.selects (Grid.cellSelector (Separated.byComma s) nth)
  names : ∀ prop name v, r.Handles b.grids prop name → r.property? name = some v →
    ∀ planned ∈ v.prefixes, ∀ spelled, v.dialect.Writes prop planned spelled → b.Names spelled
  lists : ∀ prop ∈ Transition.properties, b.Names prop
  listsPlanned : ∀ prop ∈ Transition.properties, ∀ v, r.property? prop = some v →
    ∀ planned ∈ v.prefixes, b.Names (planned ++ prop)
  /-- A rule that is written for a vendor has lists for it. -/
  listsSelected : ∀ prop ∈ Transition.properties, ∀ vendor ∈ r.selection.vendors, ∀ s, b.selects s →
    Text.contains s (':' :: vendor) = true → b.Names (vendor ++ prop)

/-- Bounds that allow the values that rules spell. -/
structure Bounds.AllowsValues (b : Bounds) (r : Rules) : Prop where
  values : ∀ d, b.declares d → r.Spells b.grids d → ∀ v ∈ r.valuesFor (PropertyName.standard d.prop),
    b.AllowsSpelling r v d
  saving : b.AllowsSaving

namespace Pass

variable {b : Bounds} {decl : Nat} {d : Declaration}

/-! ## Transitions -/

theorem insertTransition_stays (p : Pass) (decl : Nat) {prop : Text} (h : b.Names prop) (value : Text) :
    p.Stays b (p.insertTransition decl prop value) :=
  .ite (fun _ => .refl p) fun _ => p.stays_cloneDeclaration decl fun d _ _ => h { d with value }

theorem mem_ruleVendors {p : Pass} {vendors : List Text} (h : p.ruleVendors? decl = some vendors) :
    ∀ vendor ∈ vendors, vendor ∈ p.rules.selection.vendors ∧
      ∃ rule s, p.sheet.selector? rule = some s ∧ Text.contains s (':' :: vendor) = true := by
  unfold ruleVendors? at h
  obtain ⟨rule, _, h⟩ := Option.bind_eq_some_iff.1 h
  obtain ⟨s, hs, h⟩ := Option.bind_eq_some_iff.1 h
  dsimp only at h
  split at h
  · cases h
  · intro vendor hvendor
    obtain rfl := Option.some.inj h
    obtain ⟨hmem, hcontains⟩ := List.mem_filter.1 hvendor
    exact ⟨hmem, rule, s, hs, hcontains⟩

/-- A list of properties is written for the planned vendors, or for those of its rule. -/
theorem addTransitions_stays (p : Pass) (hd : p.sheet.declaration? decl = some d)
    (hprop : d.prop ∈ Transition.properties) (h : b.AllowsNames p.rules) : p.Stays b (p.addTransitions decl) := by
  intro hp
  have hnames : b.Names d.prop := h.lists d.prop hprop
  have hplanned : ∀ planned ∈ (p.ruleVendors? decl).getD
      (((p.rules.property? d.prop).map PropertyVariants.prefixes).getD []), b.Names (planned ++ d.prop) := by
    intro planned hmem
    cases hvendors : p.ruleVendors? decl with
    | some vendors =>
      rw [hvendors] at hmem
      obtain ⟨hvendor, rule, s, hs, hcontains⟩ := mem_ruleVendors hvendors planned hmem
      exact h.listsSelected d.prop hprop planned hvendor s (hp.selects hs) hcontains
    | none =>
      rw [hvendors, Option.getD_none] at hmem
      cases hv : p.rules.property? d.prop with
      | none =>
        rw [hv] at hmem
        cases hmem
      | some v =>
        rw [hv] at hmem
        exact h.listsPlanned d.prop hprop v hv planned hmem
  suffices hstays : p.Stays b (p.addTransitions decl) from hstays hp
  unfold addTransitions
  rw [hd]
  dsimp only
  refine .ite (fun _ => .refl p) fun _ => ?_
  generalize hes : Transition.entries d.value ++ _ = es
  generalize (p.ruleVendors? decl).getD _ = planned at hplanned
  -- the copies, one vendor after the other
  let p₁ :=
    if planned.contains "-webkit-".toList then
      p.insertTransition decl ("-webkit-" ++ d.prop) (Transition.render (Transition.forVendorAlone "-webkit-" es))
    else p
  let p₂ := p₁.insertTransition decl d.prop (Transition.render (Transition.forVendorAlone "-webkit-" es))
  let p₃ :=
    if planned.contains "-o-".toList then
      p₂.insertTransition decl ("-o-" ++ d.prop) (Transition.render (Transition.forVendorAlone "-o-" es))
    else p₂
  let p₄ := planned.foldl (insertOther es d.prop decl) p₃
  have h₁ : p.Stays b p₁ := .ite
    (fun hmem => p.insertTransition_stays decl (hplanned _ (List.contains_iff_mem.1 hmem)) _) fun _ => .refl p
  have h₂ : p₁.Stays b p₂ := p₁.insertTransition_stays decl hnames _
  have h₃ : p₂.Stays b p₃ := .ite
    (fun hmem => p₂.insertTransition_stays decl (hplanned _ (List.contains_iff_mem.1 hmem)) _) fun _ => .refl p₂
  have h₄ : p₃.Stays b p₄ := .foldl fun x hx q _ =>
    .ite (fun _ => .refl q) fun _ => q.insertTransition_stays decl (hplanned x hx) _
  have hcopies : p.Stays b p₄ := ((h₁.trans h₂).trans h₃).trans h₄
  refine .ite (fun _ => hcopies) fun _ => ?_
  let p₅ := (p₄.warnAssociated decl).edit fun s => s.cloneBefore decl fun n => n
  have h₅ : p.Stays b p₅ :=
    (hcopies.trans (.of_learns (p₄.warnAssociated_learns decl))).trans (stays_cloneBefore _ decl fun _ _ hn => hn)
  refine h₅.bind fun _ hfrom => p₅.stays_setValue fun _ d' hd' => ?_
  have heq : d'.prop = d.prop := (hfrom.wasGiven hp (hp.wasGiven hd)).prop_eq hd'
  constructor
  · rw [Node.hasFreeValue, heq, List.contains_iff_mem.2 hprop]
    rfl
  · have hallows := hnames { d' with value := Transition.render es }
    rw [← heq] at hallows
    exact hallows

/-! ## Declarations -/

theorem addVariantsOf_stays (p : Pass) (hdecl : p.Within b → p.WasGiven decl d.prop) (h : b.AllowsNames p.rules)
    {name : Text} (hname : p.rules.Handles b.grids d.prop name) : p.Stays b (p.addVariantsOf decl name) := by
  unfold addVariantsOf
  split
  · rename_i v hv
    intro hp
    refine v.process_stays h.cells p (fun d' hd' planned hplanned spelled hwrites => ?_) hp
    rw [(hdecl hp).prop_eq hd'] at hwrites
    exact h.names d.prop name v hname hv planned hplanned spelled hwrites
  · exact .refl p

theorem addGridVariantsOf_stays (p : Pass) (hdecl : p.Within b → p.WasGiven decl d.prop) (h : b.AllowsNames p.rules)
    {name : Text} (hname : name ∈ PropertyDialect.gridNames) : p.Stays b (p.addGridVariantsOf decl name) := by
  intro hp
  unfold addGridVariantsOf
  dsimp only
  have hmode : p.Stays b (p.gridMode decl).2 := .of_gridMode p decl
  refine Stays.ite (fun henabled => hmode.bind fun hp hfrom => ?_) (fun _ => hmode) hp
  by_cases hgrids : b.grids
  · refine addVariantsOf_stays _ (fun _ => hfrom.wasGiven hp (hdecl hp)) ?_ (.grid hgrids hname)
    rw [hfrom.rules]
    exact h
  · rw [(gridMode_off (hp.leavesGrids hgrids) decl).1] at henabled
    cases henabled

theorem addByProperty_stays (p : Pass) (hdecl : p.Within b → p.WasGiven decl d.prop) (h : b.AllowsNames p.rules)
    (hflex : ¬(p.rules.options.flexbox = .off ∧ isFlexProperty d.prop = true))
    (hgrid : ¬b.grids → isGridProperty d.prop = false) : p.Stays b (p.addByProperty decl d.prop) := by
  unfold addByProperty
  refine .ite (fun halign => ?_) fun halign => .ite (fun _ => p.addGridVariantsOf_stays hdecl h (by decide)) fun _ =>
    .ite (fun hplace => p.addGridVariantsOf_stays hdecl h (by rw [hplace]; decide)) fun hplace => ?_
  · have hown : p.Stays b
        (if p.isInGrid decl || p.rules.options.flexbox = .off then p else p.addVariantsOf decl d.prop) := by
      refine .ite (fun _ => .refl p) fun hoff => p.addVariantsOf_stays hdecl h (.own hflex (fun _ hflexbox => hoff ?_) ?_)
      · rw [hflexbox, decide_eq_true rfl, Bool.or_true]
      · refine fun hgrids => ⟨hgrid hgrids, ?_⟩
        rw [halign]
        decide
    refine hown.bind fun hp hfrom => addGridVariantsOf_stays _ (fun _ => hfrom.wasGiven hp (hdecl hp)) ?_ (by decide)
    rw [hfrom.rules]
    exact h
  · exact p.addVariantsOf_stays hdecl h
      (.own hflex (fun heq => absurd heq halign) fun hgrids => ⟨hgrid hgrids, hplace⟩)

theorem skipsDeclaration_agrees (p : Pass) (decl : Nat) : p.Agrees (p.skipsDeclaration decl).2 := by
  unfold skipsDeclaration
  split
  · exact (p.disabled_learns decl).toAgrees
  · dsimp only
    split
    · exact p.gridMode_agrees decl
    · exact (p.gridMode_agrees decl).trans (disabled_learns _ decl).toAgrees

theorem skipsDeclaration_stays (p : Pass) (decl : Nat) : p.Stays b (p.skipsDeclaration decl).2 := by
  unfold skipsDeclaration
  split
  · exact .of_learns (p.disabled_learns decl)
  · dsimp only
    split
    · exact .of_gridMode p decl
    · exact (Stays.of_gridMode p decl).trans (.of_learns (disabled_learns _ decl))

/-- What is not skipped is neither of a flexbox nor of a grid, where these are left alone. -/
theorem of_not_skipsDeclaration {p : Pass} (hp : p.Within b) (hd : p.sheet.declaration? decl = some d)
    (h : ¬(p.skipsDeclaration decl).1 = true) :
    ¬(p.rules.options.flexbox = .off ∧ isFlexProperty d.prop = true) ∧
      (¬b.grids → isGridProperty d.prop = false) := by
  unfold skipsDeclaration at h
  rw [hd] at h
  dsimp only at h
  rw [(p.gridMode_agrees decl).rules] at h
  constructor
  · rintro ⟨hoff, hflex⟩
    simp [hoff, hflex] at h
  · intro hgrids
    rw [(gridMode_off (hp.leavesGrids hgrids) decl).1] at h
    cases hg : isGridProperty d.prop with
    | false => rfl
    | true => simp [hg, GridMode.isEnabled] at h

theorem addToDeclaration_stays (grids : Bool) (p : Pass) (decl : Nat) (h : b.AllowsNames p.rules) :
    p.Stays b (p.addToDeclaration grids decl) := by
  intro hp
  unfold addToDeclaration
  dsimp only
  have hagrees := p.skipsDeclaration_agrees decl
  have hskips : p.Stays b (p.skipsDeclaration decl).2 := p.skipsDeclaration_stays decl
  split
  · exact hskips hp
  · rename_i d hd
    refine Stays.ite (fun _ => hskips) (fun hskip => ?_) hp
    rw [hagrees.sheet] at hd
    obtain ⟨hflex, hgrid⟩ := of_not_skipsDeclaration hp hd hskip
    -- the advice on the declaration is raised, and followed
    generalize hadvice : ((p.skipsDeclaration decl).2.gridMode decl).2.adviceOn decl d _ = advice
    generalize hraised : ((p.skipsDeclaration decl).2.gridMode decl).2.raise decl advice = q
    have hq : p.Stays b q :=
      hraised ▸ (hskips.trans (.of_gridMode _ decl)).trans (.of_learns (raise_learns _ decl advice))
    have hsheet : q.sheet = p.sheet := by
      rw [← hraised, (raise_learns _ decl advice).sheet, (gridMode_agrees _ decl).sheet, hagrees.sheet]
    refine .ite (fun _ => hq) fun _ => ?_
    have hlists : p.Stays b (if Transition.properties.contains d.prop then q.addTransitions decl else q) := by
      refine .ite (fun hprop => hq.bind fun _ hfrom => ?_) fun _ => hq
      refine q.addTransitions_stays (by rw [hsheet]; exact hd) (List.contains_iff_mem.1 hprop) ?_
      rw [hfrom.rules]
      exact h
    refine hlists.bind fun _ hfrom =>
      addByProperty_stays _ (fun _ => hfrom.wasGiven hp (hp.wasGiven hd)) ?_ ?_ hgrid
    · rw [hfrom.rules]
      exact h
    · rw [hfrom.rules]
      exact hflex

/-! ## Values -/

theorem addValues_stays (p : Pass) (prop : Text) (hsaving : b.AllowsSaving)
    (h : ∀ d, p.sheet.declaration? decl = some d → b.declares d → ∀ v ∈ p.rules.valuesFor prop,
      b.AllowsSpelling p.rules v d) : p.Stays b (Supports.addValues prop p decl) := by
  have hfold : ∀ (vs : List ValueVariants) (q : Pass), q.rules = p.rules → q.sheet = p.sheet →
      (∀ v ∈ vs, v ∈ p.rules.valuesFor prop) → q.Stays b (vs.foldl (fun p v => v.process p decl) q) := by
    intro vs
    induction vs with
    | nil => exact fun q _ _ _ => .refl q
    | cons v vs ih =>
      intro q hrules hsheet hvs
      have hstep : q.Stays b (v.process q decl) := v.process_stays q fun d hd hdeclares => by
        rw [hrules]
        rw [hsheet] at hd
        exact h d hd hdeclares v (hvs v List.mem_cons_self)
      refine hstep.bind fun _ hfrom => ih _ (hfrom.rules.trans hrules) ?_ fun w hw => hvs w (List.mem_cons_of_mem _ hw)
      rw [ValueVariants.sheet_process, hsheet]
  exact (hfold _ p rfl rfl fun _ hv => hv).trans (saveValues_stays hsaving _ decl)

theorem skipsValue_agrees (p : Pass) (decl : Nat) : p.Agrees (p.skipsValue decl).2 := by
  unfold skipsValue
  split
  · exact (p.disabled_learns decl).toAgrees
  · dsimp only
    split
    · exact p.gridMode_agrees decl
    · exact (p.gridMode_agrees decl).trans (disabled_learns _ decl).toAgrees

theorem skipsValue_stays (p : Pass) (decl : Nat) : p.Stays b (p.skipsValue decl).2 := by
  unfold skipsValue
  split
  · exact .of_learns (p.disabled_learns decl)
  · dsimp only
    split
    · exact .of_gridMode p decl
    · exact (Stays.of_gridMode p decl).trans (.of_learns (disabled_learns _ decl))

theorem spells_of_not_skipsValue {p : Pass} (hp : p.Within b) (hd : p.sheet.declaration? decl = some d)
    (h : ¬(p.skipsValue decl).1 = true) : p.rules.Spells b.grids d := by
  unfold skipsValue at h
  rw [hd] at h
  dsimp only at h
  rw [(p.gridMode_agrees decl).rules] at h
  intro hdisplay
  constructor
  · rintro ⟨hoff, hflex⟩
    refine h ?_
    rw [if_pos]
    simp only [hoff, hflex, hdisplay, decide_true, Bool.and_self, Bool.or_true, Bool.true_or]
  · intro hgrids
    rw [(gridMode_off (hp.leavesGrids hgrids) decl).1] at h
    refine Bool.eq_false_iff.2 fun hg => h ?_
    rw [if_pos]
    simp only [hg, hdisplay, GridMode.isEnabled, decide_true, Bool.not_false, Bool.and_self, Bool.true_or]

theorem addToValue_stays (p : Pass) (decl : Nat) (h : b.AllowsValues p.rules) : p.Stays b (p.addToValue decl) := by
  intro hp
  unfold addToValue
  dsimp only
  have hagrees := p.skipsValue_agrees decl
  have hskips : p.Stays b (p.skipsValue decl).2 := p.skipsValue_stays decl
  split
  · exact hskips hp
  · rename_i d hd
    refine Stays.ite (fun _ => hskips) (fun hskip => ?_) hp
    rw [hagrees.sheet] at hd
    have hspells := spells_of_not_skipsValue hp hd hskip
    refine hskips.trans (addValues_stays _ _ h.saving fun d' hd' hdeclares v hv => ?_)
    rw [hagrees.sheet] at hd'
    obtain rfl : d = d' := Option.some.inj (hd.symm.trans hd')
    rw [hagrees.rules] at hv ⊢
    exact h.values d hdeclares hspells v hv

/-! ## At-rules and rules -/

theorem stays_unlessOff (p : Pass) (id : Nat) {q : Pass} (h : (p.disabled id).2.Stays b q) :
    p.Stays b (if (p.disabled id).1 then (p.disabled id).2 else q) := by
  have hlearn : p.Stays b (p.disabled id).2 := .of_learns (p.disabled_learns id)
  exact .ite (fun _ => hlearn) fun _ => hlearn.trans h

end Pass

theorem AtRuleVariants.process_stays {b : Bounds} (v : AtRuleVariants) (p : Pass) {rule : Nat}
    (h : p.sheet.node? rule ≠ none) : p.Stays b (v.process p rule) := by
  refine (Pass.Stays.of_scope p h).trans (.foldl fun planned _ q _ => ?_)
  unfold addVariant
  split
  · dsimp only
    exact .ite (fun _ => .refl q) fun _ => q.stays_cloneBefore rule fun n _ hn => hn.mapAtRule _
  · exact .refl q

theorem SelectorVariants.process_stays {b : Bounds} (v : SelectorVariants) (p : Pass) (rule : Nat)
    (h : ∀ planned ∈ v.prefixes, ∀ s, b.selects s → b.selects (v.spell s planned)) : p.Stays b (v.process p rule) := by
  unfold process
  refine .ite (fun haccepts => ?_) fun _ => .refl p
  have hnode : p.sheet.node? rule ≠ none := fun hn => by
    rw [Sheet.selector?, hn] at haccepts
    cases haccepts
  refine (Pass.Stays.of_scope p hnode).trans (.foldl fun planned hplanned q _ => ?_)
  unfold addVariant
  split
  · exact .refl q
  · rename_i selector hselector
    dsimp only
    refine .ite (fun _ => .refl q) fun _ => ?_
    split
    · rename_i known variant hfound
      obtain ⟨other, _, heq⟩ := List.mem_map.1 (List.mem_of_find?_eq_some hfound)
      obtain ⟨rfl, rfl⟩ := Prod.mk.inj heq
      have hknown : other = planned := eq_of_beq (List.find?_some (p := fun (x : Text × Text) => x.1 == planned) hfound)
      rw [hknown]
      intro hq
      refine q.stays_cloneBefore rule (fun n _ hn => hn.mapSelector fun _ _ => ?_) hq
      exact h planned (List.mem_filter.1 hplanned).1 selector (hq.selects hselector)
    · exact .refl q

namespace Pass

variable {b b' : Bounds}

theorem addToAtRule_stays (prefixer : Prefixer) (p : Pass) (rule : Nat) :
    p.Stays b (p.addToAtRule prefixer rule) := by
  unfold addToAtRule
  split
  · exact .refl p
  · rename_i r hr
    have hr' : (p.disabled rule).2.sheet.atRule? rule = some r := by
      rw [(p.disabled_learns rule).sheet]
      exact hr
    have hnode : (p.disabled rule).2.sheet.node? rule ≠ none := fun hn => by
      rw [Sheet.atRule?, hn] at hr'
      cases hr'
    dsimp only
    refine .ite (fun _ => ?_) fun _ => .ite (fun hsupports => ?_) fun _ => .ite (fun hmedia => ?_) fun _ => .refl p
    · refine p.stays_unlessOff rule ?_
      split
      · exact AtRuleVariants.process_stays _ _ hnode
      · exact .refl _
    · refine .ite (fun _ => p.stays_unlessOff rule ?_) fun _ => .refl p
      have hfree : Node.hasFreeParams r.name = true := by
        rw [hsupports]
        rfl
      exact stays_editParams _ hr' hfree (Supports.update prefixer)
    · refine p.stays_unlessOff rule ?_
      have hfree : Node.hasFreeParams r.name = true := by
        rw [of_decide_eq_true (Bool.and_eq_true_iff.1 hmedia).1]
        rfl
      split
      · refine (Stays.of_scope _ hnode).trans (stays_editParams _ (r := r) ?_ hfree _)
        rw [scope_sheet]
        exact hr'
      · exact .refl _

theorem addToRule_stays (p : Pass) (rule : Nat)
    (h : ∀ v ∈ p.rules.selectors, ∀ planned ∈ v.prefixes, ∀ s, b.selects s → b.selects (v.spell s planned)) :
    p.Stays b (p.addToRule rule) := by
  unfold addToRule
  dsimp only
  refine p.stays_unlessOff rule ?_
  refine .foldl fun v hv q _ => v.process_stays q rule fun planned hplanned s hs => ?_
  rw [(p.disabled_learns rule).rules] at hv
  exact h v hv planned hplanned s hs

/-! ## The pass -/

end Pass

/-- The same bounds for other selectors. -/
def Bounds.withSelects (b : Bounds) (selects : Text → Prop) : Bounds := { b with selects }

theorem Pass.Within.withSelects {b : Bounds} {p : Pass} (hp : p.Within b) {selects : Text → Prop}
    (h : ∀ s, b.selects s → selects s) : p.Within (b.withSelects selects) where
  sheet := hp.sheet.mono fun _ hn => ⟨hn.declaration, fun s hs => h s (hn.selector s hs), hn.switch⟩
  values := hp.values
  knows := hp.knows
  option := hp.option
  grid := hp.grid

/-- Adding writes what the bounds allow. The selectors that rules are copied under are those of the first bounds; `selects`
are those that transitions are written for, and that automatic placement makes rules of. Where named areas are placed,
any selector may come. -/
theorem Pass.addMissing_within {b : Bounds} {p : Pass} (hp : p.Within b) (prefixer : Prefixer) (selects : Text → Prop)
    (hspell : ∀ v ∈ p.rules.selectors, ∀ planned ∈ v.prefixes, ∀ s, b.selects s → b.selects (v.spell s planned))
    (hselects : ∀ s, b.selects s → selects s) (hnames : (b.withSelects selects).AllowsNames p.rules)
    (hareas : b.grids → ∀ prop ∈ Grid.cellProperties, b.Names prop) (hvalues : b.AllowsValues p.rules) :
    (p.addMissing prefixer).Within (b.withSelects fun _ => True) := by
  unfold addMissing
  dsimp only
  generalize heq₁ : List.foldl (addToAtRule prefixer) p _ = p₁
  have h₁ : p.Stays b p₁ := heq₁ ▸ .foldl fun rule _ q _ => q.addToAtRule_stays prefixer rule
  generalize heq₂ : List.foldl addToRule p₁ _ = p₂
  have h₂ : p₁.Stays b p₂ := heq₂ ▸ .foldl fun rule _ q hq => q.addToRule_stays rule fun v hv => by
    rw [hq, (h₁ hp).rules] at hv
    exact hspell v hv
  have h₃ : p.Stays b (p₂.gridMode Sheet.rootId).2 := (h₁.trans h₂).trans (.of_gridMode p₂ Sheet.rootId)
  have hmode : ¬b.grids → (p₂.gridMode Sheet.rootId).1 = .off := fun hgrids =>
    (gridMode_off (((h₁.trans h₂) hp).within.leavesGrids hgrids) Sheet.rootId).1
  generalize p₂.gridMode Sheet.rootId = found at h₃ hmode
  obtain ⟨mode, p₃⟩ := found
  dsimp only at h₃ hmode ⊢
  have hrules₃ : p₃.rules = p.rules := (h₃ hp).rules
  have hp₃ : p₃.Within (b.withSelects selects) := (h₃ hp).within.withSelects hselects
  generalize (mode.isEnabled && _) = grids
  generalize heq₄ : List.foldl (addToDeclaration grids) p₃ _ = p₄
  have h₄ : p₃.Stays (b.withSelects selects) p₄ := heq₄ ▸ .foldl fun decl _ q hq =>
    q.addToDeclaration_stays grids decl (by rw [hq, hrules₃]; exact hnames)
  have hrules₄ : p₄.rules = p.rules := (h₄ hp₃).rules.trans hrules₃
  have hp₄ : p₄.Within (b.withSelects fun _ => True) := (h₄ hp₃).within.withSelects fun _ _ => trivial
  have h₅ : p₄.Stays (b.withSelects fun _ => True) (if mode.isEnabled then p₄.insertAreas else p₄) := by
    refine .ite (fun henabled => ?_) fun _ => .refl p₄
    by_cases hgrids : b.grids
    · have hallows : (b.withSelects fun _ => True).AllowsAreas := ⟨hareas hgrids, fun _ => trivial⟩
      exact insertAreas_stays hallows p₄
    · rw [hmode hgrids] at henabled
      cases henabled
  generalize (if mode.isEnabled then p₄.insertAreas else p₄) = p₅ at h₅
  have hvalues₅ : (b.withSelects fun _ => True).AllowsValues p₅.rules := by
    rw [(h₅ hp₄).rules, hrules₄]
    exact ⟨hvalues.values, hvalues.saving⟩
  have h₆ : p₅.Stays (b.withSelects fun _ => True) ((p₅.sheet.declarations Sheet.rootId).foldl addToValue p₅) :=
    .foldl fun decl _ q hq => q.addToValue_stays decl (by rw [hq]; exact hvalues₅)
  exact ((h₅.trans h₆) hp₄).within

end VendorCss
