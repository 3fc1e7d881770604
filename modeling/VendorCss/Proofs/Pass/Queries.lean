import Mathlib.Tactic.SplitIfs
import VendorCss.Prefixing
import VendorCss.Report

/-!
# Queries have no effect on a pass

Rules keep the options that they were compiled with, queries included, though the queries did their work when they
selected the browsers. `asking` gives rules other queries. Every step of a pass does the same for rules that ask
differently: it commutes with `Pass.asking`. A stylesheet is therefore processed alike, and reported on alike, by the
rules of all queries that select the same browsers.
-/

namespace VendorCss

/-- The rules with other queries. -/
def Rules.asking (queries : List Text) (r : Rules) : Rules :=
  { r with options := { r.options with browsers := queries } }

/-- The pass with rules that have other queries. -/
def Pass.asking (queries : List Text) (p : Pass) : Pass := { p with rules := p.rules.asking queries }

/-- The prefixer with rules that have other queries. -/
def Prefixer.asking (queries : List Text) (x : Prefixer) : Prefixer :=
  { rules := x.rules.asking queries,
    cleaner := x.cleaner.map (Rules.asking queries),
    aware := x.aware.map (Rules.asking queries) }

section

variable (queries : List Text)

/-! ## What rules say

The equations in parentheses are no definitional ones to the simplifier, which so keeps the instances of conditions in
step with them.
-/

namespace Rules

variable (r : Rules)

@[simp] theorem selection_asking : (r.asking queries).selection = r.selection := (rfl)

@[simp] theorem plan_asking : (r.asking queries).plan = r.plan := (rfl)

@[simp] theorem selectors_asking : (r.asking queries).selectors = r.selectors := (rfl)

@[simp] theorem resolution_asking : (r.asking queries).resolution = r.resolution := (rfl)

@[simp] theorem outdatedSelectors_asking : (r.asking queries).outdatedSelectors = r.outdatedSelectors := (rfl)

@[simp] theorem outdatedResolution_asking : (r.asking queries).outdatedResolution = r.outdatedResolution := (rfl)

@[simp] theorem flexbox_asking : (r.asking queries).options.flexbox = r.options.flexbox := (rfl)

@[simp] theorem grid_asking : (r.asking queries).options.grid = r.options.grid := (rfl)

@[simp] theorem supports_asking : (r.asking queries).options.supports = r.options.supports := (rfl)

@[simp] theorem cascade_asking : (r.asking queries).options.cascade = r.options.cascade := (rfl)

@[simp] theorem property?_asking (prop : Text) : (r.asking queries).property? prop = r.property? prop := (rfl)

@[simp] theorem atRule?_asking (name : Text) : (r.asking queries).atRule? name = r.atRule? name := (rfl)

@[simp] theorem removes_asking (prop : Text) : (r.asking queries).removes prop = r.removes prop := (rfl)

@[simp] theorem removesAtRule_asking (name : Text) : (r.asking queries).removesAtRule name = r.removesAtRule name := (rfl)

@[simp] theorem valuesFor_asking (prop : Text) : (r.asking queries).valuesFor prop = r.valuesFor prop := (rfl)

@[simp] theorem outdatedValuesFor_asking (prop : Text) :
    (r.asking queries).outdatedValuesFor prop = r.outdatedValuesFor prop := (rfl)

end Rules

/-! ## What a pass finds out -/

namespace Pass

variable (p : Pass)

@[simp] theorem rules_asking : (p.asking queries).rules = p.rules.asking queries := (rfl)

@[simp] theorem sheet_asking : (p.asking queries).sheet = p.sheet := (rfl)

@[simp] theorem memory_asking : (p.asking queries).memory = p.memory := (rfl)

@[simp] theorem withSheet_asking (s : Sheet) : (p.asking queries).withSheet s = (p.withSheet s).asking queries := (rfl)

@[simp] theorem edit_asking (f : Sheet → Sheet) : (p.asking queries).edit f = (p.edit f).asking queries := (rfl)

@[simp] theorem warnAbout_asking (id : Nat) (message : Text) (word : Option Text) :
    (p.asking queries).warnAbout id message word = (p.warnAbout id message word).asking queries := (rfl)

@[simp] theorem warn_asking (id : Nat) (message : Text) :
    (p.asking queries).warn id message = (p.warn id message).asking queries := (rfl)

theorem ite_asking (c : Prop) [Decidable c] (p p' : Pass) :
    (if c then p.asking queries else p'.asking queries) = (if c then p else p').asking queries :=
  (apply_ite (asking queries) c p p').symm

theorem foldl_warn_asking (message : Text) (ids : List Nat) :
    ids.foldl (fun p i => p.warn i message) (p.asking queries) =
      (ids.foldl (fun p i => p.warn i message) p).asking queries :=
  List.foldl_hom (asking queries) fun _ _ => rfl

theorem scopeAlong_asking (chain : List Nat) :
    scopeAlong chain (p.asking queries) = ((scopeAlong chain p).1, (scopeAlong chain p).2.asking queries) := by
  induction chain generalizing p with
  | nil => rfl
  | cons id above ih =>
    simp only [scopeAlong, memory_asking, sheet_asking]
    cases p.memory.scope.get? id with
    | some known => rfl
    | none =>
      cases (p.sheet.node? id).map ownScope with
      | none => rfl
      | some own =>
        cases own with
        | some own => rfl
        | none =>
          simp only [ih]
          rfl

@[simp] theorem scope_asking (id : Nat) :
    (p.asking queries).scope id = ((p.scope id).1, (p.scope id).2.asking queries) :=
  scopeAlong_asking queries p _

theorem isPlain_asking (r : Rules) : isPlain (r.asking queries) = isPlain r := (rfl)

theorem membersAbove_asking (r : Rules) (standard : Text) (ds : List (Nat × Declaration)) :
    membersAbove (r.asking queries) standard ds = membersAbove r standard ds := by
  induction ds with
  | nil => rfl
  | cons d ds ih => simp only [membersAbove, isPlain_asking, ih]

theorem membersBelow_asking (r : Rules) (standard : Text) (ds : List (Nat × Declaration)) :
    membersBelow (r.asking queries) standard ds = membersBelow r standard ds := by
  induction ds with
  | nil => rfl
  | cons d ds ih => simp only [membersBelow, isPlain_asking, ih]

@[simp] theorem groupAbove_asking (decl : Nat) : (p.asking queries).groupAbove decl = p.groupAbove decl := by
  simp only [groupAbove, sheet_asking, rules_asking, membersAbove_asking]

@[simp] theorem groupBelow_asking (decl : Nat) : (p.asking queries).groupBelow decl = p.groupBelow decl := by
  simp only [groupBelow, sheet_asking, rules_asking, membersBelow_asking]

@[simp] theorem groupHas_asking (decl : Nat) (prop : Text) :
    (p.asking queries).groupHas decl prop = p.groupHas decl prop := by
  simp only [groupHas, groupAbove_asking, groupBelow_asking]

@[simp] theorem someSibling_asking (decl : Nat) (test : Declaration → Bool) :
    (p.asking queries).someSibling decl test = p.someSibling decl test := (rfl)

@[simp] theorem hasSibling_asking (decl : Nat) (prop : Text) :
    (p.asking queries).hasSibling decl prop = p.hasSibling decl prop := (rfl)

/-! ## Where a pass does nothing -/

@[simp] theorem learnDisabled_asking (id : Nat) (value : Bool) :
    (p.asking queries).learnDisabled id value = (p.learnDisabled id value).asking queries := (rfl)

@[simp] theorem learnGrid_asking (id : Nat) (mode : GridMode) :
    (p.asking queries).learnGrid id mode = (p.learnGrid id mode).asking queries := (rfl)

theorem disabledAlong_asking (chain : List Nat) :
    disabledAlong chain (p.asking queries) =
      ((disabledAlong chain p).1, (disabledAlong chain p).2.asking queries) := by
  induction chain generalizing p with
  | nil => rfl
  | cons id above ih =>
    simp only [disabledAlong, memory_asking, sheet_asking]
    cases p.memory.disabled.get? id with
    | some known => rfl
    | none =>
      simp only [foldl_warn_asking]
      split_ifs
      · rfl
      · cases (switchIn p.sheet id Control.isSwitch).1 with
        | some comment => rfl
        | none =>
          cases above with
          | nil => rfl
          | cons parent above =>
            simp only [ih]
            rfl

@[simp] theorem disabled_asking (id : Nat) :
    (p.asking queries).disabled id = ((p.disabled id).1, (p.disabled id).2.asking queries) :=
  disabledAlong_asking queries p _

theorem gridModeAlong_asking (chain : List Nat) :
    gridModeAlong chain (p.asking queries) =
      ((gridModeAlong chain p).1, (gridModeAlong chain p).2.asking queries) := by
  induction chain generalizing p with
  | nil => rfl
  | cons id above ih =>
    simp only [gridModeAlong, memory_asking, sheet_asking]
    cases p.memory.grid.get? id with
    | some known => rfl
    | none =>
      simp only [foldl_warn_asking, sheet_asking]
      split_ifs
      · rfl
      · cases (switchIn p.sheet id Control.isGridSwitch).1 with
        | some comment => rfl
        | none =>
          cases above with
          | nil => rfl
          | cons parent above =>
            simp only [ih]
            rfl

@[simp] theorem gridMode_asking (id : Nat) :
    (p.asking queries).gridMode id = ((p.gridMode id).1, (p.gridMode id).2.asking queries) :=
  gridModeAlong_asking queries p _

@[simp] theorem skipsDeclaration_asking (decl : Nat) :
    (p.asking queries).skipsDeclaration decl =
      ((p.skipsDeclaration decl).1, (p.skipsDeclaration decl).2.asking queries) := by
  unfold skipsDeclaration
  rw [sheet_asking]
  cases p.sheet.declaration? decl with
  | none => rw [disabled_asking]
  | some d =>
    simp only [gridMode_asking, rules_asking, Rules.flexbox_asking, disabled_asking]
    split_ifs <;> rfl

@[simp] theorem skipsValue_asking (decl : Nat) :
    (p.asking queries).skipsValue decl = ((p.skipsValue decl).1, (p.skipsValue decl).2.asking queries) := by
  unfold skipsValue
  rw [sheet_asking]
  cases p.sheet.declaration? decl with
  | none => rw [disabled_asking]
  | some d =>
    simp only [gridMode_asking, rules_asking, Rules.flexbox_asking, disabled_asking]
    split_ifs <;> rfl

/-! ## Copies of declarations -/

@[simp] theorem needsCascade_asking (decl : Nat) : (p.asking queries).needsCascade decl = p.needsCascade decl := (rfl)

@[simp] theorem widest_asking (decl : Nat) (prefixes : List Text) :
    (p.asking queries).widest decl prefixes =
      ((p.widest decl prefixes).1, (p.widest decl prefixes).2.asking queries) := by
  simp only [widest, memory_asking]
  cases p.memory.widest.get? decl <;> rfl

@[simp] theorem indentation_asking (decl : Nat) (planned : Text) (prefixes : List Text) :
    (p.asking queries).indentation decl planned prefixes =
      ((p.indentation decl planned prefixes).1, (p.indentation decl planned prefixes).2.asking queries) := by
  simp only [indentation, widest_asking, sheet_asking]

@[simp] theorem restoreIndentation_asking (decl : Nat) :
    (p.asking queries).restoreIndentation decl = (p.restoreIndentation decl).asking queries := by
  simp only [restoreIndentation, sheet_asking, groupAbove_asking, edit_asking]

@[simp] theorem alignWithCopies_asking (decl : Nat) (prefixes : List Text) :
    (p.asking queries).alignWithCopies decl prefixes = (p.alignWithCopies decl prefixes).asking queries := by
  simp only [alignWithCopies, needsCascade_asking, restoreIndentation_asking, indentation_asking, edit_asking]
  split_ifs <;> rfl

@[simp] theorem insertCopy_asking (dialect : PropertyDialect) (decl : Nat) (planned : Text) (prefixes : List Text) :
    (p.asking queries).insertCopy dialect decl planned prefixes =
      ((p.insertCopy dialect decl planned prefixes).1, (p.insertCopy dialect decl planned prefixes).2.asking queries) := by
  simp only [insertCopy, sheet_asking, needsCascade_asking, indentation_asking, edit_asking]
  split
  · split_ifs <;> rfl
  · rfl

@[simp] theorem insertVariant_asking (decl : Nat) (prop value planned : Text) (prefixes : List Text) :
    (p.asking queries).insertVariant decl prop value planned prefixes =
      ((p.insertVariant decl prop value planned prefixes).1,
        (p.insertVariant decl prop value planned prefixes).2.asking queries) := by
  simp only [insertVariant, sheet_asking, needsCascade_asking, indentation_asking, edit_asking]
  split_ifs <;> rfl

@[simp] theorem insertPlain_asking (decl : Nat) (prop value : Text) :
    (p.asking queries).insertPlain decl prop value = (p.insertPlain decl prop value).asking queries := (rfl)

/-! ## Grids in the first draft -/

@[simp] theorem insertKeyword_asking (decl : Nat) (prop value : Text) :
    (p.asking queries).insertKeyword decl prop value = (p.insertKeyword decl prop value).asking queries := by
  simp only [insertKeyword, sheet_asking, hasSibling_asking, insertPlain_asking]
  split_ifs <;> rfl

@[simp] theorem insertLine_asking (decl : Nat) (prop : Text) (value : Option Int) :
    (p.asking queries).insertLine decl prop value = (p.insertLine decl prop value).asking queries := by
  cases value with
  | none => rfl
  | some n =>
    simp only [insertLine, insertKeyword_asking]
    split_ifs <;> rfl

@[simp] theorem insertEnd_asking (decl : Nat) (d : Declaration) :
    (p.asking queries).insertEnd decl d = (p.insertEnd decl d).asking queries := by
  have hlast : ∀ prop, (p.asking queries).lastValue? decl prop = p.lastValue? decl prop := fun _ => rfl
  simp only [insertEnd, hasSibling_asking, insertPlain_asking, warn_asking, hlast]
  split_ifs
  · rfl
  · rfl
  · cases p.lastValue? decl ((Text.dropEnd? "end" d.prop).getD d.prop ++ "start".toList) with
    | none => rfl
    | some start =>
      dsimp only
      split <;> rfl

@[simp] theorem insertRowColumn_asking (decl : Nat) (d : Declaration) :
    (p.asking queries).insertRowColumn decl d = (p.insertRowColumn decl d).asking queries := by
  simp only [insertRowColumn, insertLine_asking]

@[simp] theorem insertPlaceSelf_asking (decl : Nat) (d : Declaration) :
    (p.asking queries).insertPlaceSelf decl d = (p.insertPlaceSelf decl d).asking queries := by
  simp only [insertPlaceSelf, hasSibling_asking, insertKeyword_asking]
  split_ifs <;> rfl

@[simp] theorem warnTemplateNotFound_asking (decl : Nat) (d : Declaration) :
    (p.asking queries).warnTemplateNotFound decl d = (p.warnTemplateNotFound decl d).asking queries := by
  simp only [warnTemplateNotFound, sheet_asking, warn_asking]
  split_ifs <;> rfl

@[simp] theorem warnRowColumnBeside_asking (decl : Nat) :
    (p.asking queries).warnRowColumnBeside decl = (p.warnRowColumnBeside decl).asking queries := by
  unfold warnRowColumnBeside
  rw [sheet_asking]
  cases p.sheet.parent? decl with
  | none => rfl
  | some rule => exact List.foldl_hom (asking queries) fun _ _ => rfl

@[simp] theorem insertArea_asking (decl : Nat) (d : Declaration) :
    (p.asking queries).insertArea decl d = (p.insertArea decl d).asking queries := by
  simp only [insertArea, insertLine_asking, warnTemplateNotFound_asking, warnRowColumnBeside_asking]

@[simp] theorem warnGap_asking (decl : Nat) (gap : Grid.Gap) (hasColumns : Bool) :
    (p.asking queries).warnGap decl gap hasColumns =
      ((p.warnGap decl gap hasColumns).1, (p.warnGap decl gap hasColumns).2.asking queries) := by
  simp only [warnGap, warn_asking]
  split_ifs <;> rfl

@[simp] theorem warnMissedAreas_asking (decl : Nat) (areas : Grid.Areas) :
    (p.asking queries).warnMissedAreas decl areas = (p.warnMissedAreas decl areas).asking queries := by
  simp only [warnMissedAreas, sheet_asking, warn_asking]
  split_ifs <;> rfl

@[simp] theorem insertTemplate_asking (decl : Nat) (d : Declaration) :
    (p.asking queries).insertTemplate decl d =
      ((p.insertTemplate decl d).1, (p.insertTemplate decl d).2.asking queries) := by
  simp only [insertTemplate, hasSibling_asking, sheet_asking, warnGap_asking, warnMissedAreas_asking,
    insertPlain_asking]
  split_ifs <;> rfl

theorem insertRowsBefore_asking (gap : Grid.Gap) (decl : Nat) :
    insertRowsBefore gap (p.asking queries) decl = (insertRowsBefore gap p decl).asking queries := by
  unfold insertRowsBefore
  rw [sheet_asking]
  cases p.sheet.declaration? decl with
  | none => rfl
  | some d =>
    simp only [insertPlain_asking]
    split_ifs <;> rfl

@[simp] theorem insertTemplateAreas_asking (decl : Nat) (d : Declaration) :
    (p.asking queries).insertTemplateAreas decl d =
      ((p.insertTemplateAreas decl d).1, (p.insertTemplateAreas decl d).2.asking queries) := by
  unfold insertTemplateAreas
  rw [sheet_asking]
  cases p.sheet.parent? decl with
  | none => rfl
  | some rule =>
    simp only [edit_asking, sheet_asking, insertPlain_asking,
      List.foldl_hom (asking queries) fun p i => insertRowsBefore_asking queries p _ i]
    split_ifs <;> simp only [warnGap_asking, warnMissedAreas_asking]

@[simp] theorem insertCells_asking (decl : Nat) (d : Declaration) (gap : Grid.Gap) (flow : Text) :
    (p.asking queries).insertCells decl d gap flow = (p.insertCells decl d gap flow).asking queries := by
  unfold insertCells
  simp only [sheet_asking, edit_asking]
  cases p.sheet.parent? decl with
  | none => rfl
  | some rule =>
    dsimp only
    generalize (p.sheet.findDeclaration? rule "grid-template-rows").bind p.sheet.declaration? = rows
    cases p.sheet.node? rule <;> cases p.sheet.selector? rule <;> cases rows <;> rfl

@[simp] theorem autoplace_asking (decl : Nat) (d : Declaration) (hasTemplate : Bool) (gap : Grid.Gap) (flow : Text) :
    (p.asking queries).autoplace decl d hasTemplate gap flow = (p.autoplace decl d hasTemplate gap flow).asking queries := by
  simp only [autoplace, hasSibling_asking, warn_asking]
  split_ifs <;> simp only [insertCells_asking]

@[simp] theorem autoFlow_asking (rule : Nat) :
    (p.asking queries).autoFlow rule = ((p.autoFlow rule).1, (p.autoFlow rule).2.asking queries) := by
  unfold autoFlow
  rw [sheet_asking]
  cases p.sheet.findDeclaration? rule "grid-auto-flow" with
  | none => rfl
  | some flow => simp only [disabled_asking, sheet_asking]

@[simp] theorem insertTracks_asking (decl : Nat) (d : Declaration) :
    (p.asking queries).insertTracks decl d = (p.insertTracks decl d).asking queries := by
  unfold insertTracks
  rw [sheet_asking]
  cases p.sheet.parent? decl with
  | none => rfl
  | some rule =>
    simp only [hasSibling_asking, gridMode_asking, sheet_asking, insertPlain_asking, autoFlow_asking, autoplace_asking]
    split_ifs <;> rfl

/-! ## Variants of declarations -/

@[simp] theorem insertOrientation_asking (decl : Nat) (keyword planned : Text) (prefixes : List Text) :
    (p.asking queries).insertOrientation decl keyword planned prefixes =
      ((p.insertOrientation decl keyword planned prefixes).1,
        (p.insertOrientation decl keyword planned prefixes).2.asking queries) := by
  simp only [insertOrientation, sheet_asking, hasSibling_asking, insertVariant_asking]
  split_ifs <;> rfl

@[simp] theorem insertMask_asking (decl : Nat) (d : Declaration) (planned : Text) (prefixes : List Text) :
    (p.asking queries).insertMask decl d planned prefixes =
      ((p.insertMask decl d planned prefixes).1, (p.insertMask decl d planned prefixes).2.asking queries) := by
  simp only [insertMask, insertVariant_asking]
  cases Mask.compositeValue? (Mask.keywordsOf d) <;> dsimp only <;> split_ifs <;> rfl

@[simp] theorem insertWritingMode_asking (decl : Nat) (d : Declaration) (planned : Text) (prefixes : List Text) :
    (p.asking queries).insertWritingMode decl d planned prefixes =
      ((p.insertWritingMode decl d planned prefixes).1,
        (p.insertWritingMode decl d planned prefixes).2.asking queries) := by
  unfold insertWritingMode
  simp only [sheet_asking, insertVariant_asking]
  cases p.sheet.parent? decl <;> rfl

@[simp] theorem insertFor_asking (dialect : PropertyDialect) (decl : Nat) (d : Declaration) (planned : Text)
    (prefixes : List Text) :
    (p.asking queries).insertFor dialect decl d planned prefixes =
      ((p.insertFor dialect decl d planned prefixes).1,
        (p.insertFor dialect decl d planned prefixes).2.asking queries) := by
  unfold insertFor
  simp only [insertOrientation_asking, insertMask_asking, insertWritingMode_asking, insertEnd_asking,
    insertRowColumn_asking, insertArea_asking, insertPlaceSelf_asking, insertTracks_asking, insertTemplate_asking,
    insertTemplateAreas_asking, sheet_asking, insertCopy_asking]
  split
  · cases flowDirection? d.value <;> rfl
  all_goals first | rfl | (split_ifs <;> rfl)

end Pass

namespace PropertyVariants

variable (v : PropertyVariants) (p : Pass)

@[simp] theorem addVariant_asking (decl : Nat) (planned : Text) (prefixes : List Text) :
    v.addVariant (p.asking queries) decl planned prefixes =
      ((v.addVariant p decl planned prefixes).1, (v.addVariant p decl planned prefixes).2.asking queries) := by
  unfold addVariant
  rw [Pass.sheet_asking]
  cases p.sheet.declaration? decl with
  | none => rfl
  | some d =>
    simp only [Pass.groupHas_asking, Pass.insertFor_asking]
    split_ifs <;> rfl

theorem addVariants_asking (decl : Nat) (prefixes written : List Text) :
    v.addVariants decl prefixes written (p.asking queries) =
      ((v.addVariants decl prefixes written p).1, (v.addVariants decl prefixes written p).2.asking queries) := by
  induction prefixes generalizing written p with
  | nil => rfl
  | cons planned prefixes ih => simp only [addVariants, addVariant_asking, ih]

theorem process_asking (decl : Nat) : v.process (p.asking queries) decl = (v.process p decl).asking queries := by
  simp only [process, Pass.sheet_asking, Pass.scope_asking, addVariants_asking, Pass.alignWithCopies_asking]
  split_ifs <;> rfl

end PropertyVariants

namespace SelectorVariants

variable (v : SelectorVariants) (p : Pass)

theorem addVariant_asking (rule : Nat) (planned : Text) :
    v.addVariant (p.asking queries) rule planned = (v.addVariant p rule planned).asking queries := by
  unfold addVariant
  simp only [Pass.sheet_asking, Pass.edit_asking]
  cases p.sheet.selector? rule with
  | none => rfl
  | some selector =>
    dsimp only
    split_ifs
    · rfl
    · split <;> rfl

theorem process_asking (rule : Nat) : v.process (p.asking queries) rule = (v.process p rule).asking queries := by
  simp only [process, Pass.sheet_asking, Pass.scope_asking]
  split_ifs
  · exact List.foldl_hom (Pass.asking queries) fun p planned => v.addVariant_asking queries p rule planned
  · rfl

end SelectorVariants

namespace AtRuleVariants

theorem addVariant_asking (p : Pass) (rule : Nat) (planned : Text) :
    addVariant (p.asking queries) rule planned = (addVariant p rule planned).asking queries := by
  simp only [addVariant, Pass.sheet_asking, Pass.edit_asking]
  split
  · split_ifs <;> rfl
  · rfl

theorem process_asking (v : AtRuleVariants) (p : Pass) (rule : Nat) :
    v.process (p.asking queries) rule = (v.process p rule).asking queries := by
  simp only [process, Pass.scope_asking]
  exact List.foldl_hom (Pass.asking queries) fun p planned => addVariant_asking queries p rule planned

end AtRuleVariants

namespace ValueVariants

variable (v : ValueVariants) (p : Pass)

theorem spellFor_asking (decl : Nat) (planned : Text) :
    v.spellFor decl (p.asking queries) planned = (v.spellFor decl p planned).asking queries := by
  unfold spellFor
  rw [Pass.sheet_asking]
  cases p.sheet.declaration? decl with
  | none => rfl
  | some d =>
    have hvalues : (p.asking queries).spelledValues decl = p.spelledValues decl := rfl
    simp only [hvalues]
    split_ifs
    · split <;> rfl
    · rfl

theorem process_asking (decl : Nat) : v.process (p.asking queries) decl = (v.process p decl).asking queries := by
  simp only [process, Pass.sheet_asking, Pass.scope_asking]
  split_ifs
  · exact List.foldl_hom (Pass.asking queries) fun p planned => v.spellFor_asking queries p decl planned
  · rfl

end ValueVariants

namespace Pass

variable (p : Pass)

theorem saveValue_asking (decl : Nat) (spelled : Text × Text) :
    saveValue decl (p.asking queries) spelled = (saveValue decl p spelled).asking queries := by
  simp only [saveValue, sheet_asking, edit_asking]
  split
  · split_ifs <;> rfl
  · rfl

@[simp] theorem saveValues_asking (decl : Nat) :
    (p.asking queries).saveValues decl = (p.saveValues decl).asking queries :=
  List.foldl_hom (asking queries) fun p spelled => saveValue_asking queries p decl spelled

/-! ## Named areas -/

theorem placeItems_asking (groups : List Grid.TemplateGroup) (decls : List Nat) (found : AreaPlacements) :
    placeItems groups decls (p.asking queries) found =
      ((placeItems groups decls p found).1.asking queries, (placeItems groups decls p found).2) := by
  induction decls generalizing p found with
  | nil => rfl
  | cons decl decls ih =>
    simp only [placeItems, sheet_asking]
    cases areaItem? p.sheet decl with
    | none => exact ih p found
    | some item =>
      simp only [disabled_asking]
      split_ifs
      · exact ih _ found
      · cases groups.find? fun g => g.names.contains item.area with
        | none => exact ih _ found
        | some g => rfl
      · cases groups.find? fun g => g.names.contains item.area with
        | none => exact ih _ found
        | some g => exact ih ((p.disabled decl).2.placeItem item g ((g.names.getLast?).getD []) found).1 _

@[simp] theorem insertAreas_asking : (p.asking queries).insertAreas = p.insertAreas.asking queries := by
  simp only [insertAreas, sheet_asking, placeItems_asking, edit_asking]
  split_ifs <;> rfl

/-! ## At-rules -/

@[simp] theorem editParams_asking (rule : Nat) (f : Text → Text) :
    (p.asking queries).editParams rule f = (p.editParams rule f).asking queries := by
  simp only [editParams, sheet_asking, edit_asking]
  cases p.sheet.atRule? rule <;> rfl

@[simp] theorem addResolutions_asking (vendors : List Text) (rule : Nat) :
    (p.asking queries).addResolutions vendors rule = (p.addResolutions vendors rule).asking queries := by
  simp only [addResolutions, scope_asking, editParams_asking]

/-! ## Transitions -/

theorem leavesAlone_asking (r : Rules) :
    Transition.leavesAlone (r.asking queries).options = Transition.leavesAlone r.options := rfl

theorem additions_asking (r : Rules) (vendors : Option (List Text)) (es : List Transition.Entry) :
    Transition.additions (r.asking queries) vendors es = Transition.additions r vendors es := by
  simp only [Transition.additions, Transition.prefixedNames, Rules.property?_asking, leavesAlone_asking]

@[simp] theorem insertTransition_asking (decl : Nat) (prop value : Text) :
    (p.asking queries).insertTransition decl prop value = (p.insertTransition decl prop value).asking queries := by
  simp only [insertTransition, someSibling_asking, edit_asking]
  split_ifs <;> rfl

@[simp] theorem warnAssociated_asking (decl : Nat) :
    (p.asking queries).warnAssociated decl = (p.warnAssociated decl).asking queries := by
  have hassociated : hasAssociated (p.rules.asking queries) = hasAssociated p.rules := rfl
  simp only [warnAssociated, sheet_asking, rules_asking, hassociated, warn_asking]
  split
  · split_ifs <;> rfl
  · rfl

theorem insertOther_asking (es : List Transition.Entry) (prop : Text) (decl : Nat) (planned : Text) :
    insertOther es prop decl (p.asking queries) planned = (insertOther es prop decl p planned).asking queries := by
  simp only [insertOther, insertTransition_asking]
  split_ifs <;> rfl

@[simp] theorem addTransitions_asking (decl : Nat) :
    (p.asking queries).addTransitions decl = (p.addTransitions decl).asking queries := by
  have hvendors : (p.asking queries).ruleVendors? decl = p.ruleVendors? decl := rfl
  unfold addTransitions
  rw [sheet_asking]
  cases p.sheet.declaration? decl with
  | none => rfl
  | some d =>
    simp only [hvendors, rules_asking, Rules.property?_asking, additions_asking, insertTransition_asking, ite_asking,
      List.foldl_hom (asking queries) fun p planned => insertOther_asking queries p _ d.prop decl planned, someSibling_asking,
      warnAssociated_asking, edit_asking]

@[simp] theorem removeTransitions_asking (decl : Nat) :
    (p.asking queries).removeTransitions decl = (p.removeTransitions decl).asking queries := by
  unfold removeTransitions
  simp only [sheet_asking, rules_asking, Rules.removes_asking, edit_asking]
  cases p.sheet.declaration? decl with
  | none => rfl
  | some d =>
    dsimp only
    split_ifs
    · rfl
    · rfl
    · cases p.sheet.parent? decl with
      | none => rfl
      | some rule => simp only [ite_asking]

/-! ## Taking outdated prefixes away -/

theorem cleanAtRule_asking (rule : Nat) :
    (p.asking queries).cleanAtRule rule = (p.cleanAtRule rule).asking queries := by
  unfold cleanAtRule
  rw [sheet_asking]
  cases p.sheet.atRule? rule with
  | none => rfl
  | some r =>
    simp only [rules_asking, Rules.removesAtRule_asking, disabled_asking, edit_asking, ite_asking,
      Rules.outdatedResolution_asking, dropResolutions, editParams_asking]
    cases p.rules.outdatedResolution <;> simp only [ite_asking]

theorem cleanRules_asking (o : OutdatedSelector) :
    (p.asking queries).cleanRules o = (p.cleanRules o).asking queries := by
  refine List.foldl_hom (asking queries) fun p rule => ?_
  simp only [cleanRule, sheet_asking, disabled_asking, edit_asking, ite_asking]

theorem reduceIndentation_asking (decl : Nat) :
    (p.asking queries).reduceIndentation decl = (p.reduceIndentation decl).asking queries := by
  simp only [reduceIndentation, groupAbove_asking, sheet_asking, groupBelow_asking, edit_asking, ite_asking]

@[simp] theorem goesOnWith_asking (decl : Nat) (standard : Text) :
    (p.asking queries).goesOnWith decl standard = p.goesOnWith decl standard := by
  simp only [goesOnWith, groupBelow_asking]

theorem cleanProperty_asking (decl : Nat) (d : Declaration) :
    (p.asking queries).cleanProperty decl d =
      ((p.cleanProperty decl d).1, (p.cleanProperty decl d).2.asking queries) := by
  simp only [cleanProperty, rules_asking, Rules.removes_asking, hasSibling_asking, goesOnWith_asking, sheet_asking,
    reduceIndentation_asking, ite_asking, edit_asking]
  split_ifs <;> rfl

theorem cleanValue_asking (decl : Nat) (d : Declaration) :
    (p.asking queries).cleanValue decl d = (p.cleanValue decl d).asking queries := by
  simp only [cleanValue, rules_asking, Rules.outdatedValuesFor_asking, groupBelow_asking, edit_asking, ite_asking]

theorem cleanDeclaration_asking (decl : Nat) :
    (p.asking queries).cleanDeclaration decl = (p.cleanDeclaration decl).asking queries := by
  unfold cleanDeclaration
  simp only [disabled_asking, sheet_asking]
  cases (p.disabled decl).2.sheet.declaration? decl with
  | none => simp only [ite_asking]
  | some d => simp only [removeTransitions_asking, ite_asking, cleanProperty_asking, cleanValue_asking]

theorem removeOutdated_asking : (p.asking queries).removeOutdated = p.removeOutdated.asking queries := by
  simp only [removeOutdated, sheet_asking, List.foldl_hom (asking queries) fun p => cleanAtRule_asking queries p, rules_asking,
    Rules.outdatedSelectors_asking, List.foldl_hom (asking queries) fun p => cleanRules_asking queries p,
    List.foldl_hom (asking queries) fun p => cleanDeclaration_asking queries p]

end Pass

/-! ## Conditions of `@supports` -/

namespace Supports

theorem addValues_asking (prop : Text) (p : Pass) (decl : Nat) :
    addValues prop (p.asking queries) decl = (addValues prop p decl).asking queries := by
  have hprocess (vs : List ValueVariants) : vs.foldl (fun p v => v.process p decl) (p.asking queries) =
      (vs.foldl (fun p v => v.process p decl) p).asking queries :=
    List.foldl_hom (Pass.asking queries) fun p v => v.process_asking queries p decl
  simp only [addValues, Pass.rules_asking, Rules.valuesFor_asking, hprocess, Pass.saveValues_asking]

theorem isOutdated_asking (r : Rules) : isOutdated (r.asking queries) = isOutdated r := rfl

/-- A declaration alone in a rule is prefixed alike. -/
theorem declarationsFor_asking (r : Rules) (prop value : Text) :
    declarationsFor (r.asking queries) prop value = declarationsFor r prop value := by
  simp only [declarationsFor]
  cases (Sheet.parse ['a', '\x7b', '\x7d']).firstChild? Sheet.rootId with
  | none => rfl
  | some rule =>
    have hstart : ∀ s : Sheet, ({ rules := r.asking queries, sheet := s } : Pass) =
        ({ rules := r, sheet := s } : Pass).asking queries := fun _ => rfl
    simp only [hstart, Rules.property?_asking]
    cases r.property? prop with
    | none => simp only [Pass.sheet_asking, List.foldl_hom (Pass.asking queries) fun p => addValues_asking queries prop p]
    | some v =>
      simp only [v.process_asking, Pass.sheet_asking, List.foldl_hom (Pass.asking queries) fun p =>
        addValues_asking queries prop p]

theorem alternatives_asking (r : Rules) : alternatives (r.asking queries) = alternatives r := by
  have hleft : isLeftAlone (r.asking queries).options = isLeftAlone r.options := rfl
  funext condition
  simp only [alternatives, hleft, declarationsFor_asking]

theorem update_asking (x : Prefixer) (params : Text) : update (x.asking queries) params = update x params := by
  have hcleaner : (x.asking queries).cleaner.get = x.cleaner.get.asking queries := rfl
  have haware : (x.asking queries).aware.get = x.aware.get.asking queries := rfl
  simp only [update, hcleaner, isOutdated_asking, haware, alternatives_asking]

end Supports

/-! ## Adding prefixes -/

namespace Pass

variable (p : Pass) (x : Prefixer)

theorem addToAtRule_asking (rule : Nat) :
    addToAtRule (x.asking queries) (p.asking queries) rule = (addToAtRule x p rule).asking queries := by
  unfold addToAtRule
  rw [sheet_asking]
  cases p.sheet.atRule? rule with
  | none => rfl
  | some r =>
    simp only [disabled_asking, rules_asking, Rules.atRule?_asking, Rules.supports_asking, processSupports, sheet_asking,
      Supports.update_asking, edit_asking, Rules.resolution_asking, addResolutions_asking]
    split_ifs
    · rfl
    · cases (p.disabled rule).2.rules.atRule? r.name with
      | none => rfl
      | some v => exact v.process_asking queries _ rule
    · rfl
    · cases (p.disabled rule).2.sheet.atRule? rule <;> rfl
    · rfl
    · rfl
    · cases (p.disabled rule).2.rules.resolution <;> rfl
    · rfl

theorem addToRule_asking (rule : Nat) : (p.asking queries).addToRule rule = (p.addToRule rule).asking queries := by
  have hprocess (p : Pass) (vs : List SelectorVariants) : vs.foldl (fun p v => v.process p rule) (p.asking queries) =
      (vs.foldl (fun p v => v.process p rule) p).asking queries :=
    List.foldl_hom (asking queries) fun p v => v.process_asking queries p rule
  simp only [addToRule, disabled_asking, rules_asking, Rules.selectors_asking, hprocess, ite_asking]

@[simp] theorem raise_asking (decl : Nat) (a : Advice) :
    (p.asking queries).raise decl a = (p.raise decl a).asking queries :=
  List.foldl_hom (asking queries) fun _ _ => rfl

@[simp] theorem addVariantsOf_asking (decl : Nat) (prop : Text) :
    (p.asking queries).addVariantsOf decl prop = (p.addVariantsOf decl prop).asking queries := by
  simp only [addVariantsOf, rules_asking, Rules.property?_asking]
  cases p.rules.property? prop with
  | none => rfl
  | some v => exact v.process_asking queries p decl

@[simp] theorem addGridVariantsOf_asking (decl : Nat) (prop : Text) :
    (p.asking queries).addGridVariantsOf decl prop = (p.addGridVariantsOf decl prop).asking queries := by
  simp only [addGridVariantsOf, gridMode_asking, addVariantsOf_asking, ite_asking]

theorem addByProperty_asking (decl : Nat) (prop : Text) :
    (p.asking queries).addByProperty decl prop = (p.addByProperty decl prop).asking queries := by
  have hgrid : (p.asking queries).isInGrid decl = p.isInGrid decl := rfl
  simp only [addByProperty, hgrid, rules_asking, Rules.flexbox_asking, addVariantsOf_asking, ite_asking,
    addGridVariantsOf_asking]

theorem addToDeclaration_asking (grids : Bool) (decl : Nat) :
    addToDeclaration grids (p.asking queries) decl = (addToDeclaration grids p decl).asking queries := by
  have hadvice : ∀ (p : Pass) d grid, (p.asking queries).adviceOn decl d grid = p.adviceOn decl d grid :=
    fun _ _ _ => rfl
  unfold addToDeclaration
  simp only [skipsDeclaration_asking, sheet_asking]
  cases (p.skipsDeclaration decl).2.sheet.declaration? decl with
  | none => rfl
  | some d =>
    simp only [gridMode_asking, hadvice, raise_asking, addTransitions_asking, ite_asking, addByProperty_asking]

theorem addToValue_asking (decl : Nat) : (p.asking queries).addToValue decl = (p.addToValue decl).asking queries := by
  unfold addToValue
  simp only [skipsValue_asking, sheet_asking]
  cases (p.skipsValue decl).2.sheet.declaration? decl with
  | none => rfl
  | some d => simp only [Supports.addValues_asking, ite_asking]

theorem addMissing_asking : (p.asking queries).addMissing (x.asking queries) = (p.addMissing x).asking queries := by
  have hatRules (p : Pass) (ids : List Nat) : ids.foldl (addToAtRule (x.asking queries)) (p.asking queries) =
      (ids.foldl (addToAtRule x) p).asking queries :=
    List.foldl_hom (asking queries) fun p => addToAtRule_asking queries p x
  have hrules (p : Pass) (ids : List Nat) : ids.foldl addToRule (p.asking queries) =
      (ids.foldl addToRule p).asking queries :=
    List.foldl_hom (asking queries) fun p => addToRule_asking queries p
  have hdeclarations (grids : Bool) (p : Pass) (ids : List Nat) :
      ids.foldl (addToDeclaration grids) (p.asking queries) = (ids.foldl (addToDeclaration grids) p).asking queries :=
    List.foldl_hom (asking queries) fun p => addToDeclaration_asking queries p grids
  have hvalues (p : Pass) (ids : List Nat) : ids.foldl addToValue (p.asking queries) =
      (ids.foldl addToValue p).asking queries :=
    List.foldl_hom (asking queries) fun p => addToValue_asking queries p
  simp only [addMissing, sheet_asking, hatRules, hrules, gridMode_asking, rules_asking, Rules.property?_asking,
    hdeclarations, insertAreas_asking, ite_asking, hvalues]

end Pass

/-! ## Whole runs -/

namespace Prefixer

variable (x : Prefixer)

theorem run_asking (s : Sheet) : (x.asking queries).run s = (x.run s).asking queries := by
  have hstart : (x.asking queries).start s = (x.start s).asking queries := by
    have hpass : ({ rules := x.rules.asking queries, sheet := s } : Pass) =
        ({ rules := x.rules, sheet := s } : Pass).asking queries := rfl
    have hneed : (x.rules.asking queries).needNothing = x.rules.needNothing := rfl
    simp only [start, asking, hpass, hneed, Pass.warn_asking, Pass.ite_asking]
  have hremove : (x.asking queries).rules.options.remove = x.rules.options.remove := rfl
  have hadd : (x.asking queries).rules.options.add = x.rules.options.add := rfl
  simp only [run, hstart, hremove, Pass.removeOutdated_asking, Pass.ite_asking, hadd, Pass.addMissing_asking]

/-- Queries that select the same browsers have a stylesheet processed alike. -/
theorem processText_asking (css : Text) : (x.asking queries).processText css = x.processText css := by
  simp only [processText, process, run_asking]
  rfl

end Prefixer

/-- Rules are compiled alike for other queries. -/
theorem Prefixer.compile_asking (table : CapabilityTable) (s : Selection) (o : Options) :
    (Prefixer.compile table s o).asking queries = Prefixer.compile table s { o with browsers := queries } := rfl

end

end VendorCss
