import VendorCss.Dialect.Property
import VendorCss.Dialect.Selector
import VendorCss.Dialect.Value
import VendorCss.Plan

/-!
# Rules

A plan is carried out by rules: for each kind of feature the variants to add and the matchers of what is outdated.
`Rules.compile` makes them for one selection of browsers. The conditions of `@supports` need two further sets of rules
for the same table, those for no browser at all and those for the selected browsers that understand `@supports`; a
`Prefixer` holds all three.
-/

namespace VendorCss

/-- A property and the prefixes to write for it. -/
structure PropertyVariants where
  name : Text
  prefixes : List Text
  dialect : PropertyDialect
  deriving Repr, Inhabited

/-- A token of values and the prefixes to write for it. -/
structure ValueVariants where
  /-- The token, such as `flex` for the feature `display-flex`. -/
  token : Text
  prefixes : List Text
  dialect : ValueDialect
  props : List Text
  deriving Repr, Inhabited

/-- A selector and the prefixes to write for it. -/
structure SelectorVariants where
  name : Text
  prefixes : List Text
  dialect : SelectorDialect
  /-- All prefixes that a selector may be spelled with, planned or not. -/
  possible : List Text
  deriving Repr, Inhabited

/-- An at-rule and the prefixes to write for it. -/
structure AtRuleVariants where
  /-- The name without the `@`. -/
  name : Text
  prefixes : List Text
  deriving Repr, Inhabited

/-- A selector that is outdated. -/
structure OutdatedSelector where
  /-- The standard selector. -/
  name : Text
  /-- The outdated spelling. -/
  spelled : Text
  /-- All spellings that vendors may use. -/
  variants : List Text
  deriving Repr, Inhabited

/-- Everything that carries out the plan for one selection. -/
structure Rules where
  selection : Selection
  options : Options
  plan : PrefixPlan
  selectors : List SelectorVariants
  atRules : List AtRuleVariants
  /-- The prefixes of resolutions. -/
  resolution : Option (List Text)
  properties : List PropertyVariants
  values : List ValueVariants
  outdatedSelectors : List OutdatedSelector
  /-- Names without the `@`. -/
  outdatedAtRules : List Text
  outdatedResolution : Option (List Text)
  outdatedProperties : List Text
  /-- Matchers and the properties that they apply to. -/
  outdatedValues : List (OutdatedValue × List Text)
  deriving Inhabited

namespace SelectorVariants

/-- The variants of a selector, where `vendors` are the prefixes in use. -/
def make (name : Text) (prefixes vendors : List Text) : SelectorVariants :=
  let dialect := SelectorDialect.ofName name
  { name, prefixes, dialect, possible := vendors ++ dialect.extraPrefixes }

/-- The selector for a planned prefix. -/
def prefixed (v : SelectorVariants) (planned : Text) : Text := v.dialect.prefixed v.name planned

/-- A selector uses the name. -/
def accepts (v : SelectorVariants) (selector : Text) : Bool := Selector.uses selector v.name

/-- The spelling of a planned prefix as outdated. -/
def outdated (v : SelectorVariants) (planned : Text) : OutdatedSelector :=
  { name := v.name, spelled := v.prefixed planned, variants := v.possible.map v.prefixed }

end SelectorVariants

namespace OutdatedSelector

/-- The rules after a rule, told by their selectors as far as they are rules, lead over variants to one with the
standard selector; otherwise the author wrote the variant alone. -/
def leadsToStandard (o : OutdatedSelector) : (following : List (Option Text)) → Bool
  | [] | none :: _ => false
  | some selector :: following =>
    if Selector.uses selector o.name then true
    else if o.variants.any fun v => Selector.uses selector v then o.leadsToStandard following
    else false

/-- A rule with this selector, and what follows it, is outdated. -/
def accepts (o : OutdatedSelector) (selector : Text) (following : List (Option Text)) : Bool :=
  Selector.uses selector o.spelled && o.leadsToStandard following

end OutdatedSelector

namespace Rules

/-! ## Making rules -/

/-- The name of an at-rule without the `@`. -/
def bareName (name : Text) : Text := name.dropWhile (· == '@')

/-- A planned name is that of resolutions, which are spelled in media queries. -/
def isResolution (p : PlannedFeature) : Bool := p.record.name = "@resolution"

/-- The planned names of one kind. -/
def ofKind (kind : FeatureKind) (planned : List PlannedFeature) : List PlannedFeature :=
  planned.filter fun p => p.record.kind = kind

/-- The planned at-rules without the resolutions. -/
def plainAtRules (planned : List PlannedFeature) : List PlannedFeature :=
  (ofKind .atRule planned).filter fun p => !isResolution p

/-- The prefixes planned for resolutions. -/
def resolutionOf (planned : List PlannedFeature) : Option (List Text) :=
  ((ofKind .atRule planned).find? isResolution).map PlannedFeature.prefixes

/-- The variants of a planned property. -/
def propertyVariants (p : PlannedFeature) : PropertyVariants :=
  let dialect := PropertyDialect.ofName p.record.name
  { name := p.record.name, prefixes := dialect.written p.prefixes, dialect }

/-- The variants of a planned value. -/
def valueVariants (p : PlannedFeature) : ValueVariants :=
  let dialect := ValueDialect.ofName p.record.name
  { token := dialect.token p.record.name, prefixes := p.prefixes, dialect, props := p.record.feature.props.getD [] }

/-- The outdated names of a planned property. The two early spellings of `align-self` in WebKit are one name, so neither
is outdated while the other is written. -/
def outdatedNames (properties : List PropertyVariants) (p : PlannedFeature) : List Text :=
  let name := p.record.name
  let added := ((properties.find? fun v => v.name == name).map PropertyVariants.prefixes).getD []
  let kept (planned : Text) : Bool :=
    name = "align-self" &&
      ((planned = "-webkit- 2009" && added.contains "-webkit-") ||
        (planned = "-webkit-" && added.contains "-webkit- 2009"))
  (p.prefixes.filter fun planned => !kept planned).flatMap fun planned =>
    (PropertyDialect.ofName name).outdated name planned

/-- The outdated values of a planned value, with the properties that they apply to. -/
def outdatedValuesOf (p : PlannedFeature) : List (OutdatedValue × List Text) :=
  let dialect := ValueDialect.ofName p.record.name
  let token := dialect.token p.record.name
  (p.prefixes.filterMap (dialect.outdated? token)).map (·, p.record.feature.props.getD [])

/-- The rules of a table for the selected browsers. -/
def compile (table : CapabilityTable) (selection : Selection) (options : Options) : Rules :=
  let plan := PrefixPlan.compile table selection options
  let properties := (ofKind .property plan.add).map propertyVariants
  { selection, options, plan, properties,
    selectors :=
      (ofKind .selector plan.add).map fun p => .make p.record.name p.prefixes selection.vendors,
    atRules := (plainAtRules plan.add).map fun p => ⟨bareName p.record.name, p.prefixes⟩,
    resolution := resolutionOf plan.add,
    values := (ofKind .value plan.add).map valueVariants,
    outdatedSelectors :=
      (ofKind .selector plan.remove).flatMap fun p =>
        p.prefixes.map (SelectorVariants.make p.record.name [] selection.vendors).outdated,
    outdatedAtRules :=
      (plainAtRules plan.remove).flatMap fun p => p.prefixes.map (· ++ bareName p.record.name),
    outdatedResolution := resolutionOf plan.remove,
    outdatedProperties := (ofKind .property plan.remove).flatMap (outdatedNames properties),
    outdatedValues := (ofKind .value plan.remove).flatMap outdatedValuesOf }

/-! ## Looking up -/

/-- The variants of a property. -/
def property? (r : Rules) (prop : Text) : Option PropertyVariants := r.properties.find? fun v => v.name == prop

/-- The variants of an at-rule, by its name without the `@`. -/
def atRule? (r : Rules) (name : Text) : Option AtRuleVariants := r.atRules.reverse.find? fun v => v.name == name

/-- A property is outdated. -/
def removes (r : Rules) (prop : Text) : Bool := r.outdatedProperties.contains prop

/-- An at-rule is outdated. -/
def removesAtRule (r : Rules) (name : Text) : Bool := r.outdatedAtRules.contains name

/-- What applies to a property: first what applies to every property, once for each time its properties say so. -/
def applying (props : α → List Text) (prop : Text) (xs : List α) : List α :=
  (xs.flatMap fun x => List.replicate ((props x).count ['*']) x) ++
    xs.filter fun x => (props x).contains prop && !(props x).contains "*"

/-- The tokens that a property may have. -/
def valuesFor (r : Rules) (prop : Text) : List ValueVariants := applying ValueVariants.props prop r.values

/-- The outdated values that a property may have. -/
def outdatedValuesFor (r : Rules) (prop : Text) : List OutdatedValue :=
  (applying Prod.snd prop r.outdatedValues).map Prod.fst

/-- Browsers are selected and none of them needs a prefix. -/
def needNothing (r : Rules) : Bool := !r.selection.targets.isEmpty && r.plan.addsNothing

end Rules

/-- The rules of a plan together with those for the conditions of `@supports`. -/
structure Prefixer where
  rules : Rules
  /-- The rules for no browser: whatever has a prefix is outdated. -/
  cleaner : Thunk Rules
  /-- The rules for the selected browsers that understand `@supports`. -/
  aware : Thunk Rules

namespace Prefixer

/-- The prefixer of a table for the selected browsers. -/
def compile (table : CapabilityTable) (selection : Selection) (options : Options) : Prefixer :=
  { rules := Rules.compile table selection options,
    cleaner := Thunk.mk fun _ => Rules.compile table (selection.filter fun _ => false) options,
    aware := Thunk.mk fun _ =>
      Rules.compile table (selection.filter fun t => table.featureQueries.contains t) options }

end Prefixer

end VendorCss
