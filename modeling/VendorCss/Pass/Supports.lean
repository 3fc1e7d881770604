import VendorCss.Css.Condition
import VendorCss.Css.Sheet.Parser
import VendorCss.Pass.Declaration
import VendorCss.Pass.Value

/-!
# Conditions of `@supports`

A declaration in a condition is replaced by all the declarations that would be written for it, with `or` between them;
what they are is found out by prefixing it alone in a rule, for the browsers that understand `@supports`. Before that,
alternatives that only outdated browsers need are taken away.
-/

namespace VendorCss

namespace Supports

/-- The property and the value of a condition: what stands before the first colon, and up to the second one. -/
def declarationOf (condition : Text) : Text × Text :=
  match Text.pieces ':' condition with
  | prop :: value :: _ => (prop.trim, value.trim)
  | [prop] => (prop.trim, [])
  | [] => ([], [])

/-- Some params test a property: it stands after a blank or a parenthesis, and a colon follows it. -/
def tests (prop : Text) : Text → Bool
  | [] => false
  | c :: t => ((c = '(' || isBlank c) && Text.startsWith t (prop ++ [':'])) || tests prop t

/-- The condition matters to no browser, where `cleaner` are the rules for none: its property is outdated and the
standard one is tested as well, or its value is outdated. -/
def isOutdated (cleaner : Rules) (params condition : Text) : Bool :=
  let (prop, value) := declarationOf condition
  let standard := PropertyName.standard prop
  (cleaner.removes prop && tests standard params) || (cleaner.outdatedValuesFor standard).any fun o => o.accepts value

/-- The options leave a declaration alone. -/
def isLeftAlone (o : Options) (prop value : Text) : Bool :=
  (!o.grid.isEnabled && ((prop = "display" && value.contains "grid") || Pass.isGridProperty prop)) ||
    (o.flexbox = .off && ((prop = "display" && value.contains "flex") || Pass.isFlexProperty prop))

/-- The pass with the values of a declaration spelled and written, by the tokens of a property. -/
def addValues (prop : Text) (p : Pass) (decl : Nat) : Pass :=
  ((p.rules.valuesFor prop).foldl (fun p v => v.process p decl) p).saveValues decl

/-- The declarations that rules write for one that stands alone in a rule. -/
def declarationsFor (r : Rules) (prop value : Text) : List (Text × Text) :=
  let sheet := Sheet.parse ['a', '\x7b', '\x7d']
  match sheet.firstChild? Sheet.rootId with
  | none => [(prop, value)]
  | some rule =>
    let (decl, sheet) := sheet.insert (.appended rule) (.declaration prop value)
    let p : Pass := { rules := r, sheet }
    let p := match r.property? prop with | some v => v.process p decl | none => p
    let p := (p.sheet.childDeclarations rule).foldl (addValues prop) p
    (p.sheet.childDeclarationsOf rule).map fun (_, d) => (d.prop, d.value)

/-- The declarations that stand for a condition. -/
def alternatives (aware : Rules) (condition : Text) : List (Text × Text) :=
  let (prop, value) := declarationOf condition
  if isLeftAlone aware.options prop value then [(prop, value)] else declarationsFor aware prop value

/-- The params of an `@supports` rule updated: alternatives added, outdated ones dropped. -/
def update (prefixer : Prefixer) (params : Text) : Text :=
  let pieces := ConditionPiece.normalize (ConditionPiece.ofText params)
  let pieces := ConditionPiece.dropAlternatives (isOutdated prefixer.cleaner.get params) false pieces
  let pieces := ConditionPiece.addAlternatives (alternatives prefixer.aware.get) pieces
  ConditionPiece.renderAll (ConditionPiece.unwrap pieces)

end Supports

/-- The pass with the params of an `@supports` rule updated. -/
def Pass.processSupports (p : Pass) (prefixer : Prefixer) (rule : Nat) : Pass :=
  match p.sheet.atRule? rule with
  | some r => p.edit fun s => s.setParams rule (Supports.update prefixer r.params)
  | none => p

end VendorCss
