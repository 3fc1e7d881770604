import VendorCss.Pass.Control
import VendorCss.Pass.Copy
import VendorCss.Pass.Resolution
import VendorCss.Pass.Selector
import VendorCss.Pass.Transition

/-!
# Taking outdated prefixes away

Outdated at-rules and rules go with everything inside. An outdated declaration goes only where its group goes on with
the standard property, or with the standard form of its value; an author who wrote a prefixed declaration alone meant
it.
-/

namespace VendorCss.Pass

/-! ## At-rules and rules -/

/-- The pass without an at-rule that is outdated, or without the outdated queries of an `@media` rule. -/
def cleanAtRule (p : Pass) (rule : Nat) : Pass :=
  match p.sheet.atRule? rule with
  | none => p
  | some r =>
    if p.rules.removesAtRule r.name then
      let (off, p) := p.disabled rule
      if off then p else p.edit fun s => s.remove rule
    else if r.name = "media" && r.params.contains "-resolution" then
      match p.rules.outdatedResolution with
      | some vendors => p.dropResolutions vendors rule
      | none => p
    else p

/-- The pass without a rule whose selector is outdated. -/
def cleanRule (o : OutdatedSelector) (p : Pass) (rule : Nat) : Pass :=
  if p.sheet.isOutdatedRule o rule then
    let (off, p) := p.disabled rule
    if off then p else p.edit fun s => s.remove rule
  else p

/-- The pass without the rules that one matcher accepts. -/
def cleanRules (p : Pass) (o : OutdatedSelector) : Pass := (p.sheet.rules Sheet.rootId).foldl (cleanRule o) p

/-! ## Declarations -/

/-- Members below a declaration moved back to where it started: all by as much as the first one that is further in. -/
def shiftBack (start : Nat) : (members : List Nat) → (shift : Option Nat) → Sheet → Sheet
  | [], _, s => s
  | i :: members, shift, s =>
    let before := s.before i
    let line := lastLine before
    if line.length ≤ start then shiftBack start members shift s
    else
      let width := shift.getD (line.length - start)
      shiftBack start members (some width) (s.setBefore i (withLastLine before (line.take (line.length - width))))

/-- The pass with the members below a declaration moved back, if it is the first of its group. -/
def reduceIndentation (p : Pass) (decl : Nat) : Pass :=
  if (p.groupAbove decl).isEmpty then
    p.edit (shiftBack (lastLine (p.sheet.before decl)).length ((p.groupBelow decl).map Prod.fst) none)
  else p

/-- The declaration stands for more than its standard form: WebKit clips a background to text only under this name. -/
def hasNoStandardForm (d : Declaration) : Bool := d.prop = "-webkit-background-clip" && d.value = "text"

/-- The group below a declaration goes on with a standard property. -/
def goesOnWith (p : Pass) (decl : Nat) (standard : Text) : Bool :=
  standard = "flex-flow" || (p.groupBelow decl).any fun (_, d) => PropertyName.normalize d.prop == standard

/-- The pass without a declaration of an outdated property; the answer is whether the declaration is dealt with. The
orientation of a box stays where no direction of a flexbox is set beside it. -/
def cleanProperty (p : Pass) (decl : Nat) (d : Declaration) : Bool × Pass :=
  if !p.rules.removes d.prop then (false, p)
  else if d.prop = "-webkit-box-orient" && !p.hasSibling decl "flex-direction" && !p.hasSibling decl "flex-flow" then
    (true, p)
  else if p.goesOnWith decl (PropertyName.standard d.prop) && !hasNoStandardForm d then
    let p := if Text.contains (p.sheet.before decl) "\n" then p.reduceIndentation decl else p
    (true, p.edit fun s => s.remove decl)
  else (false, p)

/-- The pass without a declaration of an outdated value. -/
def cleanValue (p : Pass) (decl : Nat) (d : Declaration) : Pass :=
  let outdated := (p.rules.outdatedValuesFor (PropertyName.standard d.prop)).any fun o =>
    o.accepts d.value && (p.groupBelow decl).any fun (_, other) => other.value.contains o.unprefixed
  if outdated then p.edit fun s => s.remove decl else p

/-- The pass without a declaration that is outdated. -/
def cleanDeclaration (p : Pass) (decl : Nat) : Pass :=
  let (off, p) := p.disabled decl
  if off then p
  else
    match p.sheet.declaration? decl with
    | none => p
    | some d =>
      let p := if Transition.properties.contains d.prop then p.removeTransitions decl else p
      let (settled, p) := p.cleanProperty decl d
      if settled then p else p.cleanValue decl d

/-- The pass without what its rules call outdated. -/
def removeOutdated (p : Pass) : Pass :=
  let p := (p.sheet.atRules Sheet.rootId).foldl cleanAtRule p
  let p := p.rules.outdatedSelectors.foldl cleanRules p
  (p.sheet.declarations Sheet.rootId).foldl cleanDeclaration p

end VendorCss.Pass
