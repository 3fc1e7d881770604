import VendorCss.Advice
import VendorCss.Pass.AtRule
import VendorCss.Pass.GridAreas
import VendorCss.Pass.Resolution
import VendorCss.Pass.Selector
import VendorCss.Pass.Supports
import VendorCss.Pass.Transition

/-!
# Adding prefixes

Prefixes are added to at-rules first, then to rules, to declarations and to values. Each step goes over the nodes that
are there when it begins, so what it adds itself is seen only by the later ones.
-/

namespace VendorCss.Pass

/-! ## At-rules and rules -/

/-- The pass with the variants of an at-rule, or with its params updated. -/
def addToAtRule (prefixer : Prefixer) (p : Pass) (rule : Nat) : Pass :=
  match p.sheet.atRule? rule with
  | none => p
  | some r =>
    let unlessDisabled (f : Pass → Pass) : Pass :=
      let (off, p) := p.disabled rule
      if off then p else f p
    if r.name = "keyframes" || r.name = "viewport" then
      unlessDisabled fun p => match p.rules.atRule? r.name with | some v => v.process p rule | none => p
    else if r.name = "supports" then
      if p.rules.options.supports then unlessDisabled fun p => p.processSupports prefixer rule else p
    else if r.name = "media" && r.params.contains "-resolution" then
      unlessDisabled fun p => match p.rules.resolution with | some vendors => p.addResolutions vendors rule | none => p
    else p

/-- The pass with the variants of a rule. -/
def addToRule (p : Pass) (rule : Nat) : Pass :=
  let (off, p) := p.disabled rule
  if off then p else p.rules.selectors.foldl (fun p v => v.process p rule) p

/-! ## Declarations -/

/-- The rule of a declaration lays its children out in a grid: so says its first `display` for a flexbox or a grid. -/
def isInGrid (p : Pass) (decl : Nat) : Bool :=
  match p.sheet.parent? decl with
  | none => false
  | some rule =>
    let displays := (p.sheet.childDeclarationsOf rule).filter fun (_, (d : Declaration)) =>
      d.prop = "display" && (d.value.contains "flex" || d.value.contains "grid")
    displays.head?.any fun (_, d) => !d.value.contains "flex"

/-- What there is to say about a declaration. -/
def adviceOn (p : Pass) (decl : Nat) (d : Declaration) (grid : Option GridMode) : Advice :=
  let rule := p.sheet.parent? decl
  let siblings := (rule.map fun r => (p.sheet.childDeclarationsOf r).map Prod.snd).getD []
  Advice.on siblings ((rule.bind p.sheet.selector?).getD []) grid d

/-- The pass with the remarks of a piece of advice raised. -/
def raise (p : Pass) (decl : Nat) (a : Advice) : Pass :=
  a.remarks.foldl (fun p (message, word) => p.warnAbout decl message word) p

/-- The pass with the variants of a declaration as one of a property. -/
def addVariantsOf (p : Pass) (decl : Nat) (prop : Text) : Pass :=
  match p.rules.property? prop with
  | some v => v.process p decl
  | none => p

/-- The same if grids are written at a declaration. -/
def addGridVariantsOf (p : Pass) (decl : Nat) (prop : Text) : Pass :=
  let (mode, p) := p.gridMode decl
  if mode.isEnabled then p.addVariantsOf decl prop else p

/-- The pass with the variants of a declaration by its property. The alignments of one item belong to flexbox and to
grid, which write them in different ways. -/
def addByProperty (p : Pass) (decl : Nat) (prop : Text) : Pass :=
  if prop = "align-self" then
    let p := if p.isInGrid decl || p.rules.options.flexbox = .off then p else p.addVariantsOf decl prop
    p.addGridVariantsOf decl "grid-row-align"
  else if prop = "justify-self" then p.addGridVariantsOf decl "grid-column-align"
  else if prop = "place-self" then p.addGridVariantsOf decl prop
  else p.addVariantsOf decl prop

/-- The pass with a declaration looked at and its variants added; `grids` says whether the first draft of grid is
written for some browser. -/
def addToDeclaration (grids : Bool) (p : Pass) (decl : Nat) : Pass :=
  let (skip, p) := p.skipsDeclaration decl
  match p.sheet.declaration? decl with
  | none => p
  | some d =>
    if skip then p
    else
      let (mode, p) := p.gridMode decl
      let advice := p.adviceOn decl d (if grids && mode.isEnabled then some mode else none)
      let p := p.raise decl advice
      if advice.skip then p
      else
        let p := if Transition.properties.contains d.prop then p.addTransitions decl else p
        p.addByProperty decl d.prop

/-- The pass with the values of a declaration in their variants. -/
def addToValue (p : Pass) (decl : Nat) : Pass :=
  let (skip, p) := p.skipsValue decl
  match p.sheet.declaration? decl with
  | none => p
  | some d => if skip then p else Supports.addValues (PropertyName.standard d.prop) p decl

/-- The pass with every prefix that its rules ask for. -/
def addMissing (p : Pass) (prefixer : Prefixer) : Pass :=
  let p := (p.sheet.atRules Sheet.rootId).foldl (addToAtRule prefixer) p
  let p := (p.sheet.rules Sheet.rootId).foldl addToRule p
  let (mode, p) := p.gridMode Sheet.rootId
  let grids := mode.isEnabled && (p.rules.property? "grid-area").isSome
  let p := (p.sheet.declarations Sheet.rootId).foldl (addToDeclaration grids) p
  let p := if mode.isEnabled then p.insertAreas else p
  (p.sheet.declarations Sheet.rootId).foldl addToValue p

end VendorCss.Pass
