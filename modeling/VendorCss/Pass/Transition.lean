import VendorCss.Css.Component
import VendorCss.Css.Separated
import VendorCss.Pass.Control

/-!
# Transitions

`transition` and `transition-property` name properties in their values, so a prefixed property has to be named too. A
value is a list of entries; an entry is a list of components up to its comma, the comma included.

* `addTransitions` names the prefixed properties after the entries of the author, and writes a copy of the declaration
  for each vendor.
* `removeTransitions` takes entries of outdated properties away, and the declaration with its last entry.
-/

namespace VendorCss

namespace Transition

/-- The properties whose values name properties. -/
def properties : List Text := ["transition", "transition-property"]

/-- An entry with the comma after it. -/
abbrev Entry := List Component

/-- Components cut after each comma. -/
def cutAtCommas : List Component → List Entry
  | [] => [[]]
  | c :: cs =>
    if c.isDiv "," then [c] :: cutAtCommas cs
    else
      match cutAtCommas cs with
      | [] => [[c]]
      | e :: es => (c :: e) :: es

/-- The entries of a value. -/
def entries (value : Text) : List Entry := (cutAtCommas (Component.ofText value)).filter fun e => !e.isEmpty

/-- The property that an entry names: its first component, or where that is a duration its first word after it. -/
def propertyOf (e : Entry) : Text :=
  let first := ((e.head?).map Component.text).getD []
  if first.head?.any isAsciiDigit then
    (((e.drop 1).find? Component.isWord).map Component.text).getD first
  else first

/-- The first comma of some entries, or one with a space after it. -/
def separator (es : List Entry) : Component := ((es.flatten).find? (·.isDiv ",")).getD (.div "," [] " ")

/-- An entry that ends with a divider. -/
def closed (separator : Component) (e : Entry) : Entry :=
  if (e.getLast?).any Component.isAnyDiv then e else e ++ [separator]

/-- Components without a divider at either end. -/
def withoutOuterDivs (cs : List Component) : List Component :=
  let cs := if (cs.head?).any Component.isAnyDiv then cs.tail else cs
  if (cs.getLast?).any Component.isAnyDiv then cs.dropLast else cs

/-- The text of entries. -/
def render (es : List Entry) : Text :=
  Component.renderAll (withoutOuterDivs ((es.map (closed (separator es))).flatten))

/-- An entry with the first word that is a name replaced. -/
def rename (old new : Text) : Entry → Entry
  | [] => []
  | c :: cs => if c.isWord && c.text = old then .word new :: cs else c :: rename old new cs

/-- The entries for a vendor: those without prefix and its own. -/
def forVendor (vendor : Text) (es : List Entry) : List Entry :=
  es.filter fun e =>
    let own := Vendor.ofName (propertyOf e)
    own.isEmpty || own = vendor

/-- The same without the entries that are there with the prefix as well. -/
def forVendorAlone (vendor : Text) (es : List Entry) : List Entry :=
  let names := (es.map propertyOf).filter fun name => name.startsWith vendor
  let shadowed := names.map PropertyName.standard
  (forVendor vendor es).filter fun e => !shadowed.contains (propertyOf e)

/-- Properties of flexbox that do not have its name. -/
def flexLike : List Text := ["order", "justify-content", "align-self", "align-content"]

/-- A property is not named with a prefix: flexbox is left alone, or its draft of 2009. -/
def leavesAlone (o : Options) (prop planned : Text) : Bool :=
  (prop.contains "flex" || flexLike.contains prop) &&
    match o.flexbox with
    | .all => false
    | .no2009 => planned.contains "2009"
    | .off => true

/-- The prefixed names of a property, where `vendors` are those that the rule is written for, if it is. -/
def prefixedNames (r : Rules) (vendors : Option (List Text)) (names : List Text) (name : Text) : List Text :=
  let planned := ((r.property? name).map PropertyVariants.prefixes).getD []
  let inRule := planned.filter fun p => vendors.all fun vs => vs.any (Text.contains p)
  let wanted := inRule.filter fun p => !leavesAlone r.options name p
  (wanted.map (PropertyName.prefixed name)).filter fun n => n ≠ "-ms-transform" && !names.contains n

/-- The entries with prefixed names that are added to some entries. -/
def additions (r : Rules) (vendors : Option (List Text)) (es : List Entry) : List Entry :=
  let names := es.map propertyOf
  es.flatMap fun e => (prefixedNames r vendors names (propertyOf e)).map fun new => rename (propertyOf e) new e

end Transition

namespace Pass

open Transition

/-- The vendors that the selector of the rule around a declaration is written for, if there are any. -/
def ruleVendors? (p : Pass) (decl : Nat) : Option (List Text) := do
  let rule ← p.sheet.parent? decl
  let selector ← p.sheet.selector? rule
  let found := p.rules.selection.vendors.filter fun v => Text.contains selector (':' :: v)
  if found.isEmpty then none else some found

/-- A copy of a declaration with another property and value, unless the rule says that already. -/
def insertTransition (p : Pass) (decl : Nat) (prop value : Text) : Pass :=
  if p.someSibling decl fun d => d.prop == prop && d.value == value then p
  else p.edit fun s => s.cloneBefore decl (·.mapDeclaration fun d => { d with prop, value })

/-- What the declarations of a rule say about transitions: `transition-property` names a property with variants, and the
first other property of its family has several values. -/
def hasAssociated (r : Rules) (ds : List Declaration) : Bool × Bool :=
  let family := ds.filter fun d => d.prop.startsWith "transition-"
  let own := family.takeWhile fun (d : Declaration) => d.prop = "transition-property"
  let prefixed := own.any fun d => (Separated.byComma d.value).any fun name =>
    (r.property? name).any fun v => !v.prefixes.isEmpty
  let next := (family.drop own.length).head?
  (prefixed, next.any fun d => 1 < (Separated.byComma d.value).length)

/-- Warns about a `transition-property` beside lists of its family, which cannot be kept in step with it. -/
def warnAssociated (p : Pass) (decl : Nat) : Pass :=
  match p.sheet.declaration? decl, p.sheet.parent? decl with
  | some d, some rule =>
    if d.prop = "transition-property" &&
        hasAssociated p.rules ((p.sheet.childDeclarationsOf rule).map Prod.snd) = (true, true) then
      p.warn decl
        ("Replace transition-property to transition, because Autoprefixer could not support any cases of " ++
          "transition-property and other transition-*")
    else p
  | _, _ => p

/-- The copy of a declaration for one planned prefix other than those of WebKit and Opera. -/
def insertOther (es : List Entry) (prop : Text) (decl : Nat) (p : Pass) (planned : Text) : Pass :=
  if planned = "-webkit-" || planned = "-o-" then p
  else p.insertTransition decl (planned ++ prop) (render (forVendor planned es))

/-- The pass with prefixed names added to a list of properties, and with a copy for each vendor. A list in which the
author named a prefixed property stays. -/
def addTransitions (p : Pass) (decl : Nat) : Pass :=
  match p.sheet.declaration? decl with
  | none => p
  | some d =>
    let old := entries d.value
    if old.any fun e => (propertyOf e).head? = some '-' then p
    else
      let vendors := p.ruleVendors? decl
      let planned := vendors.getD (((p.rules.property? d.prop).map PropertyVariants.prefixes).getD [])
      let es := old ++ additions p.rules vendors old
      let value := render es
      let webkit := render (forVendorAlone "-webkit-" es)
      let p := if planned.contains "-webkit-".toList then p.insertTransition decl ("-webkit-" ++ d.prop) webkit else p
      let p := p.insertTransition decl d.prop webkit
      let p :=
        if planned.contains "-o-".toList then
          p.insertTransition decl ("-o-" ++ d.prop) (render (forVendorAlone "-o-" es))
        else p
      let p := planned.foldl (insertOther es d.prop decl) p
      if value = d.value || p.someSibling decl fun other => other.prop == d.prop && other.value == value then p
      else (p.warnAssociated decl).edit fun s => (s.cloneBefore decl fun n => n).setValue decl value

/-- The pass with the entries of outdated properties taken out of a list. The declaration goes where no entry is left,
where another one says the same, and where another one says more. -/
def removeTransitions (p : Pass) (decl : Nat) : Pass :=
  match p.sheet.declaration? decl with
  | none => p
  | some d =>
    let kept := (entries d.value).filter fun e => !p.rules.removes (propertyOf e)
    let value := render kept
    if value = d.value then p
    else if kept.isEmpty then p.edit fun s => s.remove decl
    else
      match p.sheet.parent? decl with
      | none => p
      | some rule =>
        let others := p.sheet.childDeclarationsOf rule
        let double := others.any fun (_, o) => o.prop == d.prop && o.value == value
        let smaller := others.any fun (i, o) =>
          i != decl && o.prop == d.prop && value.byteLength < o.value.byteLength
        if double || smaller then p.edit fun s => s.remove decl else p.edit fun s => s.setValue decl value

end Pass

end VendorCss
