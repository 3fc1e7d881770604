import VendorCss.Pass.Basic

/-!
# Variants of values

The tokens of a value are spelled for each planned prefix in the scope of the declaration. All tokens of a property
are spelled into one value per prefix, which the memory of the pass holds; `saveValues` then writes a copy of the
declaration for each of these values, unless the rule has such a copy or a prefixed property in its place.
-/

namespace VendorCss

namespace Pass

/-- The values of a declaration spelled so far, by planned prefix. -/
def spelledValues (p : Pass) (decl : Nat) : List (Text × Text) := (p.memory.values.get? decl).getD []

/-- Values with that of a planned prefix set, in its place or at the end. -/
def setValueFor (planned value : Text) : List (Text × Text) → List (Text × Text)
  | [] => [(planned, value)]
  | (known, old) :: rest =>
    if known = planned then (planned, value) :: rest else (known, old) :: setValueFor planned value rest

/-- The spelled value of a declaration remembered. -/
def recordValue (p : Pass) (decl : Nat) (planned value : Text) : Pass :=
  let values := setValueFor planned value (p.spelledValues decl)
  { p with memory := { p.memory with values := (decl, values) :: p.memory.values } }

/-- A value with its first run of blanks as one space. -/
def collapseFirstBlanks (value : Text) : Text :=
  let head := value.takeWhile fun c => !isBlank c
  let rest := value.drop head.length
  if rest.isEmpty then value else head ++ ' ' :: Text.trimStart rest

/-- One spelled value written as a copy of its declaration, or into a declaration that has the prefix already. -/
def saveValue (decl : Nat) (p : Pass) (spelled : Text × Text) : Pass :=
  let (planned, value) := spelled
  match p.sheet.declaration? decl, p.sheet.parent? decl with
  | some d, some rule =>
    let vendor := Vendor.ofName d.prop
    if value = d.value || vendor = "-pie-" then p
    else if vendor = planned then p.edit fun s => s.setValue decl value
    else
      let prefixed := PropertyName.prefixed d.prop (Vendor.vendorPart planned)
      let wanted := collapseFirstBlanks value
      let present := p.sheet.someDeclaration rule fun other =>
        other.prop == prefixed || (other.prop == d.prop && collapseFirstBlanks other.value == wanted)
      if present then p
      else p.edit fun s => s.cloneBefore decl (·.mapDeclaration fun d => { d with value })
  | _, _ => p

/-- The spelled values of a declaration written, in the order in which their prefixes were added. -/
def saveValues (p : Pass) (decl : Nat) : Pass := (p.spelledValues decl).foldl (saveValue decl) p

end Pass

namespace ValueVariants

/-- The value of a declaration spelled for a planned prefix and remembered. -/
def spellFor (v : ValueVariants) (decl : Nat) (p : Pass) (planned : Text) : Pass :=
  match p.sheet.declaration? decl with
  | none => p
  | some d =>
    if v.dialect.applies d.prop planned then
      let known := (p.spelledValues decl).find? fun (k, _) => k == planned
      match v.dialect.spell? v.token planned ((known.map Prod.snd).getD d.value) with
      | some value => p.recordValue decl planned value
      | none => p
    else p

/-- The pass with the value of a declaration spelled for every prefix that its scope allows. -/
def process (v : ValueVariants) (p : Pass) (decl : Nat) : Pass :=
  if (p.sheet.declaration? decl).any (v.dialect.accepts v.token) then
    let (scope, p) := p.scope decl
    (v.prefixes.filter (Pass.inScope scope)).foldl (v.spellFor decl) p
  else p

end ValueVariants

end VendorCss
