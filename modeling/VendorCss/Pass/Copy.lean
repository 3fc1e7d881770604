import VendorCss.Pass.Basic

/-!
# Copies of declarations

A prefixed copy stands before its declaration. Where declarations stand on lines of their own and the cascade is wanted,
a copy is indented by as much as its prefix is shorter than the longest one, so that the values line up; afterwards the
declaration itself is indented as if it had an empty prefix.

The functions that insert a copy answer whether there is one. They are told the prefixes written for the declaration so
far, that of the copy last.
-/

namespace VendorCss.Pass

/-! ## Indentation -/

/-- Copies of a declaration are indented. -/
def needsCascade (p : Pass) (decl : Nat) : Bool :=
  p.rules.options.cascade && (p.sheet.raws? decl).any fun r => r.before.contains "\n"

/-- The length of the vendor of a planned prefix. -/
def vendorLength (planned : Text) : Nat := (Vendor.vendorPart planned).byteLength

/-- The length of the longest of some prefixes, or what was learned about the declaration before. -/
def widest (p : Pass) (decl : Nat) (prefixes : List Text) : Nat × Pass :=
  match p.memory.widest.get? decl with
  | some n => (n, p)
  | none =>
    let n := (prefixes.map vendorLength).foldl Nat.max 0
    (n, { p with memory := { p.memory with widest := (decl, n) :: p.memory.widest } })

/-- The white space before a copy for a planned prefix. -/
def indentation (p : Pass) (decl : Nat) (planned : Text) (prefixes : List Text) : Text × Pass :=
  let (n, p) := p.widest decl prefixes
  (p.sheet.before decl ++ List.replicate (n - vendorLength planned) ' ', p)

/-- The shortest of some lines, the first of equals. -/
def shortest (line : Text) (lines : List Text) : Text :=
  lines.foldl (fun best line => if line.byteLength < best.byteLength then line else best) line

/-- The last line of white space before a node. -/
def lastLine (before : Text) : Text := ((Text.pieces '\n' before).getLast?).getD []

/-- A text with another last line. -/
def withLastLine (before line : Text) : Text :=
  Text.join ['\n'] ((Text.pieces '\n' before).dropLast ++ [line])

/-- The indentation of a declaration brought back to the smallest one in its group above. -/
def restoreIndentation (p : Pass) (decl : Nat) : Pass :=
  let before := p.sheet.before decl
  let above := (p.groupAbove decl).map fun (i, _) => lastLine (p.sheet.before i)
  p.edit fun s => s.setBefore decl (withLastLine before (shortest (lastLine before) above))

/-- The indentation of a declaration after its copies were written: that of an empty prefix among them. -/
def alignWithCopies (p : Pass) (decl : Nat) (prefixes : List Text) : Pass :=
  if p.needsCascade decl then
    let p := p.restoreIndentation decl
    let (before, p) := p.indentation decl [] prefixes
    p.edit fun s => s.setBefore decl before
  else p

/-! ## Copies -/

/-- A copy of a declaration as its dialect writes it. There is none where the dialect has none, nor where a declaration
beside says the same. -/
def insertCopy (p : Pass) (dialect : PropertyDialect) (decl : Nat) (planned : Text) (prefixes : List Text) :
    Bool × Pass :=
  match p.sheet.node? decl, (p.sheet.declaration? decl).bind (dialect.spell? · planned), p.sheet.parent? decl with
  | some node, some copy, some parent =>
    if p.sheet.someDeclaration parent fun d => d.prop == copy.prop && d.value == copy.value then (false, p)
    else
      let node := node.mapDeclaration fun _ => copy
      if p.needsCascade decl then
        let (before, p) := p.indentation decl planned prefixes
        (true, p.edit fun s => s.insertBefore decl (node.withBefore before))
      else (true, p.edit fun s => s.insertBefore decl node)
  | _, _, _ => (false, p)

/-- A copy of a declaration with another property and value. -/
def insertVariant (p : Pass) (decl : Nat) (prop value planned : Text) (prefixes : List Text) : Bool × Pass :=
  let write (node : Node) : Node := node.mapDeclaration fun d => { d with prop, value }
  if p.needsCascade decl then
    let (before, p) := p.indentation decl planned prefixes
    (true, p.edit fun s => s.cloneBefore decl fun node => write (node.withBefore before))
  else (!p.sheet.isRemoved decl, p.edit fun s => s.cloneBefore decl write)

/-- A copy of a declaration with another property and value, indented like the declaration. -/
def insertPlain (p : Pass) (decl : Nat) (prop value : Text) : Pass :=
  p.edit fun s => s.cloneBefore decl (·.mapDeclaration fun d => { d with prop, value })

end VendorCss.Pass
