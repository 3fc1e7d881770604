import VendorCss.Decimal.Read

/-!
# Templates

A template is a text that quotes parts of a place it replaces. A dollar sign refers to a part by its number: `$1`, or
`${1}` where a letter, a digit or an underscore follows. Two dollar signs stand for one. A reference to a part that is
not there, or to anything but a number, stands for nothing, and a dollar sign that starts no reference for itself.

`expand` replaces the references and copies the rest.
-/

namespace VendorCss.Template

/-- The part that the name of a reference stands for. -/
def part (parts : List Text) (name : Text) : Text :=
  match Decimal.nat64? name with
  | some n => parts.getD n []
  | none => []

/-- The place of a reference, and what it stands for. A name without braces ends before the first character that no name
has; a name in braces is everything up to the closing brace. -/
def referencePlace (parts : List Text) (_ : Option Char) (t : Text) : Option (Nat × Text) :=
  match t with
  | '$' :: '$' :: _ => some (2, ['$'])
  | '$' :: '\x7b' :: rest =>
    let name := rest.takeWhile (· != '\x7d')
    if name.length < rest.length then some (name.length + 3, part parts name) else none
  | '$' :: rest =>
    let name := rest.takeWhile isAsciiWordChar
    if name.isEmpty then none else some (name.length + 1, part parts name)
  | _ => none

/-- The text that a template stands for, part `0` being the first of `parts`. -/
def expand (parts : List Text) (template : Text) : Text := Text.substitute (referencePlace parts) template

/-- The reference to a part, in braces. -/
def reference (n : Nat) : Text := '$' :: '\x7b' :: (Nat.repr n).toList ++ ['\x7d']

/-- A reference starts with a dollar sign. -/
theorem referencePlace_eq_none {parts : List Text} {last : Option Char} {c : Char} {t : Text} (h : c ≠ '$') :
    referencePlace parts last (c :: t) = none := by
  unfold referencePlace
  split <;> simp_all

/-- A template without a dollar sign stands for itself, whatever stands before it. -/
theorem substituteFrom_referencePlace (parts : List Text) {t : Text} (last : Option Char) (h : '$' ∉ t) :
    Text.substituteFrom (referencePlace parts) last 0 t = t := by
  induction t generalizing last with
  | nil => simp [Text.substituteFrom, referencePlace]
  | cons c t ih =>
    simp only [List.mem_cons, not_or] at h
    rw [Text.substituteFrom, referencePlace_eq_none (Ne.symm h.1)]
    simp only [ih (some c) h.2]

/-- A template without a dollar sign stands for itself. -/
theorem expand_eq_self (parts : List Text) {t : Text} (h : '$' ∉ t) : expand parts t = t :=
  substituteFrom_referencePlace parts none h

end VendorCss.Template
