import VendorCss.Text.Case
import VendorCss.Text.Template

/-!
# Vendor prefixes

A vendor prefix is a word between two hyphens, such as `-webkit-`, at the start of a name. The prefixes of a plan may
carry a note on the syntax that a vendor understood: `-webkit- 2009`, or `final -moz-`. `vendorPart` and `note?` take
such a planned prefix apart.

A value holds a name as a word where the name stands at the start or after a blank, a comma or an opening parenthesis,
and a closer or the end follows; letters match in any case.
-/

namespace VendorCss

namespace Vendor

/-! ## Names -/

/-- The vendor prefix of a name: `-webkit-` for `-webkit-box`, empty for a name without one. -/
def ofName (name : Text) : Text :=
  match name with
  | '-' :: rest =>
    let word := rest.takeWhile isAsciiWordChar
    if !word.isEmpty && (rest.drop word.length).head? = some '-' then '-' :: word ++ ['-'] else []
  | _ => []

/-- The name without its vendor prefix. -/
def unprefixed (name : Text) : Text := name.drop (ofName name).length

/-! ## Planned prefixes -/

/-- A word that starts and ends with a hyphen. -/
def isHyphenated (word : Text) : Bool := word.head? = some '-' && word.getLast? = some '-'

/-- The vendor of a planned prefix: `-webkit-` for `-webkit- 2009`. -/
def vendorPart (planned : Text) : Text :=
  ((Text.words planned).find? fun w => 1 < w.length && isHyphenated w).getD planned

/-- The note of a planned prefix, if it has one. -/
def note? (planned : Text) : Option Text := (Text.words planned).find? fun w => !isHyphenated w

/-- The order of planned prefixes, by the length of the vendor and then by the whole length, longest first. -/
def notAfter (s t : Text) : Bool :=
  let (m, n) := ((vendorPart s).byteLength, (vendorPart t).byteLength)
  n < m || (m == n && t.byteLength ≤ s.byteLength)

/-- Planned prefixes in order; equals keep their places. -/
def sort (planned : List Text) : List Text := planned.mergeSort notAfter

/-! ## Values of other vendors -/

/-- The vendors whose names are looked for in values. -/
def known : List Text := ["-webkit-", "-moz-", "-ms-", "-o-"]

/-- The place of a `var(…)` that is closed and not empty. -/
def varPlace (_ : Option Char) (t : Text) : Option (Nat × Text) :=
  match Text.dropStart? "var(" t with
  | some rest =>
    let inside := rest.takeWhile (· != ')')
    if !inside.isEmpty && inside.length < rest.length then some (inside.length + 5, []) else none
  | none => none

/-- The value speaks to another vendor than that of a planned prefix. Names inside `var(…)` do not count; only the first
known vendor that is found at all is looked at. -/
def speaksToOther (value planned : Text) : Bool :=
  match (known.filter (· != vendorPart planned)).find? (Text.contains value) with
  | some other => Text.contains (Text.substitute varPlace value) other
  | none => false

end Vendor

/-! ## Words of a value -/

/-- A name looked for as a word, and the characters that may follow it. -/
structure WordPattern where
  name : Text
  closes : Char → Bool

/-- A place where a word stands in a value. -/
structure WordPlace where
  /-- The delimiter before the word, none at the start. -/
  lead : Text
  /-- The word as written. -/
  written : Text
  /-- The closer after the word, none at the end. -/
  closer : Text

namespace WordPlace

/-- All characters of the place. -/
def text (w : WordPlace) : Text := w.lead ++ w.written ++ w.closer

/-- What a template may quote: the whole place, its lead, the word with its closer, and the closer. -/
def parts (w : WordPlace) : List Text := [w.text, w.lead, w.written ++ w.closer, w.closer]

end WordPlace

namespace WordPattern

/-- A blank, a comma or an opening parenthesis. -/
def isDelimiter (c : Char) : Bool := isBlank c || c == ',' || c == '('

/-- A blank, a comma or a closing parenthesis. -/
def isSizeCloser (c : Char) : Bool := isBlank c || c == ')' || c == ','

/-- A name that a delimiter follows. -/
def word (name : Text) : WordPattern := ⟨name, isDelimiter⟩

/-- A size keyword, which may also stand last inside parentheses. -/
def size (name : Text) : WordPattern := ⟨name, isSizeCloser⟩

/-- The word at the start of a text that `lead` stands before. -/
def here? (p : WordPattern) (lead t : Text) : Option WordPlace :=
  match Text.dropStartFolded? p.name t with
  | some [] => some ⟨lead, t, []⟩
  | some (c :: _) => if p.closes c then some ⟨lead, t.take p.name.length, [c]⟩ else none
  | none => none

/-- The place of the word that a text starts with, the character before it being `last`. At the start of a value nothing
needs to stand before the word. -/
def place? (p : WordPattern) (last : Option Char) (t : Text) : Option WordPlace :=
  let atStart := if last.isNone then p.here? [] t else none
  match atStart, t with
  | some w, _ => some w
  | none, c :: rest => if isDelimiter c then p.here? [c] rest else none
  | none, [] => none

/-- Every place of the word replaced by what a template makes of its parts, from left to right. -/
def substitute (p : WordPattern) (template value : Text) : Text :=
  Text.substitute (fun last t => (p.place? last t).map fun w => (w.text.length, Template.expand w.parts template)) value

/-- Some place of the word, the character before it being `last`. -/
def matchesAfter (p : WordPattern) : (last : Option Char) → Text → Bool
  | last, [] => (p.place? last []).isSome
  | last, c :: t => (p.place? last (c :: t)).isSome || p.matchesAfter (some c) t

/-- The value holds the word. -/
def isIn (p : WordPattern) (value : Text) : Bool := p.matchesAfter none value

end WordPattern

end VendorCss
