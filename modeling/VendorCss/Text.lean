/-!
# Text

A text is a list of characters. This module holds the cuts and searches that the rest of the library makes on texts:
blanks at the ends, pieces between separators, the first place of a needle, replacement. Every function recurses on the
text itself, so that what it keeps and what it drops can be read off its equations.

* `trim`, `trimStart` and `trimEnd` take off blanks, the characters with the White_Space property.
* `splitFirst` and `splitLast` cut at the first and at the last place of a needle.
* `pieces` cuts at every separator character, and `words` at every run of blanks.
* `substitute` replaces the places that a recogniser accepts, from left to right and never inside a replaced place.
-/

namespace VendorCss

/-- A text: its characters in order. -/
abbrev Text := List Char

/-- String literals stand for the texts of their characters. -/
instance : Coe String Text := ⟨String.toList⟩

/-- The characters of a literal. -/
theorem Text.toList_eq_of_ofList_eq {s : String} {t : Text} (h : String.ofList t = s) : s.toList = t := by
  rw [← h, String.toList_ofList]

/-- What holds of every character of a text is decided on the characters of the text, not on all characters. -/
instance (priority := high) Text.decidableForallMem (p : Char → Prop) [DecidablePred p] (t : Text) :
    Decidable (∀ c ∈ t, p c) :=
  List.decidableBAll p t

/-! ## Characters -/

/-- A blank has the White_Space property. -/
def isBlank (c : Char) : Bool :=
  let n := c.toNat
  (9 ≤ n && n ≤ 13) || n == 0x20 || n == 0x85 || n == 0xA0 || n == 0x1680 || (0x2000 ≤ n && n ≤ 0x200A) ||
    n == 0x2028 || n == 0x2029 || n == 0x202F || n == 0x205F || n == 0x3000

/-- An ASCII digit. -/
def isAsciiDigit (c : Char) : Bool := '0' ≤ c && c ≤ '9'

/-- An ASCII letter. -/
def isAsciiLetter (c : Char) : Bool := ('a' ≤ c && c ≤ 'z') || ('A' ≤ c && c ≤ 'Z')

/-- An ASCII letter or digit, or the underscore. -/
def isAsciiWordChar (c : Char) : Bool := isAsciiLetter c || isAsciiDigit c || c == '_'

/-- The small letter of an ASCII capital; any other character is itself. -/
def lowerAscii (c : Char) : Char := if 'A' ≤ c && c ≤ 'Z' then Char.ofNat (c.toNat + 32) else c

namespace Text

/-- The text with its ASCII capitals made small. -/
def lowercaseAscii (t : Text) : Text := t.map lowerAscii

/-- Two texts that differ in the case of ASCII letters only. -/
def sameIgnoringAsciiCase (s t : Text) : Bool := lowercaseAscii s == lowercaseAscii t

/-- The number of bytes of the text in UTF-8. -/
def byteLength (t : Text) : Nat := t.foldl (fun n c => n + c.utf8Size) 0

/-- The text as a string. -/
def toString (t : Text) : String := String.ofList t

/-! ## Blanks at the ends -/

/-- The text without its leading blanks. -/
def trimStart (t : Text) : Text := t.dropWhile isBlank

/-- The text without its trailing blanks. -/
def trimEnd (t : Text) : Text := (t.reverse.dropWhile isBlank).reverse

/-- The text without the blanks at both ends. -/
def trim (t : Text) : Text := trimEnd (trimStart t)

/-- The run of blanks that the text starts with. -/
def leadingBlanks (t : Text) : Text := t.takeWhile isBlank

/-- The run of blanks that the text ends with. -/
def trailingBlanks (t : Text) : Text := (t.reverse.takeWhile isBlank).reverse

/-- The leading blanks and the rest make up the text. -/
theorem leadingBlanks_append_trimStart (t : Text) : leadingBlanks t ++ trimStart t = t :=
  List.takeWhile_append_dropWhile

/-- The text less its trailing blanks, and those blanks, make up the text. -/
theorem trimEnd_append_trailingBlanks (t : Text) : trimEnd t ++ trailingBlanks t = t := by
  rw [trimEnd, trailingBlanks, ← List.reverse_append, List.takeWhile_append_dropWhile, List.reverse_reverse]

/-! ## Ends and places -/

/-- What follows `s` in a text that starts with it. -/
def dropStart? : (s t : Text) → Option Text
  | [], t => some t
  | _ :: _, [] => none
  | c :: s, d :: t => if c = d then dropStart? s t else none

/-- What stands before `s` in a text that ends with it. -/
def dropEnd? (s t : Text) : Option Text := (dropStart? s.reverse t.reverse).map List.reverse

/-- The text starts with `s`. -/
def startsWith (t s : Text) : Bool := (dropStart? s t).isSome

/-- The text ends with `s`. -/
def endsWith (t s : Text) : Bool := (dropEnd? s t).isSome

/-- The parts before and after the first place of `needle`. -/
def splitFirst (needle : Text) : Text → Option (Text × Text)
  | [] => (dropStart? needle []).map ([], ·)
  | c :: t =>
    match dropStart? needle (c :: t) with
    | some rest => some ([], rest)
    | none => (splitFirst needle t).map fun (before, after) => (c :: before, after)

/-- The parts before and after the last place of `needle`. -/
def splitLast (needle t : Text) : Option (Text × Text) :=
  (splitFirst needle.reverse t.reverse).map fun (after, before) => (before.reverse, after.reverse)

/-- `needle` stands somewhere in the text. -/
def contains (t needle : Text) : Bool := (splitFirst needle t).isSome

/-! ## Pieces -/

/-- The pieces between the characters that `sep` accepts; one piece more than there are such characters. -/
def piecesBy (sep : Char → Bool) : Text → List Text
  | [] => [[]]
  | c :: t =>
    if sep c then [] :: piecesBy sep t
    else
      match piecesBy sep t with
      | [] => [[c]]
      | p :: ps => (c :: p) :: ps

/-- The pieces between the places of one character. -/
def pieces (sep : Char) (t : Text) : List Text := piecesBy (· == sep) t

/-- The pieces between the places of `sep`; `skip` characters still belong to the place found last. -/
def piecesAround (sep : Text) : (skip : Nat) → Text → List Text
  | _, [] => [[]]
  | skip + 1, _ :: t => piecesAround sep skip t
  | 0, c :: t =>
    if startsWith (c :: t) sep then [] :: piecesAround sep (sep.length - 1) t
    else
      match piecesAround sep 0 t with
      | [] => [[c]]
      | p :: ps => (c :: p) :: ps

/-- The pieces between the places of a text that is not empty; places do not overlap. -/
def splitAt (sep t : Text) : List Text := piecesAround sep 0 t

/-- The runs of characters that are not blank. -/
def words (t : Text) : List Text := (piecesBy isBlank t).filter (fun w => !w.isEmpty)

/-- The texts one after the other with `sep` between neighbours. -/
def join (sep : Text) : List Text → Text
  | [] => []
  | [t] => t
  | t :: ts => t ++ sep ++ join sep ts

/-! ## Replacement -/

/-- Copies a text, and at each place where `place` accepts (it sees the character before and the text from there on, and
answers how many characters the place has and what replaces them) puts the replacement; `skip` characters are still part
of the place replaced last. An empty place is replaced before the next character, which is copied. -/
def substituteFrom (place : Option Char → Text → Option (Nat × Text)) :
    (last : Option Char) → (skip : Nat) → Text → Text
  | _, _ + 1, [] => []
  | last, 0, [] => ((place last []).map Prod.snd).getD []
  | _, skip + 1, c :: t => substituteFrom place (some c) skip t
  | last, 0, c :: t =>
    match place last (c :: t) with
    | some (n + 1, new) => new ++ substituteFrom place (some c) n t
    | some (0, new) => new ++ c :: substituteFrom place (some c) 0 t
    | none => c :: substituteFrom place (some c) 0 t

/-- Replaces every place that `place` accepts, from left to right; places do not overlap. -/
def substitute (place : Option Char → Text → Option (Nat × Text)) (t : Text) : Text := substituteFrom place none 0 t

/-- The same for the first place only. -/
def substituteFirst (place : Option Char → Text → Option (Nat × Text)) : (last : Option Char) → Text → Text
  | _, [] => []
  | last, c :: t =>
    match place last (c :: t) with
    | some (n + 1, new) => new ++ t.drop n
    | _ => c :: substituteFirst place (some c) t

/-- What the places that `place` accepts are replaced by, in order; `skip` and `last` as in `substituteFrom`. -/
def placesFrom (place : Option Char → Text → Option (Nat × Text)) :
    (last : Option Char) → (skip : Nat) → Text → List Text
  | _, _, [] => []
  | _, skip + 1, c :: t => placesFrom place (some c) skip t
  | last, 0, c :: t =>
    match place last (c :: t) with
    | some (n + 1, new) => new :: placesFrom place (some c) n t
    | _ => placesFrom place (some c) 0 t

/-- What the places that `place` accepts are replaced by, from left to right. -/
def places (place : Option Char → Text → Option (Nat × Text)) (t : Text) : List Text := placesFrom place none 0 t

/-- Every place of `old` becomes `new`; `old` is not empty. -/
def replace (old new t : Text) : Text :=
  substitute (fun _ rest => if startsWith rest old then some (old.length, new) else none) t

/-- The first place of `old` becomes `new`; a text without `old` stays. -/
def replaceFirst (old new t : Text) : Text :=
  match splitFirst old t with
  | some (before, after) => before ++ new ++ after
  | none => t

/-! ## Order -/

/-- The order of texts by their code points, the shorter first where one starts the other. -/
def before : (s t : Text) → Bool
  | _, [] => false
  | [], _ :: _ => true
  | c :: s, d :: t => c.toNat < d.toNat || (c == d && before s t)

/-- `s` comes before `t` or is `t`. -/
def notAfter (s t : Text) : Bool := !before t s

/-- The texts in order, each at its first place only. -/
def distinct (ts : List Text) : List Text :=
  (ts.foldl (fun (seen : List Text) t => if seen.contains t then seen else t :: seen) []).reverse

end Text

end VendorCss
