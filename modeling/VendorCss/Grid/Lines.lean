import VendorCss.Css.Component
import VendorCss.Decimal.Read

/-!
# Grid lines

A grid item is placed by two ends, such as `2 / 4`, `span 2 / 5` or `2 / span 3`. The first draft of grid knew a start
line and a span instead; `placement` leads from the ends to those two.
-/

namespace VendorCss.Grid

/-- The integer that a text starts with, after blanks. -/
def leadingInt? (t : Text) : Option Int :=
  let t := t.trimStart
  let sign : Text := if t.head? = some '-' || t.head? = some '+' then t.take 1 else []
  let digits := (t.drop sign.length).takeWhile isAsciiDigit
  if digits.isEmpty then none else Decimal.int64? (sign ++ digits)

/-- The words of a value between its dividers. -/
def wordGroups : List Component → List (List Text)
  | [] => [[]]
  | c :: cs =>
    if c.isAnyDiv then [] :: wordGroups cs
    else
      match c, wordGroups cs with
      | .word w, g :: gs => (w :: g) :: gs
      | .word w, [] => [[w]]
      | _, gs => gs

/-- The words of a text between its dividers. -/
def lineGroups (t : Text) : List (List Text) := wordGroups (Component.ofText t)

/-- One end of an item. -/
inductive End
  | line (n : Int)
  | span (n : Int)
  | auto
  deriving DecidableEq, Repr

/-- The end that words describe; lines and spans count from one. -/
def End.ofWords (words : List Text) : End :=
  match words with
  | [keyword, count] =>
    match (leadingInt? count).filter (0 < ·) with
    | some n => if keyword = "span" then .span n else .auto
    | none => .auto
  | [number] =>
    match (leadingInt? number).filter (0 < ·) with
    | some n => .line n
    | none => .auto
  | _ => .auto

/-- A start line and a span, as far as they are known. -/
structure Placement where
  start : Option Int := none
  span : Option Int := none
  deriving DecidableEq, Repr

/-- The start and the span of an item with the given ends; the second one may not be written. -/
def Placement.ofEnds (first : End) (second : Option End) : Placement :=
  match first, second with
  | .line n, none => { start := some n }
  | .span n, some (.line last) => { start := some (last - n), span := some n }
  | .line n, some (.span m) => { start := some n, span := some m }
  | .line n, some (.line last) => { start := some n, span := some (last - n) }
  | _, _ => {}

/-- The placement that two of the groups describe; none without the first. -/
def placement (groups : List (List Text)) (first second : Nat) : Placement :=
  match groups[first]? with
  | some words => .ofEnds (.ofWords words) ((groups[second]?).map .ofWords)
  | none => {}

end VendorCss.Grid
