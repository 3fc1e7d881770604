import VendorCss.Text

/-!
# Positions

A position is a line and a column, both from 1. A column counts UTF-16 units; a line ends with a line feed, a carriage
return, the two together, or a form feed.
-/

namespace VendorCss

/-- A place in a text. -/
structure Position where
  line : Nat
  column : Nat
  deriving DecidableEq, Repr

namespace Position

/-- The place before the first character. -/
def start : Position := ⟨1, 1⟩

/-- The place at the start of the next line. -/
def newLine (p : Position) : Position := ⟨p.line + 1, 1⟩

/-- The number of UTF-16 units of a character. -/
def units (c : Char) : Nat := if c.toNat < 0x10000 then 1 else 2

/-- The place after the characters of `t`. -/
def advance (p : Position) : (t : Text) → Position
  | [] => p
  | '\r' :: '\n' :: t => advance p.newLine t
  | c :: t => advance (if c = '\n' || c = '\r' || c = '\x0c' then p.newLine else ⟨p.line, p.column + units c⟩) t

/-- `line:column`. -/
def render (p : Position) : Text := (Nat.repr p.line).toList ++ ':' :: (Nat.repr p.column).toList

end Position

end VendorCss
