import VendorCss.Text

/-!
# Separated lists

A text is cut at separator characters that stand outside quotes, parentheses and escapes. Items lose the blanks at their
ends, and an item without any character is dropped; a list may keep an empty item at its end, as comma lists do.
-/

namespace VendorCss.Separated

/-- Where the scan stands: the open quote, the depth of parentheses, and whether a backslash came before. -/
structure Scan where
  escaped : Bool := false
  quote : Option Char := none
  depth : Nat := 0
  deriving DecidableEq, Repr

/-- The scan after a character, and whether the character separates. -/
def Scan.step (separators : List Char) (s : Scan) (c : Char) : Scan × Bool :=
  if s.escaped then ({ s with escaped := false }, false)
  else if c = '\\' then ({ s with escaped := true }, false)
  else
    match s.quote with
    | some quote => ({ s with quote := if c = quote then none else some quote }, false)
    | none =>
      if c = '"' || c = '\'' then ({ s with quote := some c }, false)
      else if c = '(' then ({ s with depth := s.depth + 1 }, false)
      else if c = ')' then ({ s with depth := s.depth - 1 }, false)
      else (s, s.depth == 0 && separators.contains c)

/-- The pieces between the separators, untrimmed; `current` holds the piece begun. -/
def cut (separators : List Char) (s : Scan) (current : Text) : Text → List Text
  | [] => [current]
  | c :: t =>
    let (s, separates) := s.step separators c
    if separates then current :: cut separators s [] t else cut separators s (current ++ [c]) t

/-- The pieces that count as items: all that are not empty, and with `last` also the last one. -/
def items (last : Bool) : List Text → List Text
  | [] => []
  | [t] => if last || !t.isEmpty then [t.trim] else []
  | t :: ts => if t.isEmpty then items last ts else t.trim :: items last ts

/-- The items of a text; with `last` the item after the last separator is kept even if it is empty. -/
def split (separators : List Char) (last : Bool) (t : Text) : List Text := items last (cut separators {} [] t)

/-- The items between spaces, line feeds and tabs. -/
def bySpace (t : Text) : List Text := split [' ', '\n', '\t'] false t

/-- The items between commas. -/
def byComma (t : Text) : List Text := split [','] true t

end VendorCss.Separated
