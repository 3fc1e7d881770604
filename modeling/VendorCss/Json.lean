import VendorCss.Text

/-!
# JSON

JSON values and their two printed forms. A number is kept as it was written, and an object keeps its members in order,
repeats included. In a printed string the quote, the backslash and the control characters are escaped, everything else
stands for itself. The pretty form puts every element on its own line, indented by two spaces, and prints an empty array
or object as its two brackets.

A written string may hold half of a surrogate pair, which is no character. Such a value is still a value, and does no
harm where nobody asks what it says.
-/

namespace VendorCss

/-- A JSON value. -/
inductive Json
  | null
  | bool (value : Bool)
  /-- A number, as written. -/
  | number (literal : Text)
  | string (text : Text)
  /-- A string that half of a surrogate pair stands in, or an object with such a key; it says nothing. -/
  | unpaired
  | array (elements : List Json)
  | object (members : List (Text × Json))
  deriving Repr, Inhabited

namespace Json

/-- The number of a count. -/
def ofNat (n : Nat) : Json := number (Nat.repr n).toList

/-- The array of strings. -/
def ofTexts (ts : List Text) : Json := array (ts.map string)

/-- `null`, or the value. -/
def ofOption : Option Json → Json
  | some j => j
  | none => null

/-- The member of an object that was written last under a key. -/
def get? (key : Text) : Json → Option Json
  | object members => (members.reverse.find? fun (k, _) => k == key).map Prod.snd
  | _ => none

/-! ## Printing -/

/-- A hexadecimal digit, small. -/
def hexDigit (n : Nat) : Char := if n < 10 then Char.ofNat (48 + n) else Char.ofNat (87 + n)

/-- How a character is written in a string. -/
def escapeChar (c : Char) : Text :=
  if c = '"' then "\\\""
  else if c = '\\' then "\\\\"
  else if c = '\n' then "\\n"
  else if c = '\r' then "\\r"
  else if c = '\t' then "\\t"
  else if c = '\x08' then "\\b"
  else if c = '\x0c' then "\\f"
  else if c.toNat < 0x20 then "\\u00" ++ [hexDigit (c.toNat / 16), hexDigit (c.toNat % 16)]
  else [c]

/-- A string in quotes. -/
def quote (t : Text) : Text := '"' :: t.flatMap escapeChar ++ ['"']

/-- What is printed for a string that is no text: the replacement character. -/
def unpairedText : Text := quote ['\uFFFD']

mutual

/-- The form without any white space. -/
def compact : Json → Text
  | null => "null"
  | bool true => "true"
  | bool false => "false"
  | number literal => literal
  | string t => quote t
  | unpaired => unpairedText
  | array es => '[' :: compactElements es ++ [']']
  | object ms => '\x7b' :: compactMembers ms ++ ['\x7d']

/-- Elements with commas between them. -/
def compactElements : List Json → Text
  | [] => []
  | [j] => compact j
  | j :: js => compact j ++ ',' :: compactElements js

/-- Members with commas between them. -/
def compactMembers : List (Text × Json) → Text
  | [] => []
  | [(k, j)] => quote k ++ ':' :: compact j
  | (k, j) :: ms => quote k ++ ':' :: compact j ++ ',' :: compactMembers ms

end

/-- A line end and the indentation of a depth. -/
def newLine (depth : Nat) : Text := '\n' :: List.replicate (2 * depth) ' '

mutual

/-- The form with one element on a line; `depth` is the depth of the value. -/
def prettyAt (depth : Nat) : Json → Text
  | array [] => "[]"
  | object [] => ['\x7b', '\x7d']
  | array es => '[' :: prettyElements (depth + 1) es ++ newLine depth ++ [']']
  | object ms => '\x7b' :: prettyMembers (depth + 1) ms ++ newLine depth ++ ['\x7d']
  | null => "null"
  | bool true => "true"
  | bool false => "false"
  | number literal => literal
  | string t => quote t
  | unpaired => unpairedText

/-- Elements, each on its own line. -/
def prettyElements (depth : Nat) : List Json → Text
  | [] => []
  | [j] => newLine depth ++ prettyAt depth j
  | j :: js => newLine depth ++ prettyAt depth j ++ ',' :: prettyElements depth js

/-- Members, each on its own line. -/
def prettyMembers (depth : Nat) : List (Text × Json) → Text
  | [] => []
  | [(k, j)] => newLine depth ++ quote k ++ ':' :: ' ' :: prettyAt depth j
  | (k, j) :: ms => newLine depth ++ quote k ++ ':' :: ' ' :: prettyAt depth j ++ ',' :: prettyMembers depth ms

end

/-- The form with one element on a line. -/
def pretty (j : Json) : Text := prettyAt 0 j

end Json

end VendorCss
