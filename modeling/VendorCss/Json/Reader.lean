import VendorCss.Json

/-!
# Reading JSON

The reader takes exactly the JSON grammar: no trailing comma, no leading zero, no bare control character in a string. A
text is one value with white space around it.

An escape spells a unit of 16 bits. A leading surrogate and the trailing one directly after it are one character; half
of such a pair that stands alone leaves the string without a text.
-/

namespace VendorCss.Json

/-- The white space of JSON. -/
def isJsonSpace (c : Char) : Bool := c == ' ' || c == '\n' || c == '\t' || c == '\r'

/-- The rest after white space. -/
def skipSpace (t : Text) : Text := t.dropWhile isJsonSpace

/-! ## Strings -/

/-- The value of a hexadecimal digit. -/
def hexValue? (c : Char) : Option Nat :=
  if '0' ≤ c && c ≤ '9' then some (c.toNat - 48)
  else if 'a' ≤ c && c ≤ 'f' then some (c.toNat - 87)
  else if 'A' ≤ c && c ≤ 'F' then some (c.toNat - 55)
  else none

/-- The number that four hexadecimal digits spell. -/
def hex4? (a b c d : Char) : Option Nat := do
  let a ← hexValue? a
  let b ← hexValue? b
  let c ← hexValue? c
  let d ← hexValue? d
  pure (((a * 16 + b) * 16 + c) * 16 + d)

/-- The character that a one-letter escape stands for. -/
def shortEscape? (c : Char) : Option Char :=
  if c = '"' || c = '\\' || c = '/' then some c
  else if c = 'b' then some '\x08'
  else if c = 'f' then some '\x0c'
  else if c = 'n' then some '\n'
  else if c = 'r' then some '\r'
  else if c = 't' then some '\t'
  else none

/-- The unit that the escape at the start of a text spells, and the rest. -/
def unit? : Text → Option (Nat × Text)
  | '\\' :: 'u' :: a :: b :: c :: d :: t => (hex4? a b c d).map (·, t)
  | _ => none

/-- The first half of a surrogate pair. -/
def isLeading (unit : Nat) : Bool := 0xD800 ≤ unit && unit < 0xDC00

/-- The second half of a surrogate pair. -/
def isTrailing (unit : Nat) : Bool := 0xDC00 ≤ unit && unit < 0xE000

/-- The character that a unit spells, with the unit after it where the two are a pair, and the rest of the text. Half of
a pair spells none. -/
def unitChar? (unit : Nat) (t : Text) : Option Char × Text :=
  if isLeading unit then
    match unit? t with
    | some (next, rest) =>
      if isTrailing next then (some (Char.ofNat (0x10000 + (unit - 0xD800) * 0x400 + (next - 0xDC00))), rest)
      else (none, t)
    | none => (none, t)
  else if isTrailing unit then (none, t)
  else (some (Char.ofNat unit), t)

/-- A text with one more character before it. -/
def consText : (char : Option Char) → (text : Option Text) → Option Text
  | some c, some t => some (c :: t)
  | _, _ => none

/-- The text of a string after its opening quote, if it has one, and the rest after the closing quote. -/
def stringBody : (fuel : Nat) → Text → Option (Option Text × Text)
  | 0, _ => none
  | _ + 1, [] => none
  | _ + 1, '"' :: t => some (some [], t)
  | fuel + 1, '\\' :: 'u' :: a :: b :: c :: d :: t => do
    let (e, t) := unitChar? (← hex4? a b c d) t
    let (s, rest) ← stringBody fuel t
    pure (consText e s, rest)
  | fuel + 1, '\\' :: c :: t => do
    let e ← shortEscape? c
    let (s, rest) ← stringBody fuel t
    pure (consText (some e) s, rest)
  | fuel + 1, c :: t => do
    if c.toNat < 0x20 || c = '\\' then none
    else
      let (s, rest) ← stringBody fuel t
      pure (consText (some c) s, rest)

/-- The string with a text. -/
def stringOf (text : Option Text) : Json := (text.map string).getD unpaired

/-- The object with some members, if every key is a text. -/
def objectOf (members : Option (List (Text × Json))) : Json := (members.map object).getD unpaired

/-- Members with one more before them. -/
def consMember : (key : Option Text) → (value : Json) → (members : Option (List (Text × Json))) →
    Option (List (Text × Json))
  | some k, j, some ms => some ((k, j) :: ms)
  | _, _, _ => none

/-! ## Numbers -/

/-- The digits at the start, at least one, and the rest. -/
def digits? (t : Text) : Option (Text × Text) :=
  let ds := t.takeWhile isAsciiDigit
  if ds.isEmpty then none else some (ds, t.drop ds.length)

/-- A number without sign at the start, and the rest. -/
def unsigned? (t : Text) : Option (Text × Text) := do
  let (whole, t) ← digits? t
  if whole.length > 1 && whole.head? = some '0' then none
  else
    let (fraction, t) ← (match t with
      | '.' :: t => (digits? t).map fun (ds, t) => ('.' :: ds, t)
      | t => some ([], t) : Option (Text × Text))
    let (exponent, t) ← (match t with
      | e :: t =>
        if e = 'e' || e = 'E' then
          match t with
          | s :: t' =>
            if s = '+' || s = '-' then (digits? t').map fun (ds, t) => (e :: s :: ds, t)
            else (digits? t).map fun (ds, t) => (e :: ds, t)
          | [] => none
        else some ([], e :: t)
      | [] => some ([], []) : Option (Text × Text))
    pure (whole ++ fraction ++ exponent, t)

/-- A number at the start, and the rest. -/
def number? : Text → Option (Text × Text)
  | '-' :: t => (unsigned? t).map fun (n, t) => ('-' :: n, t)
  | t => unsigned? t

/-! ## Values -/

mutual

/-- A value at the start, white space before it allowed, and the rest. -/
def valueWithin : (fuel : Nat) → Text → Option (Json × Text)
  | 0, _ => none
  | fuel + 1, t =>
    match skipSpace t with
    | '"' :: t => (stringBody (t.length + 1) t).map fun (s, rest) => (stringOf s, rest)
    | '[' :: t =>
      match skipSpace t with
      | ']' :: rest => some (array [], rest)
      | t => (elementsWithin fuel t).map fun (es, rest) => (array es, rest)
    | '\x7b' :: t =>
      match skipSpace t with
      | '\x7d' :: rest => some (object [], rest)
      | t => (membersWithin fuel t).map fun (ms, rest) => (objectOf ms, rest)
    | t =>
      match Text.dropStart? "null" t, Text.dropStart? "true" t, Text.dropStart? "false" t with
      | some rest, _, _ => some (null, rest)
      | _, some rest, _ => some (bool true, rest)
      | _, _, some rest => some (bool false, rest)
      | _, _, _ => (number? t).map fun (n, rest) => (number n, rest)

/-- The elements of an array up to its closing bracket. -/
def elementsWithin : (fuel : Nat) → Text → Option (List Json × Text)
  | 0, _ => none
  | fuel + 1, t => do
    let (j, t) ← valueWithin fuel t
    match skipSpace t with
    | ',' :: t =>
      let (js, rest) ← elementsWithin fuel t
      pure (j :: js, rest)
    | ']' :: rest => pure ([j], rest)
    | _ => none

/-- The members of an object up to its closing brace, if every key is a text. -/
def membersWithin : (fuel : Nat) → Text → Option (Option (List (Text × Json)) × Text)
  | 0, _ => none
  | fuel + 1, t =>
    match skipSpace t with
    | '"' :: t => do
      let (key, t) ← stringBody (t.length + 1) t
      match skipSpace t with
      | ':' :: t =>
        let (j, t) ← valueWithin fuel t
        match skipSpace t with
        | ',' :: t =>
          let (ms, rest) ← membersWithin fuel t
          pure (consMember key j ms, rest)
        | '\x7d' :: rest => pure (consMember key j (some []), rest)
        | _ => none
      | _ => none
    | _ => none

end

/-- The value that a text spells. A step of the reader that does not read a character is followed by one that does. -/
def parse? (t : Text) : Option Json := do
  let (j, rest) ← valueWithin (2 * t.length + 2) t
  if (skipSpace rest).isEmpty then some j else none

end VendorCss.Json
