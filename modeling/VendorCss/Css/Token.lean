import VendorCss.Text

/-!
# Tokens

CSS Syntax Level 3 cuts a text into tokens. Nothing is dropped: every token keeps its characters, blanks and comments
are tokens too, and the tokens of a text one after the other are the text (`tokens_text`). A token's kind says only what
the readers of statements and of values ask for: brackets, dividers, strings, comments, the name of a function.

A scanner answers how many characters a token has. Strings, comments and unquoted URLs run to the end of the text when
nothing closes them; an escape is a backslash with up to six hexadecimal digits and one blank, or with any character
that is not a line end.
-/

namespace VendorCss

/-- The three kinds of brackets. -/
inductive Bracket
  | paren | square | curly
  deriving DecidableEq, Repr

/-- What a token is. -/
inductive TokenKind
  | blank
  /-- A comment, with the text between its marks. -/
  | comment (inside : Text)
  | semicolon
  | colon
  | comma
  | slash
  | string
  /-- A name and the parenthesis that opens its arguments; the name has its escapes resolved. -/
  | function (name : Text)
  | openBracket (bracket : Bracket)
  | closeBracket (bracket : Bracket)
  /-- Identifiers, numbers, URLs and any other character. -/
  | word
  deriving DecidableEq, Repr

/-- A token: its kind and its characters. -/
structure Token where
  kind : TokenKind
  text : Text
  deriving DecidableEq, Repr

/-- The bracket that a token opens. -/
def TokenKind.opens? : TokenKind → Option Bracket
  | .function _ => some .paren
  | .openBracket b => some b
  | _ => none

/-- The bracket that a token closes. -/
def TokenKind.closes? : TokenKind → Option Bracket
  | .closeBracket b => some b
  | _ => none

namespace Token

/-! ## Character classes -/

/-- Line ends: line feed, carriage return, form feed. -/
def isLineEnd (c : Char) : Bool := c == '\n' || c == '\r' || c == '\x0c'

/-- The white space of CSS. -/
def isSpace (c : Char) : Bool := c == ' ' || c == '\t' || isLineEnd c

/-- A character that may start a name without an escape. -/
def isNameStart (c : Char) : Bool := isAsciiLetter c || c == '_' || c == '\x00' || 128 ≤ c.toNat

/-- A character that may continue a name without an escape. -/
def isNamePart (c : Char) : Bool := isNameStart c || isAsciiDigit c || c == '-'

/-- The value of a hexadecimal digit. -/
def hexValue? (c : Char) : Option Nat :=
  if isAsciiDigit c then some (c.toNat - 48)
  else if 'a' ≤ c && c ≤ 'f' then some (c.toNat - 87)
  else if 'A' ≤ c && c ≤ 'F' then some (c.toNat - 55)
  else none

/-- A text that starts with a line end. -/
def startsWithLineEnd : Text → Bool
  | c :: _ => isLineEnd c
  | [] => false

/-- The length of one blank at the start; a carriage return and a line feed are one. -/
def spaceLength : Text → Nat
  | '\r' :: '\n' :: _ => 2
  | c :: _ => if isSpace c then 1 else 0
  | [] => 0

/-! ## Escapes and names -/

/-- The hexadecimal digits, at most six, that stand after a backslash. -/
def hexDigits (t : Text) : List Nat := (t.take 6 |>.map hexValue?).takeWhile Option.isSome |>.filterMap id

/-- How many characters after a backslash belong to its escape. -/
def escapeLength (t : Text) : Nat :=
  match hexDigits t with
  | [] => min 1 t.length
  | ds => ds.length + spaceLength (t.drop ds.length)

/-- The character with a code point; the replacement character where there is none, and for zero. -/
def ofCodePoint (n : Nat) : Char := if n != 0 && n.isValidChar then Char.ofNat n else '\uFFFD'

/-- The character that an escape stands for. -/
def escapedChar (t : Text) : Char :=
  match hexDigits t, t with
  | [], [] => '\uFFFD'
  | [], c :: _ => if c = '\x00' then '\uFFFD' else c
  | ds, _ => ofCodePoint (ds.foldl (fun n d => 16 * n + d) 0)

/-- The length of the name at the start of a text; `skip` characters belong to an escape already begun. -/
def nameLength : (skip : Nat) → Text → Nat
  | _, [] => 0
  | skip + 1, _ :: t => nameLength skip t + 1
  | 0, c :: t =>
    if isNamePart c then nameLength 0 t + 1
    else if c = '\\' && !startsWithLineEnd t then nameLength (escapeLength t) t + 1
    else 0

/-- The name that a text spells, with the escapes resolved and NUL replaced. -/
def unescapeFrom : (skip : Nat) → Text → Text
  | _, [] => []
  | skip + 1, _ :: t => unescapeFrom skip t
  | 0, c :: t =>
    if c = '\\' then escapedChar t :: unescapeFrom (escapeLength t) t
    else (if c = '\x00' then '\uFFFD' else c) :: unescapeFrom 0 t

/-- The name that a text spells. -/
def unescape (t : Text) : Text := unescapeFrom 0 t

/-- A name starts here. -/
def startsName : Text → Bool
  | '-' :: c :: t => isNameStart c || c == '-' || (c == '\\' && !startsWithLineEnd t)
  | '\\' :: t => !startsWithLineEnd t
  | c :: _ => isNameStart c
  | [] => false

/-! ## Numbers -/

/-- The length of the run of digits at the start. -/
def digitsLength (t : Text) : Nat := (t.takeWhile isAsciiDigit).length

/-- A text that starts with a digit. -/
def startsDigit : Text → Bool
  | c :: _ => isAsciiDigit c
  | [] => false

/-- A text whose start, after a sign if any, is an unsigned number. -/
def startsUnsigned : Text → Bool
  | '.' :: t => startsDigit t
  | t => startsDigit t

/-- The length of a fraction: a point with at least one digit. -/
def fractionLength : Text → Nat
  | '.' :: t => if startsDigit t then digitsLength t + 1 else 0
  | _ => 0

/-- The length of an exponent: the letter, a sign if any, at least one digit. -/
def exponentLength : Text → Nat
  | e :: s :: t =>
    if e != 'e' && e != 'E' then 0
    else if isAsciiDigit s then digitsLength (s :: t) + 1
    else if (s == '+' || s == '-') && startsDigit t then digitsLength t + 2
    else 0
  | _ => 0

/-- The length of a percent sign or a unit. -/
def unitLength : Text → Nat
  | '%' :: _ => 1
  | t => if startsName t then nameLength 0 t else 0

/-- The length of an unsigned number with its unit. -/
def unsignedLength (t : Text) : Nat :=
  let a := digitsLength t
  let b := fractionLength (t.drop a)
  let c := exponentLength (t.drop (a + b))
  a + b + c + unitLength (t.drop (a + b + c))

/-! ## Strings, comments, URLs -/

/-- The token of a quoted text: a line end that no backslash precedes stops it, and then it is no string. The number
counts what follows the opening quote, the closing one included. -/
def stringToken (quote : Char) : (skip : Nat) → Text → TokenKind × Nat
  | _, [] => (.string, 0)
  | skip + 1, _ :: t => (stringToken quote skip t).map id (· + 1)
  | 0, c :: t =>
    if c = quote then (.string, 1)
    else if isLineEnd c then (.word, 0)
    else if c = '\\' then
      (stringToken quote (if startsWithLineEnd t then spaceLength t else escapeLength t) t).map id (· + 1)
    else (stringToken quote 0 t).map id (· + 1)

/-- The text of a comment after its opening mark, and how many characters it has with the closing mark. -/
def commentBody : Text → Text × Nat
  | [] => ([], 0)
  | '*' :: '/' :: _ => ([], 2)
  | c :: t => let (inside, n) := commentBody t; (c :: inside, n + 1)

/-- Where the reading of an unquoted URL stands: before its first character, in it, in the blanks after it, or in the
rest of one that has gone wrong. -/
inductive UrlState
  | leading | inside | trailing | bad
  deriving DecidableEq

/-- A character that an unquoted URL may not hold. -/
def isUrlBreaker (c : Char) : Bool :=
  let n := c.toNat
  (1 ≤ n && n ≤ 8) || n == 11 || (14 ≤ n && n ≤ 31) || n == 127 || c == '"' || c == '\'' || c == '('

/-- The next state of an unquoted URL after the character `c`, and how many characters of the rest `t` an escape takes;
`none` where `c` closes it. -/
def urlStep : UrlState → (c : Char) → (t : Text) → Option (UrlState × Nat)
  | .bad, c, t =>
    if c = ')' then none
    else if c = '\\' then
      match t with
      | d :: _ => some (.bad, if d = ')' || d = '\\' then 1 else 0)
      | [] => some (.bad, 0)
    else some (.bad, 0)
  | .trailing, c, _ =>
    if c = ')' then none else if isSpace c then some (.trailing, 0) else some (.bad, 0)
  | s, c, t =>
    if c = ')' then none
    else if isSpace c then some (if s = .leading then .leading else .trailing, 0)
    else if isUrlBreaker c then some (.bad, 0)
    else if c = '\\' then
      if startsWithLineEnd t then some (.bad, 0) else some (.inside, escapeLength t)
    else some (.inside, 0)

/-- The length of what follows `url(`, the closing parenthesis included. -/
def urlLength : UrlState → (skip : Nat) → Text → Nat
  | _, _, [] => 0
  | s, skip + 1, _ :: t => urlLength s skip t + 1
  | s, 0, c :: t =>
    match urlStep s c t with
    | none => 1
    | some (s', skip) => urlLength s' skip t + 1

/-- A text whose first character after blanks is a quote. -/
def startsQuoted (t : Text) : Bool :=
  match t.dropWhile isSpace with
  | c :: _ => c == '"' || c == '\''
  | [] => false

/-! ## Tokens -/

/-- The identifier, function or URL at the start of a text. -/
def nameToken (t : Text) : TokenKind × Nat :=
  let n := nameLength 0 t
  match t.drop n with
  | '(' :: rest =>
    let name := unescape (t.take n)
    if Text.sameIgnoringAsciiCase name "url" && !startsQuoted rest then (.word, n + 1 + urlLength .leading 0 rest)
    else (.function name, n + 1)
  | _ => (.word, n)

/-- The kind of the token that starts with `c` before `t`, and how many characters of `t` belong to it. -/
def scan (c : Char) (t : Text) : TokenKind × Nat :=
  if isSpace c then (.blank, (t.takeWhile isSpace).length)
  else if c = '"' || c = '\'' then stringToken c 0 t
  else if c = '(' then (.openBracket .paren, 0)
  else if c = '[' then (.openBracket .square, 0)
  else if c = '{' then (.openBracket .curly, 0)
  else if c = ')' then (.closeBracket .paren, 0)
  else if c = ']' then (.closeBracket .square, 0)
  else if c = '}' then (.closeBracket .curly, 0)
  else if c = ';' then (.semicolon, 0)
  else if c = ':' then (.colon, 0)
  else if c = ',' then (.comma, 0)
  else if c = '/' then
    match t with
    | '*' :: rest => let (inside, n) := commentBody rest; (.comment inside, n + 1)
    | _ => (.slash, 0)
  else if c = '#' then
    (.word, if startsName t || startsDigit t || Text.startsWith t "-" then nameLength 0 t else 0)
  else if c = '@' then (.word, if startsName t then nameLength 0 t else 0)
  else if c = '<' then (.word, if Text.startsWith t "!--" then 3 else 0)
  else if c = '+' then (.word, if startsUnsigned t then unsignedLength t else 0)
  else if c = '.' then (.word, if startsDigit t then unsignedLength (c :: t) - 1 else 0)
  else if isAsciiDigit c then (.word, unsignedLength (c :: t) - 1)
  else if c = '-' then
    if startsUnsigned t then (.word, unsignedLength t)
    else if Text.startsWith t "->" then (.word, 2)
    else if startsName (c :: t) then (nameToken (c :: t)).map id (· - 1)
    else (.word, 0)
  else if startsName (c :: t) then (nameToken (c :: t)).map id (· - 1)
  else (.word, 0)

end Token

/-- Cuts the first `fuel` tokens. -/
def tokensWithin : (fuel : Nat) → Text → List Token
  | 0, _ => []
  | _ + 1, [] => []
  | fuel + 1, c :: t =>
    let (kind, n) := Token.scan c t
    ⟨kind, c :: t.take n⟩ :: tokensWithin fuel (t.drop n)

/-- The tokens of a text; it has at most as many as characters. -/
def tokens (t : Text) : List Token := tokensWithin t.length t

theorem tokensWithin_text (fuel : Nat) (t : Text) (h : t.length ≤ fuel) :
    (tokensWithin fuel t).flatMap Token.text = t := by
  induction fuel generalizing t with
  | zero => cases t <;> simp_all [tokensWithin]
  | succ fuel ih =>
    cases t with
    | nil => rfl
    | cons c t =>
      have hd : (t.drop (Token.scan c t).2).length ≤ fuel := by simp at h ⊢; omega
      simp [tokensWithin, ih _ hd, List.take_append_drop]

/-- Cutting a text into tokens loses nothing. -/
theorem tokens_text (t : Text) : (tokens t).flatMap Token.text = t := tokensWithin_text _ _ (Nat.le_refl _)

end VendorCss
