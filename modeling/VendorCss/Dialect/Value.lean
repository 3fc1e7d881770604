import VendorCss.Dialect.Flexbox
import VendorCss.Dialect.Gradient
import VendorCss.Text.Classes

/-!
# How vendors spell values

A keyword or function of a value is spelled by a vendor as its prefix before the standard name, wherever the name stands
as a word. Gradients, sizes and a few others have a dialect of their own.

* `token` is the name looked for in values, `accepts` tells whether a declaration has it.
* `step?` brings a value closer to the spelling for a planned prefix; `spell?` repeats the step until nothing changes.
* `outdated?` gives the matcher for values that a planned prefix used to have.
-/

namespace VendorCss

/-- A family of values that vendors spell in the same way. -/
inductive ValueDialect
  /-- The prefix before the standard name. -/
  | plain
  | gradient | sizing | pixelated | imageSet | crossFade | displayFlex | displayGrid | filter
  deriving DecidableEq, Repr, Inhabited

/-- A matcher for values that are outdated. -/
structure OutdatedValue where
  unprefixed : Text
  prefixed : Text
  /-- What a value has to hold, as written, before the pattern is tried. -/
  needle : Text
  /-- The words looked for. -/
  pattern : WordPattern
  /-- A kind of gradient whose oldest form is looked for too. -/
  oldestGradient : Option Text := none

namespace OutdatedValue

/-- The matcher for a name as a word. -/
def word (unprefixed prefixed : Text) : OutdatedValue :=
  { unprefixed, prefixed, needle := prefixed, pattern := .word prefixed }

/-- The oldest form of a kind of gradient stands at the start of a text. -/
def startsOldest (kind t : Text) : Bool :=
  match Text.dropStartFolded? "-webkit-gradient(" t with
  | some inside =>
    match Text.dropStartFolded? kind inside.trimStart with
    | some [] => true
    | some (c :: _) => WordPattern.isDelimiter c
    | none => false
  | none => false

/-- Some word of a text starts the oldest form. -/
def holdsOldest (kind : Text) : Text → Bool
  | [] => false
  | c :: t => (WordPattern.isDelimiter c && startsOldest kind t) || holdsOldest kind t

/-- A value is outdated. -/
def accepts (o : OutdatedValue) (value : Text) : Bool :=
  value.contains o.needle &&
    (o.pattern.isIn value || o.oldestGradient.any fun kind => startsOldest kind value || holdsOldest kind value)

end OutdatedValue

namespace ValueDialect

/-- The dialect of a value feature. -/
def ofName (name : Text) : ValueDialect :=
  if name = "linear-gradient" || name = "repeating-linear-gradient" || name = "radial-gradient" ||
      name = "repeating-radial-gradient" then gradient
  else if name = "max-content" || name = "min-content" || name = "fit-content" || name = "fill" ||
      name = "fill-available" || name = "stretch" then sizing
  else if name = "pixelated" then pixelated
  else if name = "image-set" then imageSet
  else if name = "cross-fade" then crossFade
  else if name = "display-flex" || name = "inline-flex" then displayFlex
  else if name = "display-grid" || name = "inline-grid" then displayGrid
  else if name = "filter-function" then filter
  else plain

/-- The name looked for in values. -/
def token (d : ValueDialect) (name : Text) : Text :=
  match d with
  | displayFlex => if name = "display-flex" then "flex" else name
  | displayGrid => if name = "display-grid" then "grid" else name
  | filter => "filter"
  | _ => name

/-- The pattern of a token. -/
def pattern (d : ValueDialect) (token : Text) : WordPattern := if d = sizing then .size token else .word token

/-- A declaration has the token. -/
def accepts (dialect : ValueDialect) (token : Text) (d : Declaration) : Bool :=
  match dialect with
  | displayFlex | displayGrid => d.prop = "display" && d.value = token
  | _ => d.value.contains token && (dialect.pattern token).isIn d.value

/-- A vendor knows the token in a property. Only WebKit had prefixed sizes of grid tracks, and prefixed gradients in
masks, list markers and generated content. -/
def applies (d : ValueDialect) (prop planned : Text) : Bool :=
  match d with
  | sizing => !prop.contains "grid" || planned = "-webkit-"
  | gradient =>
    !(prop.contains "mask" || prop = "list-style" || prop = "list-style-image" || prop = "content") ||
      planned = "-webkit-" || planned = "-webkit- old"
  | _ => true

/-! ## Names of their own -/

/-- What fills the space at hand, as vendors call it. -/
def stretchName? (token planned : Text) : Option Text :=
  if token = "stretch" || token = "fill" || token = "fill-available" then
    if planned = "-moz-" then some "-moz-available"
    else if planned = "-webkit-" then some "-webkit-fill-available"
    else none
  else none

/-- What keeps the edges of pixels, as vendors call it. -/
def pixelatedName? (planned : Text) : Option Text :=
  if planned = "-webkit-" then some "-webkit-optimize-contrast"
  else if planned = "-moz-" then some "-moz-crisp-edges"
  else none

/-- The template of a place: a name of its own, or the prefix before the word as written. The prefix is part of the
template and may itself quote the place. -/
def placeTemplate (own : Option Text) (planned : Text) : Text :=
  Template.reference 1 ++
    match own with
    | some name => name ++ Template.reference 3
    | none => planned ++ Template.reference 2

/-- The word replaced by a name, or with the prefix before it. -/
def respell (p : WordPattern) (own : Option Text) (planned value : Text) : Text :=
  p.substitute (placeTemplate own planned) value

/-! ## Images -/

/-- The length of blanks and a resolution such as `2x` at the start of a text. -/
def resolutionLength? (t : Text) : Option Nat :=
  let blanks : Text := t.leadingBlanks
  let digits : Text := (t.drop blanks.length).takeWhile isDigit
  let length := blanks.length + digits.length
  if blanks.isEmpty || digits.isEmpty then none
  else if ((t.drop length).head?).any isWordChar then some (length + 1)
  else if 2 ≤ digits.length then some length
  else none

/-- The place of a quoted image with its resolution, and the same as a `url(…)`. -/
def bareImagePlace (_ : Option Char) (t : Text) : Option (Nat × Text) :=
  match t with
  | [] => none
  | quote :: rest =>
    let inside := rest.takeWhile (· != quote)
    let after := rest.drop (inside.length + 1)
    if (quote = '"' || quote = '\'') && inside.length < rest.length then
      (resolutionLength? after).map fun n =>
        (inside.length + 2 + n, "url(" ++ quote :: inside ++ quote :: ')' :: after.take n)
    else none

/-- The part of a cross-fade at the start of a text, if one is there: digits with at most one other character before or
among them, and a percent sign. -/
def shareText? (t : Text) : Option Text :=
  let digits := t.takeWhile isDigit
  let rest := t.drop digits.length
  let withPercent (n : Nat) : Text := t.take (if (t.drop n).head? = some '%' then n + 1 else n)
  match rest with
  | c :: more =>
    let further := more.takeWhile isDigit
    if c != '\n' && !further.isEmpty then some (withPercent (digits.length + 1 + further.length))
    else if digits.isEmpty then none
    else some (withPercent digits.length)
  | [] => if digits.isEmpty then none else some t

/-- The first share in a text. -/
def findShare? : Text → Option Text
  | [] => none
  | c :: t => (shareText? (c :: t)).or (findShare? t)

/-- The text after its first `n` bytes; none where they end inside a character. -/
def dropBytes : (n : Nat) → Text → Text
  | 0, t => t
  | _, [] => []
  | n, c :: t => if c.utf8Size ≤ n then dropBytes (n - c.utf8Size) t else []

/-- A word of a value that is a cross-fade, for a planned prefix. WebKit has the share last, and needs one. -/
def crossFadeWord (token planned word : Text) : Text :=
  match Text.dropStart? (token ++ ['(']) word with
  | none => word
  | some inner =>
    let (args, after) := (Text.splitLast ")" inner).getD (inner, [])
    let args :=
      if planned = "-webkit-" then
        match findShare? args with
        | some share => (dropBytes share.byteLength args).trim ++ ", " ++ share
        | none => args ++ ", 0.5"
      else args
    planned ++ token ++ '(' :: args ++ ')' :: after

/-! ## Spelling -/

/-- A value after one step of spelling; no result gives the planned prefix up. -/
def step? (d : ValueDialect) (token planned value : Text) : Option Text :=
  let p := d.pattern token
  match d with
  | plain | displayGrid | filter => some (respell p none planned value)
  | sizing => some (respell p (stretchName? token planned) planned value)
  | pixelated => some (respell p (pixelatedName? planned) planned value)
  | imageSet =>
    let value := respell p none planned value
    some (if planned = "-webkit-" then Text.substitute bareImagePlace value else value)
  | crossFade => some (Text.join " " ((Separated.bySpace value).map (crossFadeWord token planned)))
  | displayFlex => Flexbox.displayName? token planned
  | gradient => Gradient.spell? token value planned

/-- A value spelled for a planned prefix: steps until nothing changes. Nothing bounds the steps; a gradient with an open
square bracket goes on changing. -/
def spell? (d : ValueDialect) (token planned value : Text) : Option Text :=
  match d.step? token planned value with
  | none => none
  | some next => if next = value then some value else d |>.spell? token planned next
partial_fixpoint

/-! ## Outdated values -/

/-- The kind of a gradient in its oldest form. -/
def gradientKind (token : Text) : Text :=
  if token = "linear-gradient" then "linear"
  else if token = "repeating-linear-gradient" then "repeating-linear"
  else if token = "repeating-radial-gradient" then "repeating-radial"
  else "radial"

/-- The matcher for the values of a planned prefix, if it has any. -/
def outdated? (d : ValueDialect) (token planned : Text) : Option OutdatedValue :=
  match d with
  | displayFlex => (Flexbox.displayName? token planned).map (.word token)
  | pixelated => some (.word token ((pixelatedName? planned).getD (planned ++ token)))
  | sizing =>
    let prefixed := (stretchName? token planned).getD (planned ++ token)
    some { unprefixed := token, prefixed, needle := prefixed, pattern := .size prefixed }
  | gradient =>
    let prefixed := planned ++ token
    if planned = "-webkit-" then
      let kind := gradientKind token
      some { unprefixed := token, prefixed, needle := "-gradient", pattern := .word ("-webkit-" ++ kind ++ "-gradient"),
             oldestGradient := some kind }
    else some (.word token prefixed)
  | _ => some (.word token (planned ++ token))

end ValueDialect

end VendorCss
