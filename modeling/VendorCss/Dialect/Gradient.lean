import VendorCss.Css.Component
import VendorCss.Decimal.Read
import VendorCss.Decimal.Remainder
import VendorCss.Text.Case
import VendorCss.Text.Classes

/-!
# Gradients

A gradient in use names the side that it runs to (`to right`), counts angles clockwise from the top, and puts the
position of a circle after its shape (`circle at center`). Prefixed gradients name the side that they start from, count
angles counterclockwise from the right, and put the position first. The oldest form is `-webkit-gradient(linear, …)`,
with two corners and a function for each colour.

`toStandard` writes the arguments of a gradient in the standard way, `toPrefixed` leads from there to the prefixed form,
and `toOldest?` to the oldest one, which has no angles, lengths or other shapes.
-/

namespace VendorCss.Gradient

/-! ## Sides -/

/-- The sides and those opposite. -/
def opposites : List (Text × Text) := [("top", "bottom"), ("left", "right"), ("bottom", "top"), ("right", "left")]

/-- A side turned to the one opposite; other words stay. -/
def opposite (word : Text) : Text := ((opposites.find? fun (s, _) => s == word.lowercase).map Prod.snd).getD word

/-- The text holds the name of a side. -/
def namesSide (t : Text) : Bool := opposites.any fun (side, _) => t.containsFolded side

/-- The words before the first divider turned to the opposite sides. -/
def turnSides : List Component → List Component
  | [] => []
  | .div t b a :: cs => .div t b a :: cs
  | .word w :: cs => .word (opposite w) :: turnSides cs
  | c :: cs => c :: turnSides cs

/-- `top left` as `to bottom right`; arguments that name no side first, or start with `to`, stay. -/
def towards (args : List Component) : List Component :=
  match args with
  | [] => []
  | first :: _ =>
    if first.text = "to" || !namesSide first.text then args else .word "to" :: .oneSpace :: turnSides args

/-- `to top left` as `bottom right`. -/
def fromSide (args : List Component) : List Component := turnSides (args.drop 2)

/-! ## Angles -/

/-- The exponent at the start of a text, if one is there. -/
def exponentText (t : Text) : Text :=
  match t with
  | e :: rest =>
    if e = 'e' || e = 'E' then
      let sign : Text := if rest.head? = some '+' || rest.head? = some '-' then rest.take 1 else []
      let digits := (rest.drop sign.length).takeWhile isDigit
      if digits.isEmpty then [] else e :: sign ++ digits
    else []
  | [] => []

/-- The number that a text starts with, as written. -/
def numberText? (t : Text) : Option Text :=
  let t := t.trimStart
  let sign : Text := if t.head? = some '+' || t.head? = some '-' then t.take 1 else []
  let t := t.drop sign.length
  let whole := t.takeWhile isDigit
  let rest := t.drop whole.length
  let fraction : Text := if rest.head? = some '.' then '.' :: (rest.drop 1).takeWhile isDigit else []
  if whole.isEmpty && fraction.length ≤ 1 then none
  else some (sign ++ whole ++ fraction ++ exponentText (rest.drop fraction.length))

/-- The number that a text starts with. -/
def number? (t : Text) : Option Float := (numberText? t).bind Decimal.float?

/-- A digit stands directly before some place of `unit`. -/
def endsNumber (unit : Text) : Text → Bool
  | [] => false
  | c :: t => (isDigit c && Text.startsWith t unit) || endsNumber unit t

/-- The degrees of a text, printed. -/
def degrees (x : Float) : Text := Decimal.ofFloat x ++ "deg"

/-- An angle of `full` units a turn, in degrees. -/
def ofUnits (t : Text) (full : Float) : Option Text := (number? t).map fun x => degrees (x / full * 360)

/-- The double nearest to the number of radians of a full turn. -/
def fullTurn : Float := Float.ofBits 0x401921FB54442D18

/-- An angle in degrees within one turn, if the text is an angle. -/
def toDegrees? (t : Text) : Option Text :=
  if endsNumber "grad" t then ofUnits t 400
  else if endsNumber "rad" t then ofUnits t fullTurn
  else if endsNumber "turn" t then ofUnits t 1
  else if t.contains "deg" then (number? t).map fun x => degrees (Decimal.wrapped x 360)
  else none

/-- The component with another text if it is a word. -/
def withWord (t : Text) : Component → Component
  | .word _ => .word t
  | c => c

/-- The side that a right angle points to. -/
def sideOfAngle? (t : Text) : Option Text :=
  if t = "0deg" || t = "0" then some "top"
  else if t = "90deg" then some "right"
  else if t = "180deg" then some "bottom"
  else if t = "270deg" then some "left"
  else none

/-- The gradients along a line. -/
def isLinear (name : Text) : Bool := name = "linear-gradient" || name = "repeating-linear-gradient"

/-- A first angle in degrees, and a right angle of a linear gradient as a side. -/
def withDegrees (name : Text) (args : List Component) : List Component :=
  match args with
  | [] => []
  | first :: rest =>
    let first := match toDegrees? first.text with | some t => withWord t first | none => first
    match isLinear name, sideOfAngle? first.text with
    | true, some side => .word "to" :: .oneSpace :: .word side :: rest
    | _, _ => first :: rest

/-- A first angle counted counterclockwise from the right. -/
def turnAngle (args : List Component) : List Component :=
  match args with
  | [] => []
  | first :: rest =>
    match number? first.text with
    | some x =>
      withWord (degrees (Decimal.roundThousandths (Decimal.remainder (450 - x).abs 360))) first :: rest
    | none => args

/-! ## Positions -/

/-- Where the search for a position stands. -/
inductive AtSearch
  | before | at | after
  deriving DecidableEq

/-- Before the first divider there are a space, `at` and a space. -/
def hasPosition (s : AtSearch) : List Component → Bool
  | [] => false
  | c :: cs =>
    if s = .before && c.isSpace then hasPosition .at cs
    else if s = .at && c.text = "at" then hasPosition .after cs
    else if s = .after && c.isSpace then true
    else if c.isAnyDiv then false
    else hasPosition .before cs

/-- A comma and a space. -/
def comma : Component := .div "," [] " "

/-- The parts before and after the first space, `at`, space. -/
def splitAtPosition? : List Component → Option (List Component × List Component)
  | s :: a :: s' :: cs =>
    if s.isSpace && a.text = "at" && s'.isSpace then some ([], cs)
    else (splitAtPosition? (a :: s' :: cs)).map fun (shape, rest) => (s :: shape, rest)
  | _ => none

/-- `circle at center` as `center, circle`. -/
def positionFirst (args : List Component) : List Component :=
  match splitAtPosition? args with
  | none => args
  | some (shape, rest) =>
    let position := rest.takeWhile fun c => !c.isAnyDiv
    let tail := rest.drop position.length
    position ++ tail.head?.getD comma :: shape ++ tail

/-! ## The two forms -/

/-- The arguments in the standard way. -/
def toStandard (name : Text) (args : List Component) : List Component := withDegrees name (towards args)

/-- Standard arguments in the prefixed form. -/
def toPrefixed (args : List Component) : List Component :=
  match args with
  | [] => []
  | first :: _ =>
    if first.text = "to" then fromSide args
    else if first.text.contains "deg" then turnAngle args
    else if hasPosition .before args then positionFirst args
    else args

/-! ## The oldest form -/

/-- The corners that the oldest form runs between, by the side that a gradient runs to. -/
def corners : List (Text × Text) :=
  [("top", "left bottom, left top"), ("left", "right top, left top"), ("bottom", "left top, left bottom"),
    ("right", "left top, right top"), ("top right", "left bottom, right top"),
    ("top left", "right bottom, left top"), ("right top", "left bottom, right top"),
    ("right bottom", "left top, right bottom"), ("bottom right", "left top, right bottom"),
    ("bottom left", "right top, left bottom"), ("left top", "right bottom, left top"),
    ("left bottom", "right top, left bottom")]

/-- The arguments, each with the comma after it. -/
def argumentGroups : List Component → List (List Component)
  | [] => [[]]
  | c :: cs =>
    if c.isDiv "," then [c] :: argumentGroups cs
    else
      match argumentGroups cs with
      | [] => [[c]]
      | g :: gs => (c :: g) :: gs

/-- The first comma, or one with a space after it. -/
def firstComma (cs : List Component) : Component := (cs.find? (·.isDiv ",")).getD comma

/-- The corners in place of the side, or before all arguments where no side is named. -/
def withCorners : List (List Component) → List (List Component)
  | [] => []
  | first :: rest =>
    if first.head?.map Component.text = some "to" then
      let words := ((first.drop 2).filter Component.isWord).map fun c => c.text.lowercase
      let side := Text.join " " words
      [.word (((corners.find? fun (s, _) => s == side).map Prod.snd).getD side), firstComma first] :: rest
    else [.word "left top, left bottom", firstComma first] :: first :: rest

/-- The function for a colour; `first` and `last` say where it stands. -/
def colorStop (first last : Bool) (color : Text) (position : Option Text) : Text :=
  if first && (position.isNone || position = some "0%") then "from(" ++ color ++ [')']
  else if last && (position.isNone || position = some "100%") then "to(" ++ color ++ [')']
  else
    match position with
    | some p => "color-stop(" ++ p ++ ", " ++ color ++ [')']
    | none => "color-stop(" ++ color ++ [')']

/-- A colour as a function, with its comma. -/
def stopGroup (first last : Bool) (group : List Component) : List Component :=
  let color := ((group.head?).map Component.render).getD []
  let position := (((group.drop 1).take 2).find? Component.isWord).map Component.text
  .word (colorStop first last color position) :: (group.getLast?.filter (·.isDiv ",")).toList

/-- Colours as functions, the first of them being `first`. -/
def stopGroups (first : Bool) : List (List Component) → List (List Component)
  | [] => []
  | [g] => [stopGroup first true g]
  | g :: gs => stopGroup first false g :: stopGroups false gs

/-- Standard arguments of a linear gradient in the oldest form, if it has one. -/
def toOldest? (name : Text) (args : List Component) : Option (List Component) :=
  let text := Component.renderAll args
  if name ≠ "linear-gradient" || (args.head?.any fun c => c.text.contains "deg") || text.contains "px" ||
      text.contains "-corner" || text.contains "-side" then
    none
  else
    match withCorners (argumentGroups args) with
    | [] => none
    | side :: colors =>
      let flat := side ++ (stopGroups true colors).flatten
      some (.word "linear" :: firstComma flat :: flat)

/-- One component spelled for a planned prefix: a gradient of this name changes, anything else stays. There is no
result where the oldest form is asked for and does not exist. -/
def spellOne? (name planned : Text) : Component → Option Component
  | .function n before after args =>
    if n = name then
      let args := toStandard name args
      if planned = "-webkit- old" then
        (toOldest? name args).map (.function "-webkit-gradient" before after)
      else some (.function (planned ++ n) before after (toPrefixed args))
    else some (.function n before after args)
  | c => some c

/-- A value with its gradients of one name spelled for a planned prefix. -/
def spell? (name value planned : Text) : Option Text :=
  ((Component.ofText value).mapM (spellOne? name planned)).map Component.renderAll

end VendorCss.Gradient
