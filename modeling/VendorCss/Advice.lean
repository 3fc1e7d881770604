import VendorCss.Css.Component
import VendorCss.Css.Node
import VendorCss.Options
import VendorCss.Text.Case
import VendorCss.Text.Classes

/-!
# Advice to authors

Some declarations will not do what their author means, whatever prefixes are added: names and keywords that were dropped
from a draft, gradients in the old syntax, and features of grid that the first draft did not have. `Advice.on` says what
there is to say about a declaration among those of its rule, and whether it is to be left without prefixes.
-/

namespace VendorCss

/-- What is said about a declaration. -/
structure Advice where
  /-- Messages, each with the word in the declaration that matters if there is one. -/
  remarks : List (Text × Option Text) := []
  /-- No prefixed copies of the declaration are written. -/
  skip : Bool := false
  deriving DecidableEq, Repr, Inhabited

namespace Advice

/-- Nothing to say. -/
def none : Advice := {}

/-- One message. -/
def remark (message : Text) : Advice := { remarks := [(message, .none)] }

/-- One message about a word. -/
def remarkOn (word message : Text) : Advice := { remarks := [(message, some word)] }

/-- The same advice, where the declaration is left without prefixes. -/
def skipping (a : Advice) : Advice := { a with skip := true }

/-- Both of two pieces of advice. -/
def and (a b : Advice) : Advice := ⟨a.remarks ++ b.remarks, a.skip || b.skip⟩

/-- Advice that holds under a condition. -/
def when (condition : Bool) (a : Advice) : Advice := if condition then a else .none

/-! ## Rules around a declaration -/

/-- The properties of box alignment that end in a word. -/
def alignments (ending : Text) : List Text :=
  (["align", "justify", "place"] : List Text).map (· ++ '-' :: ending)

/-- A property sets a gap of grids: `grid-gap`, or with one word between. -/
def isGridGap (prop : Text) : Bool :=
  match Text.dropStart? "grid-" prop with
  | some rest =>
    let word := rest.takeWhile isAsciiLetter
    rest.startsWith "gap" || (!word.isEmpty && Text.startsWith (rest.drop word.length) "-gap")
  | .none => false

/-- The declarations of a rule make it a grid. -/
def isGrid (ds : List Declaration) : Bool :=
  ds.any fun (d : Declaration) =>
    (d.prop = "display" && d.value.contains "grid") || d.prop.startsWith "grid-template" || isGridGap d.prop

/-- The declarations of a rule make it a flexbox. -/
def isFlexbox (ds : List Declaration) : Bool :=
  ds.any fun (d : Declaration) => d.prop = "display" && d.value.contains "flex"

/-- Some declaration has a property. -/
def declares (ds : List Declaration) (prop : Text) : Bool := ds.any fun (d : Declaration) => d.prop == prop

/-- The declarations of a rule draw a template. -/
def drawsTemplate (ds : List Declaration) : Bool := declares ds "grid-template" || declares ds "grid-template-areas"

/-! ## Grids -/

/-- Advice on `grid-gap`. -/
def onGridGap (ds : List Declaration) (mode : GridMode) : Advice :=
  if drawsTemplate ds then .none
  else
    match mode with
    | .autoplace =>
      when (!(declares ds "grid-template-rows" && declares ds "grid-template-columns"))
        (remark ("grid-gap only works if grid-template(-areas) is being used or both rows and columns have been " ++
          "declared and cells have not been manually placed inside the explicit grid"))
    | .noAutoplace => remark "grid-gap only works if grid-template(-areas) is being used"
    | .off => .none

/-- Advice on `grid-auto-flow`. -/
def onGridFlow (ds : List Declaration) (value : Text) : Advice :=
  if drawsTemplate ds then remark "grid-auto-flow is not supported by IE"
  else if value.contains "dense" then remark "grid-auto-flow: dense is not supported by IE"
  else
    when (!declares ds "grid-template-rows" && !declares ds "grid-template-columns")
      (remark ("grid-auto-flow works only if grid-template-rows and grid-template-columns are present in the same " ++
        "rule"))

/-- Advice on the alignment of the items of a grid. -/
def onGridItems (selector : Text) (d : Declaration) : Advice :=
  let fixed := Text.replaceFirst "-items" "-self" d.prop
  remark ("IE does not support " ++ d.prop ++ " on grid containers. Try using " ++ fixed ++
    " on child elements instead: " ++ selector ++ " > * \x7b " ++ fixed ++ ": " ++ d.value ++ " \x7d")

/-- Advice on a declaration in a rule where grids are written. -/
def onGrid (ds : List Declaration) (selector : Text) (mode : GridMode) (d : Declaration) : Advice :=
  let prop := d.prop
  let value := d.value
  (when (value = "subgrid") (remark "IE does not support subgrid")).and
    (if (alignments "items").contains prop && isGrid ds then onGridItems selector d
    else if (alignments "content").contains prop && isGrid ds then
      remark ("IE does not support " ++ prop ++ " on grid containers")
    else if prop = "display" && value = "contents" then
      (remark "Please do not use display: contents; if you have grid setting enabled").skipping
    else if prop = "grid-gap" then onGridGap ds mode
    else if prop = "grid-auto-columns" || prop = "grid-auto-rows" then
      (remark (prop ++ " is not supported by IE")).skipping
    else if prop = "grid-auto-flow" then (onGridFlow ds value).skipping
    else if value.contains "auto-fit" then
      (remarkOn "auto-fit" "auto-fit value is not supported by IE").skipping
    else if value.contains "auto-fill" then
      (remarkOn "auto-fill" "auto-fill value is not supported by IE").skipping
    else
      when (prop.startsWith "grid-template" && value.contains "[")
        (remarkOn "["
          ("Autoprefixer currently does not support line names. Try using grid-template-areas instead.")))

/-! ## Gradients -/

/-- What follows a number with its unit, or a percentage. -/
def afterLength? (t : Text) : Option Text :=
  let digits := t.takeWhile isDigit
  let word := t.takeWhile isWordChar
  let rest := t.drop word.length
  if digits.isEmpty then .none
  else if rest.head? = some '%' && word.length = digits.length then some rest.tail
  else some rest

/-- The arguments of a radial gradient start with a position of two lengths. -/
def startsWithPosition (t : Text) : Bool :=
  let second := (afterLength? t.trimStart).bind fun rest =>
    if rest.head?.any isBlank then afterLength? rest.trimStart else .none
  second.any fun rest => rest.trimStart.head? = some ','

/-- The arguments of a linear gradient start with a side. -/
def startsWithSide (t : Text) : Bool :=
  (["top", "left", "right", "bottom"] : List Text).any fun side => (Text.dropStartFolded? side t.trimStart).isSome

/-- A text calls a function, no hyphen being before its name, with arguments that pass a test; `last` is the character
before the text. -/
def calls (name : Text) (test : Text → Bool) : (last : Option Char) → Text → Bool
  | _, [] => false
  | last, c :: t =>
    (last != some '-' && (Text.dropStartFolded? (name ++ ['(']) (c :: t)).any test) || calls name test (some c) t

/-- The start of every remark on the syntax of gradients. -/
def outdatedGradient (remedy : Text) : Advice := remark ("Gradient has outdated direction syntax. " ++ remedy)

/-- Advice on a word among the arguments of a radial gradient. -/
def onRadialWord (c : Component) : Advice :=
  match c with
  | .word w =>
    if w = "cover" then outdatedGradient "Replace `cover` to `farthest-corner`."
    else if w = "contain" then outdatedGradient "Replace `contain` to `closest-side`."
    else .none
  | _ => .none

/-- Advice on radial gradients in a value. -/
def onRadial (value : Text) : Advice :=
  if !value.contains "radial-gradient" then .none
  else if calls "radial-gradient" startsWithPosition .none value then
    outdatedGradient "New syntax is like `closest-side at 0 0` instead of `0 0, closest-side`."
  else
    let name : Text := "radial-gradient"
    let radial := (Component.ofText value).filter fun c => c.isFunction && c.text == name
    ((radial.flatMap Component.args).map onRadialWord).foldl Advice.and .none

/-- Advice on linear gradients in a value. -/
def onLinear (value : Text) : Advice :=
  when (value.contains "linear-gradient" && calls "linear-gradient" startsWithSide .none value)
    (outdatedGradient "New syntax is like `to left` instead of `right`.")

/-! ## Sizes -/

/-- The properties that size a box. -/
def sizes : List Text :=
  ["width", "height", "min-width", "max-width", "min-height", "max-height", "inline-size", "min-inline-size",
   "max-inline-size", "block-size", "min-block-size", "max-block-size"]

/-- Advice on the old keywords for filling the available space. -/
def onSize (d : Declaration) : Advice :=
  if !sizes.contains d.prop || d.value.contains "-fill-available" then .none
  else if d.value.contains "fill-available" then
    remark "Replace fill-available to stretch, because spec had been changed"
  else
    when ((Component.ofText d.value).any fun c => c.isWord && c.text == "fill".toList)
      (remark "Replace fill to stretch, because spec had been changed")

/-! ## Declarations -/

/-- Advice by the property of a declaration, where `grid` is the treatment of grids if they are written at all. -/
def onProperty (ds : List Declaration) (selector : Text) (grid : Option GridMode) (d : Declaration) : Advice :=
  let prop := d.prop
  let value := d.value
  if prop = "color-adjust" then
    when (!declares ds "print-color-adjust")
      (remark ("Replace color-adjust to print-color-adjust. The color-adjust shorthand is currently deprecated."))
  else if prop = "grid-row-span" || prop = "grid-column-span" then
    (remark (prop ++ " is not part of final Grid Layout. Use " ++ (Text.dropEnd? "-span" prop).getD prop ++
      ['.'])).skipping
  else if prop = "display" && value = "box" then
    (remark "You should write display: flex by final spec instead of display: box").skipping
  else if prop = "text-emphasis-position" then
    when (value = "under" || value = "over")
      (remark ("You should use 2 values for text-emphasis-position For example, `under left` instead of just " ++
        "`under`."))
  else if (alignments "items" ++ alignments "content").contains prop && isFlexbox ds then
    when (value = "start" || value = "end")
      (remark (value ++ " value has mixed support, consider using flex-" ++ value ++ " instead"))
  else if prop = "text-decoration-skip" && value = "ink" then
    remark ("Replace text-decoration-skip: ink to text-decoration-skip-ink: auto, because spec had been changed")
  else
    let onGrid := (grid.map fun mode => onGrid ds selector mode d).getD .none
    if onGrid.skip then onGrid else onGrid.and ((onRadial value).and (onLinear value))

/-- Advice on a declaration among the declarations `ds` of the rule of a selector. -/
def on (ds : List Declaration) (selector : Text) (grid : Option GridMode) (d : Declaration) : Advice :=
  let a := onProperty ds selector grid d
  if a.skip then a else a.and (onSize d)

end Advice

end VendorCss
