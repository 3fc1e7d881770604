import VendorCss.Dialect.Flexbox

/-!
# How vendors spell properties

Most properties are spelled by a vendor as its prefix before the standard name. Others had another name in an old draft
or in one browser, or their values were written in another way; for each family of such properties there is a dialect.

* `ofName` gives the dialect of a name, old names included.
* `normalize` leads from an old name to the standard one, `prefixed` from a standard name to that of a planned prefix.
* `accepts` tells whether a declaration is of a kind that needs a prefix at all.
* `spell?` gives the prefixed copy of a declaration, if there is one.
-/

namespace VendorCss

/-- A family of properties that vendors spell in the same way. -/
inductive PropertyDialect
  /-- The prefix before the standard name. -/
  | plain
  | flex | order | flexFlow | flexDirection | flexGrow | flexWrap | flexShrink | flexBasis
  | alignItems | alignSelf | alignContent | justifyContent
  | gridStart | gridEnd | gridArea | gridRowColumn | placeSelf | gridRowsColumns | gridTemplate | gridTemplateAreas
  | gridRowAlign | gridColumnAlign
  | filter | animation | appearance | backdropFilter | backgroundClip | backgroundSize
  | maskBorder | maskComposite | userSelect | columnBreak | writingMode | borderImage | borderRadius
  | blockLogical | inlineLogical | transform | imageRendering
  | textDecoration | textEmphasisPosition | textDecorationSkipInk | printColorAdjust | overscrollBehavior
  deriving DecidableEq, Repr, Inhabited

namespace PropertyDialect

/-- All dialects of names that are not spelled plainly. -/
def all : List PropertyDialect :=
  [flex, order, flexFlow, flexDirection, flexGrow, flexWrap, flexShrink, flexBasis, alignItems, alignSelf,
   alignContent, justifyContent, gridStart, gridEnd, gridArea, gridRowColumn, placeSelf, gridRowsColumns,
   gridTemplate, gridTemplateAreas, gridRowAlign, gridColumnAlign, filter, animation, appearance, backdropFilter,
   backgroundClip, backgroundSize, maskBorder, maskComposite, userSelect, columnBreak, writingMode, borderImage,
   borderRadius, blockLogical, inlineLogical, transform, imageRendering, textDecoration, textEmphasisPosition,
   textDecorationSkipInk, printColorAdjust, overscrollBehavior]

/-- The names that belong to a dialect, old ones included. -/
def family : PropertyDialect → List Text
  | plain => []
  | flex => ["flex", "box-flex"]
  | order => ["order", "flex-order", "box-ordinal-group"]
  | flexFlow => ["flex-flow", "box-lines"]
  | flexDirection => ["flex-direction", "box-direction", "box-orient"]
  | flexGrow => ["flex-grow", "flex-positive"]
  | flexWrap => ["flex-wrap"]
  | flexShrink => ["flex-shrink", "flex-negative"]
  | flexBasis => ["flex-basis", "flex-preferred-size"]
  | alignItems => ["align-items", "flex-align", "box-align"]
  | alignSelf => ["align-self", "flex-item-align"]
  | alignContent => ["align-content", "flex-line-pack"]
  | justifyContent => ["justify-content", "flex-pack", "box-pack"]
  | gridStart => ["grid-row-start", "grid-column-start"]
  | gridEnd => ["grid-row-end", "grid-column-end"]
  | gridArea => ["grid-area"]
  | gridRowColumn => ["grid-row", "grid-column"]
  | placeSelf => ["place-self"]
  | gridRowsColumns => ["grid-template-rows", "grid-template-columns"]
  | gridTemplate => ["grid-template"]
  | gridTemplateAreas => ["grid-template-areas"]
  | gridRowAlign => ["grid-row-align"]
  | gridColumnAlign => ["grid-column-align"]
  | filter => ["filter"]
  | animation => ["animation", "animation-direction"]
  | appearance => ["appearance"]
  | backdropFilter => ["backdrop-filter"]
  | backgroundClip => ["background-clip"]
  | backgroundSize => ["background-size"]
  | maskBorder =>
    ["mask-border", "mask-border-source", "mask-border-slice", "mask-border-width", "mask-border-outset",
     "mask-border-repeat", "mask-box-image", "mask-box-image-source", "mask-box-image-slice", "mask-box-image-width",
     "mask-box-image-outset", "mask-box-image-repeat"]
  | maskComposite => ["mask", "mask-composite"]
  | userSelect => ["user-select"]
  | columnBreak =>
    ["break-inside", "page-break-inside", "column-break-inside", "break-before", "page-break-before",
     "column-break-before", "break-after", "page-break-after", "column-break-after"]
  | writingMode => ["writing-mode"]
  | borderImage => ["border-image"]
  | borderRadius =>
    ["border-radius", "border-top-left-radius", "border-radius-topleft", "border-top-right-radius",
     "border-radius-topright", "border-bottom-left-radius", "border-radius-bottomleft", "border-bottom-right-radius",
     "border-radius-bottomright"]
  | blockLogical =>
    ["border-block-start", "border-block-end", "margin-block-start", "margin-block-end", "padding-block-start",
     "padding-block-end", "border-before", "border-after", "margin-before", "margin-after", "padding-before",
     "padding-after"]
  | inlineLogical =>
    ["border-inline-start", "border-inline-end", "margin-inline-start", "margin-inline-end", "padding-inline-start",
     "padding-inline-end", "border-start", "border-end", "margin-start", "margin-end", "padding-start", "padding-end"]
  | transform => ["transform", "transform-origin"]
  | imageRendering => ["image-rendering", "interpolation-mode"]
  | textDecoration => ["text-decoration"]
  | textEmphasisPosition => ["text-emphasis-position"]
  | textDecorationSkipInk => ["text-decoration-skip-ink"]
  | printColorAdjust => ["print-color-adjust", "color-adjust"]
  | overscrollBehavior => ["overscroll-behavior", "scroll-chaining"]

/-- Every name with its dialect. -/
def names : List (Text × PropertyDialect) := all.flatMap fun d => d.family.map (·, d)

/-- The dialect of a name without vendor prefix. -/
def ofName (name : Text) : PropertyDialect := ((names.find? fun (n, _) => n == name).map Prod.snd).getD .plain

/-! ## Names -/

/-- The corners of a border as Mozilla named them. -/
def mozillaCorners : List (Text × Text) :=
  [("border-top-left-radius", "border-radius-topleft"), ("border-top-right-radius", "border-radius-topright"),
    ("border-bottom-left-radius", "border-radius-bottomleft"),
    ("border-bottom-right-radius", "border-radius-bottomright")]

/-- The old names of the sides of a box along the line: `margin-start`. -/
def inlineSides : List (Text × Text) :=
  [("margin", "start"), ("margin", "end"), ("padding", "start"), ("padding", "end"), ("border", "start"),
    ("border", "end")]

/-- The place of an old name of a side, and its standard name. -/
def inlineSidePlace (_ : Option Char) (t : Text) : Option (Nat × Text) :=
  (inlineSides.find? fun (box, side) => t.startsWith (box ++ '-' :: side)).map fun (box, side) =>
    (box.length + 1 + side.length, box ++ "-inline-" ++ side)

/-- The standard name that a name without vendor prefix stands for. -/
def normalize (d : PropertyDialect) (prop : Text) : Text :=
  match d with
  | .flex => "flex"
  | .order => "order"
  | .flexDirection => "flex-direction"
  | .flexGrow => "flex-grow"
  | .flexShrink => "flex-shrink"
  | .flexBasis => "flex-basis"
  | .alignItems => "align-items"
  | .alignSelf | .gridRowAlign => "align-self"
  | .gridColumnAlign => "justify-self"
  | .alignContent => "align-content"
  | .justifyContent => "justify-content"
  | .gridStart => Text.replaceFirst "-start" [] prop
  | .maskBorder => Text.replace "mask-box-image" "mask-border" prop
  | .columnBreak =>
    if prop.contains "inside" then "break-inside"
    else if prop.contains "before" then "break-before"
    else "break-after"
  | .borderRadius => ((mozillaCorners.find? fun (_, m) => m == prop).map Prod.fst).getD prop
  | .blockLogical =>
    if prop.contains "-before" then Text.replaceFirst "-before" "-block-start" prop
    else Text.replaceFirst "-after" "-block-end" prop
  | .inlineLogical => Text.substituteFirst inlineSidePlace none prop
  | .imageRendering => "image-rendering"
  | .printColorAdjust => "print-color-adjust"
  | .overscrollBehavior => "overscroll-behavior"
  | _ => prop

/-- The name of a standard property for a planned prefix. -/
def prefixed (d : PropertyDialect) (prop planned : Text) : Text :=
  match d with
  | .flex => FlexNames.prefixed { year2009 := some "box-flex" } prop planned
  | .order => FlexNames.prefixed { year2009 := some "box-ordinal-group", year2012 := some "flex-order" } prop planned
  | .flexGrow => FlexNames.prefixed { year2009 := some "box-flex", year2012 := some "flex-positive" } prop planned
  | .flexFlow | .flexDirection | .flexWrap => FlexNames.prefixed {} prop planned
  | .flexShrink => FlexNames.prefixed { year2012 := some "flex-negative" } prop planned
  | .flexBasis => FlexNames.prefixed { year2012 := some "flex-preferred-size" } prop planned
  | .alignItems => FlexNames.prefixed { year2009 := some "box-align", year2012 := some "flex-align" } prop planned
  | .alignSelf => FlexNames.prefixed { year2012 := some "flex-item-align" } prop planned
  | .alignContent => FlexNames.prefixed { year2012 := some "flex-line-pack" } prop planned
  | .justifyContent => FlexNames.prefixed { year2009 := some "box-pack", year2012 := some "flex-pack" } prop planned
  | .gridStart => if planned = "-ms-" then Text.replaceFirst "-start" [] (planned ++ prop) else planned ++ prop
  | .gridRowAlign => planned ++ "grid-row-align"
  | .gridColumnAlign => planned ++ "grid-column-align"
  | .maskBorder =>
    if planned = "-webkit-" then Text.replace "mask-border" "mask-box-image" (planned ++ prop) else planned ++ prop
  | .columnBreak => planned ++ "column-" ++ prop
  | .borderRadius => planned ++ if planned = "-moz-" then renamed mozillaCorners prop else prop
  | .blockLogical =>
    planned ++
      if prop.contains "-start" then Text.replaceFirst "-block-start" "-before" prop
      else Text.replaceFirst "-block-end" "-after" prop
  | .inlineLogical => planned ++ Text.replaceFirst "-inline" [] prop
  | .imageRendering => if planned = "-ms-" then "-ms-interpolation-mode" else planned ++ prop
  | .printColorAdjust => if planned = "-moz-" then "color-adjust" else planned ++ "print-color-adjust"
  | .overscrollBehavior => planned ++ "scroll-chaining"
  | _ => planned ++ prop

/-- The names that are outdated when a planned prefix is. -/
def outdated (d : PropertyDialect) (prop planned : Text) : List Text :=
  if d = .flexDirection && FlexDraft.of? planned = some .year2009 then
    let vendor := Vendor.vendorPart planned
    [vendor ++ "box-orient", vendor ++ "box-direction"]
  else [d.prefixed prop planned]

/-- The prefixes written for the planned ones, each once. Where Internet Explorer had a property, it had it under the
name that WebKit gave it. -/
def written (d : PropertyDialect) (planned : List Text) : List Text :=
  match d with
  | .appearance | .backdropFilter | .backgroundClip =>
    Text.distinct (planned.map (renamed [("-ms-", "-webkit-")]))
  | _ => Text.distinct planned

/-! ## Which declarations need a prefix -/

/-- The decorations that every browser knows. -/
def basicDecorations : List Text :=
  ["none", "underline", "overline", "line-through", "blink", "inherit", "initial", "unset"]

/-- A declaration needs a prefix, as far as it and its `siblings` tell. -/
def accepts (dialect : PropertyDialect) (d : Declaration) (siblings : List Declaration) : Bool :=
  match dialect with
  | .filter =>
    !d.value.lowercase.contains "alpha(" && !d.value.contains "DXImageTransform.Microsoft" &&
      !d.value.contains "data:image/svg+xml"
  | .animation =>
    !(Text.words d.value).any fun w => w.lowercase = "reverse" || w.lowercase = "alternate-reverse"
  | .backgroundClip => Text.sameIgnoringAsciiCase d.value "text"
  | .imageRendering => d.value = "pixelated"
  | .textDecoration => (Text.words d.value).any fun w => !basicDecorations.contains w
  | .gridStart => !d.value.contains "/" && !d.value.contains "span"
  | .gridRowAlign | .gridColumnAlign => !d.value.contains "flex-" && d.value ≠ "baseline"
  | .alignSelf => !siblings.any fun s => s.prop.startsWith "grid-"
  | _ => true

/-! ## Prefixed copies -/

/-- The place of the `fill` of a border image, with the blanks before it. -/
def fillPlace (_ : Option Char) (t : Text) : Option (Nat × Text) :=
  let blanks : Text := t.leadingBlanks
  match Text.dropStart? "fill" (t.drop blanks.length) with
  | some (c :: _) => if !blanks.isEmpty && isBlank c then some (blanks.length + 4, []) else none
  | _ => none

/-- The place of the side of an emphasis mark, with the blanks around it. -/
def emphasisSidePlace (_ : Option Char) (t : Text) : Option (Nat × Text) :=
  let rest : Text := t.trimStart
  match (Text.dropStartFolded? "right" rest).or (Text.dropStartFolded? "left" rest) with
  | some after => some (t.length - after.trimStart.length, [])
  | none => none

/-- The place of the name `rotateZ`. -/
def rotateZPlace (_ : Option Char) (t : Text) : Option (Nat × Text) :=
  (Text.dropStartFolded? "rotatez" t).map fun _ => (7, "rotate")

/-- The value that the copy of a declaration has for a planned prefix; without one there is no copy. -/
def valueFor? (dialect : PropertyDialect) (d : Declaration) (planned : Text) : Option Text :=
  let draft := FlexDraft.of? planned
  match dialect with
  | .flex => some (Flexbox.flexValue draft d.value)
  | .order => Flexbox.orderValue? draft d.value
  | .flexWrap => if draft = some .year2009 then none else some d.value
  | .flexShrink | .flexBasis => if draft = some .year2012 || draft = some .final then some d.value else none
  | .alignItems => some (Flexbox.alignItemsValue draft d.value)
  | .alignSelf => Flexbox.laterValue? Flexbox.endNames draft d.value
  | .alignContent => Flexbox.laterValue? (Flexbox.endNames ++ Flexbox.spaceNames) draft d.value
  | .justifyContent => Flexbox.justifyValue? draft d.value
  | .userSelect => some (if planned = "-ms-" && d.value = "contain" then "element" else d.value)
  | .columnBreak =>
    some (if (d.prop = "break-inside" && d.value = "avoid-column") || d.value = "avoid-page" then "avoid" else d.value)
  | .borderImage => some (Text.substituteFirst fillPlace none d.value)
  | .transform => some (if planned = "-ms-" then Text.substitute rotateZPlace d.value else d.value)
  | .imageRendering => some (if planned = "-ms-" then "nearest-neighbor" else d.value)
  | .backgroundSize =>
    let lower := d.value.lowercase
    some
      (if planned = "-webkit-" && !lower.contains " " && lower ≠ "contain" && lower ≠ "cover" then
        d.value ++ ' ' :: d.value
      else d.value)
  | .overscrollBehavior =>
    some (renamed [("auto", "chained"), ("contain", "none")] d.value)
  | .textEmphasisPosition =>
    some (if planned = "-webkit-" then Text.substituteFirst emphasisSidePlace none d.value else d.value)
  | .textDecorationSkipInk => some (if d.prop = "text-decoration-skip-ink" && d.value = "auto" then "ink" else d.value)
  | _ => some d.value

/-- The copy of a declaration for a planned prefix, if there is one. -/
def spell? (dialect : PropertyDialect) (d : Declaration) (planned : Text) : Option Declaration :=
  (dialect.valueFor? d planned).map fun value =>
    let prop :=
      if dialect = .textDecorationSkipInk && d.prop = "text-decoration-skip-ink" && d.value = "auto" then
        planned ++ "text-decoration-skip"
      else dialect.prefixed d.prop planned
    { d with prop, value }

end PropertyDialect

/-! ## Names of any property -/

namespace PropertyName

/-- The standard name that a name without vendor prefix stands for. -/
def normalize (prop : Text) : Text := (PropertyDialect.ofName prop).normalize prop

/-- The property that a name with or without vendor prefix stands for; the directions of old drafts belong to
`flex-flow`. -/
def standard (prop : Text) : Text :=
  let name := normalize (Vendor.unprefixed prop)
  if name = "flex-direction" then "flex-flow" else name

/-- The spelling of a property for a planned prefix. -/
def prefixed (prop planned : Text) : Text :=
  let name := Vendor.unprefixed prop
  (PropertyDialect.ofName name).prefixed name planned

end PropertyName

end VendorCss
