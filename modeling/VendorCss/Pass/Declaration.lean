import VendorCss.Dialect.Mask
import VendorCss.Pass.Grid

/-!
# Variants of declarations

A declaration whose property has variants gets a copy before it for each planned prefix in its scope, unless its value
speaks to another vendor or its group has the prefixed property already. Most copies are what the dialect of the
property makes of the declaration; some properties become several declarations, or depend on what stands around.
-/

namespace VendorCss

namespace Pass

/-! ## Properties that become others -/

/-- `box-orient` and `box-direction` for a keyword of direction, unless the rule has one of them. -/
def insertOrientation (p : Pass) (decl : Nat) (keyword planned : Text) (prefixes : List Text) : Bool × Pass :=
  let vendor := Vendor.vendorPart planned
  let orientProp := vendor ++ "box-orient"
  let directionProp := vendor ++ "box-direction"
  if (p.sheet.parent? decl).isNone || p.hasSibling decl orientProp || p.hasSibling decl directionProp then (false, p)
  else
    let (orient, direction) := Flexbox.orientation keyword
    let (_, p) := p.insertVariant decl orientProp orient planned prefixes
    p.insertVariant decl directionProp direction planned prefixes

/-- The word of a `flex-flow` that is about direction. -/
def flowDirection? (value : Text) : Option Text :=
  (Text.words value).find? fun w => !(["wrap", "nowrap", "wrap-reverse"] : List Text).contains w

/-- The compositing and the layers of a mask as WebKit has them. -/
def insertMask (p : Pass) (decl : Nat) (d : Declaration) (planned : Text) (prefixes : List Text) : Bool × Pass :=
  let composite := Mask.compositeValue? (Mask.keywordsOf d)
  let compositeProp := planned ++ "mask-composite"
  if d.prop = "mask-composite" then
    match composite with
    | some value => p.insertVariant decl compositeProp value planned prefixes
    | none => (false, p)
  else
    let layers := if composite.isSome then Mask.layers d.value else d.value
    let (_, p) := p.insertVariant decl (planned ++ d.prop) layers planned prefixes
    match composite with
    | some value => p.insertVariant decl compositeProp value planned prefixes
    | none => (true, p)

/-- The words for a writing mode in Internet Explorer, where the direction of the text is part of the word. -/
def writingModes (direction : Text) : List (Text × Text) :=
  if direction = "rtl" then [("horizontal-tb", "rl-tb"), ("vertical-rl", "bt-rl"), ("vertical-lr", "bt-lr")]
  else [("horizontal-tb", "lr-tb"), ("vertical-rl", "tb-rl"), ("vertical-lr", "tb-lr")]

/-- The direction of the text that declarations set, the last one before the others. -/
def directionOf (ds : List Declaration) : Text :=
  let directions := ds.filter fun (d : Declaration) => d.prop = "direction" && (d.value = "rtl" || d.value = "ltr")
  ((directions.getLast?).map Declaration.value).getD "ltr"

/-- `writing-mode` for Internet Explorer. -/
def insertWritingMode (p : Pass) (decl : Nat) (d : Declaration) (planned : Text) (prefixes : List Text) : Bool × Pass :=
  match p.sheet.parent? decl with
  | none => (false, p)
  | some rule =>
    let direction := directionOf ((p.sheet.childDeclarationsOf rule).map Prod.snd)
    p.insertVariant decl (planned ++ d.prop) (renamed (writingModes direction) d.value) planned prefixes

/-! ## Which copies there are -/

/-- Functions that turn things in space. -/
def spatialFunctions : List Text :=
  ["matrix3d", "translate3d", "translateZ", "scale3d", "scaleZ", "rotate3d", "rotateX", "rotateY", "perspective"]

/-- A transformation that turns things in space. -/
def isSpatial (d : Declaration) : Bool :=
  d.prop ≠ "transform-origin" && spatialFunctions.any fun f => d.value.contains (f ++ ['('])

/-- A declaration stands inside `@keyframes`. -/
def insideKeyframes (s : Sheet) (decl : Nat) : Bool :=
  (s.ancestors decl).any fun i => (s.atRule? i).any fun (r : AtRule) => r.name = "keyframes"

/-- A vendor cannot do what the declaration asks for. Internet Explorer 9 and old versions of Opera had no
transformations in space, and the former none in keyframes. -/
def lacks (s : Sheet) (dialect : PropertyDialect) (decl : Nat) (d : Declaration) (planned : Text) : Bool :=
  match dialect with
  | .userSelect =>
    (d.value = "all" && planned = "-ms-") ||
      (d.value = "contain" && (planned = "-moz-" || planned = "-webkit-"))
  | .columnBreak =>
    let value := d.value.lowercase
    d.prop = "break-inside" && (value.contains "region" || value.contains "page")
  | .transform =>
    (planned = "-ms-" && (isSpatial d || insideKeyframes s decl)) || (planned = "-o-" && isSpatial d)
  | _ => false

/-- The copies for a planned prefix. -/
def insertFor (p : Pass) (dialect : PropertyDialect) (decl : Nat) (d : Declaration) (planned : Text)
    (prefixes : List Text) : Bool × Pass :=
  let old : Bool := FlexDraft.of? planned = some .year2009
  let ms : Bool := planned = "-ms-"
  match dialect, old, ms with
  | .flexFlow, true, _ =>
    match flowDirection? d.value with
    | some keyword => p.insertOrientation decl keyword planned prefixes
    | none => (false, p)
  | .flexDirection, true, _ => p.insertOrientation decl d.value planned prefixes
  | .maskComposite, _, _ => p.insertMask decl d planned prefixes
  | .writingMode, _, true => p.insertWritingMode decl d planned prefixes
  | .gridEnd, _, true => (false, p.insertEnd decl d)
  | .gridRowColumn, _, true => (false, p.insertRowColumn decl d)
  | .gridArea, _, true => (false, p.insertArea decl d)
  | .placeSelf, _, true => (false, p.insertPlaceSelf decl d)
  | .gridRowsColumns, _, true => (false, p.insertTracks decl d)
  | .gridTemplate, _, true => p.insertTemplate decl d
  | .gridTemplateAreas, _, true => p.insertTemplateAreas decl d
  | _, _, _ => if lacks p.sheet dialect decl d planned then (false, p) else p.insertCopy dialect decl planned prefixes

end Pass

namespace PropertyVariants

/-- The copies of a declaration for a planned prefix, unless its value speaks to another vendor or they are there. -/
def addVariant (v : PropertyVariants) (p : Pass) (decl : Nat) (planned : Text) (prefixes : List Text) : Bool × Pass :=
  match p.sheet.declaration? decl with
  | none => (false, p)
  | some d =>
    if Vendor.speaksToOther d.value planned || p.groupHas decl (v.dialect.prefixed d.prop planned) then (false, p)
    else p.insertFor v.dialect decl d planned prefixes

/-- The copies for each of some prefixes in turn; `written` are those that have been written. -/
def addVariants (v : PropertyVariants) (decl : Nat) : (prefixes written : List Text) → Pass → List Text × Pass
  | [], written, p => (written, p)
  | planned :: prefixes, written, p =>
    let (added, p) := v.addVariant p decl planned (written ++ [planned])
    v.addVariants decl prefixes (if added then written ++ [planned] else written) p

/-- A declaration is of a kind that needs a prefix. -/
def accepts (v : PropertyVariants) (s : Sheet) (decl : Nat) : Bool :=
  match s.declaration? decl, s.parent? decl with
  | some d, some rule => v.dialect.accepts d ((s.childDeclarationsOf rule).map Prod.snd)
  | _, _ => false

/-- The pass with the copies of a declaration that its scope allows. -/
def process (v : PropertyVariants) (p : Pass) (decl : Nat) : Pass :=
  if v.accepts p.sheet decl then
    let (scope, p) := p.scope decl
    let (written, p) := v.addVariants decl (v.prefixes.filter (Pass.inScope scope)) [] p
    if written.isEmpty then p else p.alignWithCopies decl written
  else p

end PropertyVariants

end VendorCss
