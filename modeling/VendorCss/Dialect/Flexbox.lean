import VendorCss.Vendor
import VendorCss.Css.Node
import VendorCss.Css.Separated
import VendorCss.Decimal.Read

/-!
# The drafts of flexbox

Flexbox changed its names twice. The draft of 2009 had `display: box` and the `box-*` properties, that of 2012 had
`display: flexbox` and names such as `flex-pack`, and the final one has the names in use. A planned prefix speaks the
draft that its note names; without such a note `-moz-` speaks that of 2009, `-ms-` that of 2012 and `-webkit-` the final
one.
-/

namespace VendorCss

/-- A draft of flexbox. -/
inductive FlexDraft
  | year2009 | year2012 | final
  deriving DecidableEq, Repr

/-- The draft of a vendor without a note. -/
def FlexDraft.ofVendor? (vendor : Text) : Option FlexDraft :=
  if vendor = "-moz-" then some .year2009
  else if vendor = "-ms-" then some .year2012
  else if vendor = "-webkit-" then some .final
  else none

/-- The draft that a planned prefix speaks. -/
def FlexDraft.of? (planned : Text) : Option FlexDraft :=
  let note := Vendor.note? planned
  if note = some "2009" then some .year2009
  else if note = some "2012" then some .year2012
  else if note = some "final" then some .final
  else ofVendor? (Vendor.vendorPart planned)

/-- The names of a property in the drafts of 2009 and 2012; a draft without an own name uses that of the property. -/
structure FlexNames where
  year2009 : Option Text := none
  year2012 : Option Text := none

/-- The name of `prop` in the draft of a planned prefix, with the vendor before it. -/
def FlexNames.prefixed (names : FlexNames) (prop planned : Text) : Text :=
  let name :=
    match FlexDraft.of? planned with
    | some .year2009 => names.year2009
    | some .year2012 => names.year2012
    | _ => none
  Vendor.vendorPart planned ++ name.getD prop

/-- A keyword replaced as a list of pairs says. -/
def renamed (pairs : List (Text × Text)) (keyword : Text) : Text :=
  ((pairs.find? fun (old, _) => old == keyword).map Prod.snd).getD keyword

namespace Flexbox

/-- The value of `flex` in a draft: that of 2009 has the factor alone, that of 2012 has no bare zero as basis. -/
def flexValue (draft : Option FlexDraft) (value : Text) : Text :=
  match draft with
  | some .year2009 => renamed [("auto", "1"), ("none", "0")] ((Separated.bySpace value).headD [])
  | some .year2012 =>
    match Separated.bySpace value with
    | [grow, shrink, basis] => if basis = "0" then grow ++ ' ' :: shrink ++ " 0px" else value
    | _ => value
  | _ => value

/-- The value of `order` in a draft: the groups of 2009 count from one. An order whose group is too large has none. -/
def orderValue? (draft : Option FlexDraft) (value : Text) : Option Text :=
  if draft = some .year2009 && value.any isAsciiDigit then
    match Decimal.int64? value.trim with
    | some n => if n + 1 < 0x8000000000000000 then some (Int.repr (n + 1)).toList else none
    | none => some value
  else some value

/-- The ends of a line, which both early drafts named without `flex-`. -/
def endNames : List (Text × Text) := [("flex-end", "end"), ("flex-start", "start")]

/-- The ways to share out space in the draft of 2012. -/
def spaceNames : List (Text × Text) := [("space-between", "justify"), ("space-around", "distribute")]

/-- The ways to share out space in the draft of 2009, where nothing is nearer to `space-around` than `justify`. -/
def spaceNames2009 : List (Text × Text) := [("space-between", "justify"), ("space-around", "justify")]

/-- The value of `justify-content` in a draft. -/
def justifyValue? (draft : Option FlexDraft) (value : Text) : Option Text :=
  match draft with
  | some .year2009 => some (renamed (endNames ++ spaceNames2009) value)
  | some .year2012 => some (renamed (endNames ++ spaceNames) value)
  | some .final => some value
  | none => none

/-- The value of a property that the draft of 2009 lacks, where that of 2012 has other names for some keywords. -/
def laterValue? (names : List (Text × Text)) (draft : Option FlexDraft) (value : Text) : Option Text :=
  match draft with
  | some .year2012 => some (renamed names value)
  | some .final => some value
  | _ => none

/-- The value of `align-items` in a draft. -/
def alignItemsValue (draft : Option FlexDraft) (value : Text) : Text :=
  match draft with
  | some .year2009 | some .year2012 => renamed endNames value
  | _ => value

/-- `box-orient` and `box-direction` for the keyword of a `flex-direction`. -/
def orientation (keyword : Text) : Text × Text :=
  if keyword = "inherit" || keyword = "initial" || keyword = "unset" then (keyword, keyword)
  else
    (if keyword.contains "row" then "horizontal" else "vertical",
      if keyword.contains "reverse" then "reverse" else "normal")

/-- The name of the value `display: flex` or `inline-flex` for a planned prefix, if its draft is known. -/
def displayName? (name planned : Text) : Option Text :=
  let inline := name ≠ "flex"
  (FlexDraft.of? planned).map fun draft =>
    Vendor.vendorPart planned ++
      match draft with
      | .year2009 => if inline then "inline-box" else "box"
      | .year2012 => if inline then "inline-flexbox" else "flexbox"
      | .final => name

end Flexbox

end VendorCss
