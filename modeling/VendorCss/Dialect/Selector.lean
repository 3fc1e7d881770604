import VendorCss.Vendor
import VendorCss.Text.Classes

/-!
# How vendors spell selectors

A pseudo-class or pseudo-element is spelled by a vendor with its prefix after the colons, or by a name of its own. Some
vendors had two spellings; a planned prefix names the earlier one by the note `old`.
-/

namespace VendorCss

/-- The selectors that vendors spell in ways of their own. -/
inductive SelectorDialect
  /-- The prefix after the leading colons. -/
  | plain
  | fullscreen | placeholder | placeholderShown | fileSelectorButton | autofill
  deriving DecidableEq, Repr, Inhabited

namespace SelectorDialect

/-- The dialect of a selector. -/
def ofName (name : Text) : SelectorDialect :=
  if name = ":fullscreen" then fullscreen
  else if name = "::placeholder" then placeholder
  else if name = ":placeholder-shown" then placeholderShown
  else if name = "::file-selector-button" then fileSelectorButton
  else if name = ":autofill" then autofill
  else plain

/-- The spellings beyond those of the vendors. -/
def extraPrefixes : SelectorDialect → List Text
  | placeholder => ["-moz- old", "-ms- old"]
  | _ => []

/-- The selector `name` for a planned prefix. Where the prefix goes after the colons, it is a template that may quote
them. -/
def prefixed (d : SelectorDialect) (name planned : Text) : Text :=
  match d with
  | plain =>
    let colons := name.takeWhile fun c => !isWordChar c
    Template.expand [colons, colons] (Template.reference 1 ++ planned) ++ name.drop colons.length
  | fullscreen =>
    ':' :: planned ++ if planned = "-webkit-" || planned = "-moz-" then "full-screen" else "fullscreen"
  | placeholder =>
    if planned = "-webkit-" || planned = "-ms-" then ':' :: ':' :: planned ++ "input-placeholder"
    else if planned = "-ms- old" then ":-ms-input-placeholder"
    else if planned = "-moz- old" then ":-moz-placeholder"
    else ':' :: ':' :: planned ++ "placeholder"
  | placeholderShown =>
    if planned = "-moz-" then ":-moz-placeholder"
    else if planned = "-ms-" then ":-ms-input-placeholder"
    else ':' :: planned ++ "placeholder-shown"
  | fileSelectorButton =>
    ':' :: ':' :: planned ++ if planned = "-webkit-" then "file-upload-button" else "file-selector-button"
  | autofill => ':' :: planned ++ "autofill"

end SelectorDialect

/-! ## Selectors in a selector -/

namespace Selector

/-- A character that may stand before a pseudo-class or pseudo-element; quotes and signs of attributes may not. -/
def mayPrecede (c : Char) : Bool := c != ':' && c != '"' && c != '\'' && c != '='

/-- The place of `name` that a text starts with: the character before the name, none at the start of the selector, and
the name as written. Letters match in any case. -/
def place? (name : Text) (last : Option Char) (t : Text) : Option (Text × Text) :=
  if last.isNone && (Text.dropStartFolded? name t).isSome then some ([], t.take name.length)
  else
    match t with
    | c :: rest =>
      if mayPrecede c && (Text.dropStartFolded? name rest).isSome then some ([c], rest.take name.length) else none
    | [] => none

/-- Every place of `name` replaced, from left to right. The new name is a template, which may quote the place and the
character before the name. -/
def rename (name new selector : Text) : Text :=
  Text.substitute (fun last t => (place? name last t).map fun (lead, written) =>
    ((lead ++ written).length, Template.expand [lead ++ written, lead] (Template.reference 1 ++ new))) selector

/-- Some place of `name`, the character before it being `last`. -/
def usesAfter (name : Text) : (last : Option Char) → Text → Bool
  | last, [] => (place? name last []).isSome
  | last, c :: t => (place? name last (c :: t)).isSome || usesAfter name (some c) t

/-- The selector uses `name`, and writes it in this case somewhere. -/
def uses (selector name : Text) : Bool := selector.contains name && usesAfter name none selector

end Selector

end VendorCss
