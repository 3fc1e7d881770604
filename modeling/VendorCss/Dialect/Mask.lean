import VendorCss.Dialect.Flexbox
import VendorCss.Text.Case

/-!
# Masks

WebKit took the compositing of mask layers from the words of an older drawing model, and always in a property of its
own. The keywords are those of `mask-composite`, or those that end the layers of a `mask` before a comma.
-/

namespace VendorCss.Mask

/-- The keywords of compositing and the old words for them. -/
def composites : List (Text × Text) :=
  [("add", "source-over"), ("exclude", "xor"), ("intersect", "source-in"), ("subtract", "source-out")]

/-- The place of a keyword that ends a layer, with the blanks before it and the comma after it; the keyword as written
stands for it. -/
def keywordPlace (_ : Option Char) (t : Text) : Option (Nat × Text) :=
  let rest := Text.trimStart t
  if rest.length = t.length then none
  else
    composites.findSome? fun (keyword, _) =>
      match Text.dropStartFolded? keyword rest with
      | some after =>
        match Text.trimStart after with
        | ',' :: tail => some (t.length - tail.length, rest.take keyword.length)
        | _ => none
      | none => none

/-- The place of such a keyword, and the comma alone. -/
def layerPlace (last : Option Char) (t : Text) : Option (Nat × Text) :=
  (keywordPlace last t).map fun (n, _) => (n, [','])

/-- The compositing keywords of a declaration. -/
def keywordsOf (d : Declaration) : List Text :=
  let found := if d.prop = "mask-composite" then Text.pieces ',' d.value else Text.places keywordPlace d.value
  (found.map Text.trim).filter fun k => !k.isEmpty

/-- The value of the compositing property of WebKit for some keywords, if there are any; an intersection ends with an
`xor` for all layers below. -/
def compositeValue? (keywords : List Text) : Option Text :=
  if keywords.isEmpty then none
  else
    let words := Text.join ", " (keywords.map (renamed composites))
    some (if keywords.contains "intersect".toList then words ++ ", xor" else words)

/-- The layers of a mask without the compositing keywords. -/
def layers (value : Text) : Text := Text.substitute layerPlace value

end VendorCss.Mask
