import VendorCss.Css.Component
import VendorCss.Decimal.Read
import VendorCss.Grid.Lines

/-!
# Grid tracks

The first draft of grid wrote a repeated track as `(1fr)[2]` and had no gaps. Where there is a gap it is a track of its
own between every two neighbours, and repeats are written out.
-/

namespace VendorCss.Grid

/-- The parts of the arguments of `repeat` before and after the first comma; further commas are left out. -/
def splitRepeat (args : List Component) : List Component × List Component :=
  let count := args.takeWhile fun c => !c.isDiv ","
  (count, (args.drop count.length).filter fun c => !c.isDiv ",")

/-- A list written `n` times. -/
def repeated (n : Nat) (xs : List α) : List α := (List.replicate n xs).flatten

/-- A `repeat` in the first draft; with a gap it is written out. -/
def repeatText (args : List Component) (gap : Option Text) : Text :=
  let (count, size) := splitRepeat args
  let count := Component.renderAll count
  let size := size.map Component.render
  match gap with
  | none => '(' :: size.flatten ++ ")[" ++ count ++ "]"
  | some gap =>
    let tracks := size.filter fun t => !(Text.trim t).isEmpty
    Text.join (' ' :: gap ++ [' ']) (repeated ((Decimal.nat64? count.trim).getD 0) tracks)

/-- A component of a track list in the first draft. -/
def trackComponents (gap : Option Text) (c : Component) : List Component :=
  match c, gap with
  | .function name before after args, _ =>
    if name = "repeat" then [.word (repeatText args gap)] else [.function name before after args]
  | .space t, some gap => [.oneSpace, .word gap, .space t]
  | c, _ => [c]

/-- A track list in the first draft. -/
def trackList (t : Text) (gap : Option Text) : Text :=
  Component.renderAll ((Component.ofText t).flatMap (trackComponents gap))

/-- The name of a track list in the first draft: `-ms-grid-rows` for `grid-template-rows`. -/
def trackProperty (prop planned : Text) : Text := planned ++ Text.replaceFirst "template-" [] prop

/-! ## Counting tracks -/

/-- The count and the track of a `repeat`: the last word before the first comma counts. -/
def repeatCount (args : List Component) : Nat × Text :=
  let (count, track) := splitRepeat args
  let words := (count.filter Component.isWord).map fun c => ((leadingInt? c.text).getD 0).natAbs
  (words.getLast?.getD 0, Component.renderAll track)

/-- The tracks that a component of a track list stands for. -/
def componentTracks (c : Component) : List Text :=
  match c with
  | .space _ => []
  | .function name before after args =>
    if name = "repeat" then
      let (count, track) := repeatCount args
      List.replicate count track
    else [Component.render (.function name before after args)]
  | c => [c.render]

/-- The tracks of a track list, repeats written out. -/
def tracksOf (t : Text) : List Text := (Component.ofText t).flatMap componentTracks

end VendorCss.Grid
