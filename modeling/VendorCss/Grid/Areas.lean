import VendorCss.Grid.Tracks

/-!
# Grid areas

A template draws the areas of a grid as rows of names. An area is the smallest box of cells around all places of its
name. Where there are gaps, every other line bounds a track that is a gap, so line numbers are doubled.
-/

namespace VendorCss.Grid

/-- The gaps between the rows and between the columns of a grid. -/
structure Gap where
  row : Option Text := none
  column : Option Text := none
  deriving DecidableEq, Repr, Inhabited

/-- No gap is set. -/
def Gap.isEmpty (g : Gap) : Bool := g.row.isNone && g.column.isNone

/-- The lines that an area lies between, in one direction. -/
structure LineRange where
  start : Nat
  stop : Nat
  /-- The span is written even where it is one. -/
  forced : Bool := false
  deriving DecidableEq, Repr, Inhabited

namespace LineRange

/-- The number of tracks between the lines. -/
def span (r : LineRange) : Nat := r.stop - r.start

/-- The range widened to hold another one. -/
def widen (r other : LineRange) : LineRange :=
  { r with start := Nat.min r.start other.start, stop := Nat.max r.stop other.stop }

/-- The track with an index from zero, the tracks of a gap counted. -/
def ofIndex (index : Nat) (gap : Option Text) : LineRange :=
  let i := if gap.isSome then 2 * index else index
  ⟨i + 1, i + 2, false⟩

end LineRange

/-- The box of an area. -/
structure Area where
  row : LineRange
  column : LineRange
  deriving DecidableEq, Repr, Inhabited

/-- Areas by name, in the order in which the names first stand. -/
abbrev Areas := List (Text × Area)

namespace Areas

def get? (areas : Areas) (name : Text) : Option Area := (areas.find? fun (n, _) => n == name).map Prod.snd

def names (areas : Areas) : List Text := areas.map Prod.fst

/-- The areas with one more cell of a name. -/
def addCell (name : Text) (cell : Area) : Areas → Areas
  | [] => [(name, cell)]
  | (n, a) :: areas =>
    if n = name then (n, ⟨a.row.widen cell.row, a.column.widen cell.column⟩) :: areas
    else (n, a) :: addCell name cell areas

/-- A cell without a name: dots alone. -/
def isUnnamed (name : Text) : Bool := !name.isEmpty && name.all (· == '.')

/-- The areas with the cells of one row; `column` is the index of its first word. -/
def addRow (gap : Gap) (row : LineRange) : (column : Nat) → List Text → Areas → Areas
  | _, [], areas => areas
  | column, name :: names, areas =>
    addRow gap row (column + 1) names
      (if isUnnamed name then areas else addCell name ⟨row, .ofIndex column gap.column⟩ areas)

/-- The areas with the rows from an index on. -/
def addRows (gap : Gap) : (row : Nat) → List Text → Areas → Areas
  | _, [], areas => areas
  | row, line :: lines, areas =>
    addRows gap (row + 1) lines (addRow gap (.ofIndex row gap.row) 0 (Text.words line) areas)

/-- The areas that rows of names draw. -/
def ofRows (rows : List Text) (gap : Gap) : Areas := addRows gap 0 rows []

end Areas

/-! ## Templates -/

/-- A template in the terms of the first draft. -/
structure Template where
  areas : Areas
  rows : Text
  columns : Text
  deriving Repr, Inhabited

/-- The parts of a template as they are read: rows drawn, sizes of rows and of columns. -/
structure TemplateReader where
  drawn : List Text := []
  rows : List Text := []
  columns : List Text := []
  inColumns : Bool := false

namespace TemplateReader

/-- A row drawn without a size is sized automatically. -/
def fillRow (r : TemplateReader) : TemplateReader :=
  if r.rows.length < r.drawn.length then { r with rows := r.rows ++ ["auto".toList] } else r

/-- A word in square brackets names lines. -/
def isLineName (word : Text) : Bool :=
  word.head? = some '[' && 2 < word.length && word.getLast? = some ']' && !word.contains "\n"

/-- The state after one more component. -/
def step (r : TemplateReader) (c : Component) : TemplateReader :=
  let size : TemplateReader :=
    if r.inColumns then { r with columns := r.columns ++ [c.render] } else { r with rows := r.rows ++ [c.render] }
  match c with
  | .string _ row => { r.fillRow with drawn := r.drawn ++ [row] }
  | .word w => if isLineName w then r else size
  | .function .. => size
  | .div sign _ _ => if sign = "/" then { r with inColumns := true }.fillRow else r
  | .space _ | .comment _ => r

end TemplateReader

/-- The template that a value describes. -/
def Template.ofText (t : Text) (gap : Gap) : Template :=
  let r := (Component.ofText t).foldl TemplateReader.step {}
  { areas := Areas.ofRows r.drawn gap,
    rows := trackList (Text.join " " r.rows) gap.row,
    columns := trackList (Text.join " " r.columns) gap.column }

/-- A property draws a template. -/
def isTemplateProperty (prop : Text) : Bool := prop.endsWith "grid-template" || prop.endsWith "grid-template-areas"

/-- The place between two rows of names: the quotes, and the blanks between them. -/
def quotePlace (t : Text) : Option Nat :=
  match t with
  | c :: rest =>
    if c = '"' || c = '\'' then
      let blanks := Text.leadingBlanks rest
      let next := (rest.drop blanks.length).head?
      some (1 + blanks.length + if next = some '"' || next = some '\'' then 1 else 0)
    else none
  | [] => none

/-- The pieces of a text between quotes; `skip` characters still belong to the place found last. -/
def piecesAtQuotes : (skip : Nat) → Text → List Text
  | _, [] => [[]]
  | skip + 1, _ :: t => piecesAtQuotes skip t
  | 0, c :: t =>
    match quotePlace (c :: t) with
    | some n => [] :: piecesAtQuotes (n - 1) t
    | none =>
      match piecesAtQuotes 0 t with
      | [] => [[c]]
      | p :: ps => (c :: p) :: ps

/-- The rows that a `grid-template-areas` draws: what stands in its quotes. -/
def rowsOf (value : Text) : List Text := piecesAtQuotes 0 ((value.trim.drop 1).dropLast)

end VendorCss.Grid
