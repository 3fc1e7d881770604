import VendorCss.Decimal.Shortest
import VendorCss.Grid.Gap
import VendorCss.Pass.Control
import VendorCss.Pass.Copy

/-!
# Grids in the first draft

The first draft of grid, which Internet Explorer has, numbered lines, knew spans as properties of their own, and had
neither named areas nor gaps nor automatic placement. The functions of this module write the declarations of that draft
before the ones they come from, and warn where it cannot say what was meant.

Like all functions that write copies they answer whether a copy was written; the answer is no where the copies are not
prefixed spellings of the declaration itself.
-/

namespace VendorCss.Pass

open Grid

/-- The text of an integer. -/
def intText (n : Int) : Text := (Int.repr n).toList

/-! ## Declarations of the draft -/

/-- A `-ms-` declaration before another one, unless its rule has that property or there is nothing to say. -/
def insertKeyword (p : Pass) (decl : Nat) (prop value : Text) : Pass :=
  let prefixed := "-ms-" ++ prop
  if value.isEmpty || (p.sheet.parent? decl).isNone || p.hasSibling decl prefixed then p
  else p.insertPlain decl prefixed value

/-- The same for a line or span, which is not zero. -/
def insertLine (p : Pass) (decl : Nat) (prop : Text) (value : Option Int) : Pass :=
  match value with
  | some n => if n = 0 then p else p.insertKeyword decl prop (intText n)
  | none => p

/-! ## Lines and spans -/

/-- The place of the word `span` with a blank after it. -/
def spanPlace (_ : Option Char) (t : Text) : Option (Nat × Text) :=
  match Text.dropStartFolded? "span" t with
  | some (c :: _) => if isBlank c then some (5, []) else none
  | _ => none

/-- The value of the last declaration of a property inside the rule of a declaration. -/
def lastValue? (p : Pass) (decl : Nat) (prop : Text) : Option Text :=
  (p.sheet.parent? decl).bind fun rule =>
    ((p.sheet.declarationsBelow rule).reverse.find? fun (_, d) => d.prop == prop).map fun (_, d) => d.value

/-- `grid-row-end` as a span: the one it names, or its distance from `grid-row-start`. -/
def insertEnd (p : Pass) (decl : Nat) (d : Declaration) : Pass :=
  let base := (Text.dropEnd? "end" d.prop).getD d.prop
  let startProp := base ++ "start"
  let spanProp := "-ms-" ++ base ++ "span"
  if p.hasSibling decl spanProp then p
  else if d.value.contains "span" then p.insertPlain decl spanProp (Text.substituteFirst spanPlace none d.value)
  else
    match p.lastValue? decl startProp with
    | none =>
      (p.warn decl ("Can not prefix " ++ d.prop ++ " (" ++ startProp ++ " is not found)")).insertPlain decl spanProp
        d.value
    | some start =>
      match Decimal.float? d.value.trim, Decimal.float? start.trim with
      | some stop, some start => p.insertPlain decl spanProp (Decimal.ofFloat (stop - start))
      | _, _ => p.warn decl ("Can not prefix " ++ d.prop ++ " (non-numeric " ++ startProp ++ " or " ++ d.prop ++ ")")

/-- The number that the ASCII digits of some words spell together. -/
def digitsOfWords (words : List Text) : Option Int := Decimal.int64? (words.flatten.filter isAsciiDigit)

/-- `grid-row` as a line and a span; a span that comes first is read even without an end. -/
def insertRowColumn (p : Pass) (decl : Nat) (d : Declaration) : Pass :=
  let groups := lineGroups d.value
  let place := placement groups 0 1
  let first := groups.headD []
  let span := if first.any (Text.contains · "span") then digitsOfWords first else place.span
  (p.insertLine decl d.prop place.start).insertLine decl (d.prop ++ "-span") span

/-- `place-self` as the two alignments. -/
def insertPlaceSelf (p : Pass) (decl : Nat) (d : Declaration) : Pass :=
  if p.hasSibling decl "-ms-grid-row-align" then p
  else
    let words := (lineGroups d.value).headD []
    let first := words.headD []
    (p.insertKeyword decl "grid-row-align" first).insertKeyword decl "grid-column-align" ((words[1]?).getD first)

/-! ## Areas -/

/-- The parts of a selector but the last, without the signs of children. -/
def outerParts (selector : Text) : List Text :=
  ((Separated.bySpace selector).filter (· != ['>'])).dropLast

/-- Whether templates were found for an area: one whose selector leads to it, and the selector of the first one with the
area, and whether another such one was there. -/
structure TemplateSearch where
  matched : Bool := false
  first : Option Text := none
  several : Bool := false

/-- The search after one more template, told by its selector and whether it has the area. -/
def TemplateSearch.step (outer : List Text) (s : TemplateSearch) (template : Text × Bool) : TemplateSearch :=
  let (selector, hasArea) := template
  let leads := (Separated.byComma selector).any fun part =>
    let items := (Separated.bySpace part).filter (· != ['>'])
    items.zipIdx.all fun (item, i) => outer[i]? = some item
  if s.matched || leads then { s with matched := true }
  else if !hasArea then s
  else
    match s.first with
    | none => { s with first := some selector }
    | some first => if first = selector then s else { s with several := true }

/-- Warns about an area inside other selectors that several templates define, where none of them has a selector that
leads there. -/
def warnTemplateNotFound (p : Pass) (decl : Nat) (d : Declaration) : Pass :=
  let s := p.sheet
  let outer := outerParts (((s.parent? decl).bind s.selector?).getD [])
  if outer.isEmpty then p
  else
    let templates := (s.declarationsBelow Sheet.rootId).filterMap fun (i, t) =>
      if isTemplateProperty t.prop then
        ((s.parent? i).bind s.selector?).map fun selector =>
          (selector, ((Template.ofText t.value (s.gapBeside i)).areas.get? d.value).isSome)
      else none
    let search := templates.foldl (TemplateSearch.step outer) {}
    if !search.matched && search.several then
      p.warn decl
        ("Autoprefixer cannot find a grid-template containing the duplicate grid-area \"" ++ d.value ++
          "\" with full selector matching: " ++ Text.join " " outer)
    else p

/-- Warns about rows and columns placed beside a `grid-area`. -/
def warnRowColumnBeside (p : Pass) (decl : Nat) : Pass :=
  match p.sheet.parent? decl with
  | none => p
  | some rule =>
    let conflicting := (p.sheet.declarationsBelow rule).filter fun (_, d) =>
      (d.prop.startsWith "grid-row" || d.prop.startsWith "grid-column") && !d.prop.endsWith "-end" &&
        !d.value.startsWith "span" && !d.prop.endsWith "-gap"
    conflicting.foldl (fun p (i, d) =>
      p.warn i
        ("You already have a grid-area declaration present in the rule. You should use either grid-area or " ++
          d.prop ++ ", not both")) p

/-- `grid-area` by lines as rows and columns. -/
def insertArea (p : Pass) (decl : Nat) (d : Declaration) : Pass :=
  let groups := lineGroups d.value
  let row := placement groups 0 2
  let column := placement groups 1 3
  let p := (p.insertLine decl "grid-row" row.start).insertLine decl "grid-row-span" row.span
  let p := (p.insertLine decl "grid-column" column.start).insertLine decl "grid-column-span" column.span
  (p.warnTemplateNotFound decl d).warnRowColumnBeside decl

/-! ## Templates -/

/-- Warns about a gap between columns that are not written; such a gap is dropped. -/
def warnGap (p : Pass) (decl : Nat) (gap : Gap) (hasColumns : Bool) : Gap × Pass :=
  if !hasColumns && gap.column.isSome then
    ({ gap with column := none }, p.warn decl "Can not implement grid-gap without grid-template-columns")
  else (gap, p)

/-- Warns about areas that no `grid-area` of the sheet uses. -/
def warnMissedAreas (p : Pass) (decl : Nat) (areas : Areas) : Pass :=
  let items := (p.sheet.declarationsBelow Sheet.rootId).filter fun (_, d) => d.prop = "grid-area"
  let used := items.map fun (_, d) => d.value
  let missed := areas.names.filter fun name => !used.contains name
  if missed.isEmpty then p else p.warn decl ("Can not find grid areas: " ++ Text.join ", " missed)

/-- `grid-template` as rows and columns. -/
def insertTemplate (p : Pass) (decl : Nat) (d : Declaration) : Bool × Pass :=
  if p.hasSibling decl "-ms-grid-rows" then (false, p)
  else
    let gap := p.sheet.gapBeside decl
    let template := Template.ofText d.value ((p.sheet.inheritedGap? decl gap).getD gap)
    let hasColumns := !template.columns.isEmpty
    let (_, p) := p.warnGap decl gap hasColumns
    let p := p.warnMissedAreas decl template.areas
    let p :=
      if (!template.rows.isEmpty && hasColumns) || !template.areas.isEmpty then
        p.insertPlain decl "-ms-grid-rows" template.rows
      else p
    (true, if hasColumns then p.insertPlain decl "-ms-grid-columns" template.columns else p)

/-- The prefixed rows before the rows of a rule. -/
def insertRowsBefore (gap : Gap) (p : Pass) (decl : Nat) : Pass :=
  match p.sheet.declaration? decl with
  | some d =>
    if d.prop = "grid-template-rows" then p.insertPlain decl (trackProperty d.prop "-ms-") (trackList d.value gap.row)
    else p
  | none => p

/-- `grid-template-areas`, for which the rows are written out. -/
def insertTemplateAreas (p : Pass) (decl : Nat) (d : Declaration) : Bool × Pass :=
  match p.sheet.parent? decl with
  | none => (false, p)
  | some rule =>
    let gap := p.sheet.gapFor decl
    let old := (p.sheet.declarationsBelow rule).filter fun (_, d) => d.prop.contains "-ms-grid-rows"
    let p := p.edit fun s => (old.map Prod.fst).foldl Sheet.remove s
    let inside := p.sheet.declarationsBelow rule
    let hasRows := inside.any fun (_, d) => d.prop = "grid-template-rows"
    let hasColumns := inside.any fun (_, d) => d.prop ≠ "grid-template-rows" && d.prop.contains "grid-template-columns"
    let p := (inside.map Prod.fst).foldl (insertRowsBefore gap) p
    let rows := rowsOf d.value
    let p :=
      if hasColumns && !hasRows && gap.row.isSome && 1 < rows.length then
        p.insertPlain decl "-ms-grid-rows"
          (trackList ("repeat(" ++ (Nat.repr rows.length).toList ++ ", auto)") gap.row)
      else p
    let (gap, p) := p.warnGap decl gap hasColumns
    (true, p.warnMissedAreas decl (Areas.ofRows rows gap))

/-! ## Automatic placement -/

/-- The areas of a grid whose cells are numbered row by row. -/
def numberedCells (rows columns : Nat) (gap : Gap) : Areas :=
  let row (i : Nat) : Text :=
    Text.join " " ((List.range columns).map fun j => (Nat.repr (i * columns + j + 1)).toList)
  Areas.ofRows ((List.range rows).map row) gap

/-- The rule that puts one child of a grid into its cell. -/
def cellRule (grid : Node) (selectors : List Text) (nth : Nat) (cell : Area) (before : Text) : Node × List Node :=
  let selector := Text.join ", " (selectors.map fun part =>
    part ++ " > *:nth-child(" ++ (Nat.repr nth).toList ++ [')'])
  (grid.mapSelector fun _ => selector,
    [(Node.declaration "-ms-grid-row" (Nat.repr cell.row.start).toList).withBefore before,
      (Node.declaration "-ms-grid-column" (Nat.repr cell.column.start).toList).withBefore before])

/-- The rules that put the children of a grid into its cells, after the rule of the grid: child by child along the rows,
or along the columns. -/
def insertCells (p : Pass) (decl : Nat) (d : Declaration) (gap : Gap) (flow : Text) : Pass :=
  let s := p.sheet
  match s.parent? decl with
  | none => p
  | some rule =>
    match s.node? rule, s.selector? rule, (s.findDeclaration? rule "grid-template-rows").bind s.declaration? with
    | some node, some selector, some rows =>
      let cells := (numberedCells (tracksOf rows.value).length (tracksOf d.value).length gap).map Prod.snd
      let cells :=
        if flow.contains "column" then cells.mergeSort fun a b => a.column.start ≤ b.column.start else cells
      let before := (((s.childDeclarations rule).head?).map s.before).getD []
      let rules := cells.zipIdx.map fun (cell, i) => cellRule node (Separated.byComma selector) (i + 1) cell before
      p.edit fun s => rules.reverse.foldl (fun s (node, kids) => (s.insertBlock (.after rule) node kids).2) s
    | _, _, _ => p

/-- Automatic placement of the children of a grid, with warnings about missing rows or columns. -/
def autoplace (p : Pass) (decl : Nat) (d : Declaration) (hasTemplate : Bool) (gap : Gap) (flow : Text) : Pass :=
  if !p.hasSibling decl "grid-template-rows" then
    if hasTemplate then p else p.warn decl "Autoplacement does not work without grid-template-rows property"
  else
    let p :=
      if !p.hasSibling decl "grid-template-columns" && !hasTemplate then
        p.warn decl "Autoplacement does not work without grid-template-columns property"
      else p
    if d.prop.contains "columns" && !hasTemplate then p.insertCells decl d gap flow else p

/-- The direction of automatic placement in a rule. -/
def autoFlow (p : Pass) (rule : Nat) : Text × Pass :=
  match p.sheet.findDeclaration? rule "grid-auto-flow" with
  | none => ("row", p)
  | some flow =>
    let (off, p) := p.disabled flow
    (if off then "row" else (((p.sheet.declaration? flow).map fun d => d.value.trim).getD "row"), p)

/-- `grid-template-rows` and `grid-template-columns` as track lists of the draft. -/
def insertTracks (p : Pass) (decl : Nat) (d : Declaration) : Pass :=
  match p.sheet.parent? decl with
  | none => p
  | some rule =>
    let isRows := d.prop.contains "rows"
    let hasTemplate := p.hasSibling decl "grid-template" || p.hasSibling decl "grid-template-areas"
    if hasTemplate && isRows then p
    else
      let (mode, p) := p.gridMode rule
      let gap := p.sheet.gapFor decl
      let between :=
        if mode = .noAutoplace && !hasTemplate then none else if isRows then gap.row else gap.column
      let p := p.insertPlain decl (trackProperty d.prop "-ms-") (trackList d.value between)
      let (flow, p) := p.autoFlow rule
      if mode = .autoplace then p.autoplace decl d hasTemplate gap flow else p

end VendorCss.Pass
