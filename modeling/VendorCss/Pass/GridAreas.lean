import VendorCss.Grid.Templates
import VendorCss.Pass.Control

/-!
# Named areas in the first draft of grid

The first draft of grid has no named areas, so an item with a `grid-area` is told its cells, which are looked up in the
templates that draw the area. Where one template draws it, the cells stand in the rule of the item. Where several do,
the later ones get a copy of the rule that holds only the cells, under their own selectors; a template inside a media
query gets its copies inside that query, or in a new one of the same params after the last rule of the group.
-/

namespace VendorCss

open Grid

/-! ## Cells -/

/-- An item that is placed into an area. -/
structure AreaItem where
  /-- The `grid-area` declaration, whose spacing the cells take. -/
  declaration : Node
  /-- The name of the area. -/
  area : Text
  rule : Nat
  selector : Text
  /-- The `@media` around the rule, or the rule itself. -/
  anchor : Nat
  /-- The position of the anchor among its siblings. -/
  index : Nat

/-- A rule that holds only cells. -/
abbrev CellRule := Node × List Node

/-- What was found out for a group of templates. -/
structure AreaPlacement where
  /-- The rule that new rules go after. -/
  last : Option Nat := none
  /-- The rules that wait for a media query, by its params. -/
  waiting : List (Text × List CellRule) := []

namespace AreaItem

/-- The cells of an area as properties and values. A span of one is left out unless it is forced. -/
def cells (a : Area) (forced : Bool) : List (Text × Text) :=
  let text (n : Nat) : Text := (Nat.repr n).toList
  let axis (prop : Text) (r : LineRange) : List (Text × Text) :=
    (prop, text r.start) :: if 1 < r.span || (forced && r.forced) then [(prop ++ "-span", text r.span)] else []
  axis "-ms-grid-row" a.row ++ axis "-ms-grid-column" a.column

/-- The declarations of the cells of an area. -/
def cellNodes (item : AreaItem) (a : Area) (forced : Bool) : List Node :=
  (cells a forced).map fun (prop, value) =>
    { content := .declaration { prop, value },
      raws := { before := item.declaration.raws.before, between := item.declaration.raws.between } }

/-- The selector of an item has several parts, more than a list of selectors would have. -/
def isNested (item : AreaItem) : Bool :=
  let parts := (Separated.bySpace item.selector).length
  1 < parts && (Separated.byComma item.selector).length < parts

/-- The last part of a selector with several parts. -/
def lastPart (selector : Text) : Text :=
  let parts := Separated.bySpace selector
  if (Separated.byComma selector).length < parts.length then (parts.getLast?).getD [] else selector

/-- The selectors of items as children of templates. -/
def selectorUnder (templates selectors : List Text) : Text :=
  Text.join ", " (selectors.map fun selector =>
    Text.join ", " (templates.map fun template => template ++ " > " ++ lastPart selector))

end AreaItem

/-! ## Placing one item -/

/-- A sheet with what was found out for a group, and whether the last rule was set for the item at hand. -/
structure AreaPlacing where
  sheet : Sheet
  placement : AreaPlacement
  lastIsSet : Bool := false

namespace AreaPlacing

/-- The state with another last rule. -/
def withLast (p : AreaPlacing) (rule : Nat) : AreaPlacing :=
  { p with placement := { p.placement with last := some rule } }

/-- The cells put first into the rule of an item. -/
def prepend (p : AreaPlacing) (item : AreaItem) (nodes : List Node) : AreaPlacing :=
  { p with sheet := nodes.reverse.foldl (fun s n => (s.insert (.prepended item.rule) n).2) p.sheet }

/-- A template that does not draw the area: the item may still be the last of its group. -/
def pass (p : AreaPlacing) (item : AreaItem) : AreaPlacing :=
  if p.placement.last.all fun last => p.sheet.index last < item.index then p.withLast item.anchor else p

/-- A copy of the rule of an item that holds only cells. -/
def cellRule? (p : AreaPlacing) (item : AreaItem) (nodes : List Node) : Option CellRule :=
  (p.sheet.node? item.rule).map (·, nodes)

/-- A rule with the cells under the selectors of a template, after the last rule. -/
def insertUnder (p : AreaPlacing) (item : AreaItem) (t : AreaTemplate) (nodes : List Node) : AreaPlacing :=
  match p.cellRule? item nodes with
  | none => p
  | some (node, nodes) =>
    let node := node.mapSelector fun _ => AreaItem.selectorUnder t.selectors (p.sheet.selectorsOf item.rule)
    let (new, sheet) := p.sheet.insertBlock (.after (p.placement.last.getD item.anchor)) node nodes
    { ({ p with sheet } : AreaPlacing).withLast new with lastIsSet := true }

/-- A declaration places an item into a cell. -/
def isCell (d : Declaration) : Bool := d.prop.contains "-ms-grid-row" || d.prop.contains "-ms-grid-column"

/-- The cells in the rule of an item replaced. -/
def replace (p : AreaPlacing) (item : AreaItem) (nodes : List Node) : AreaPlacing :=
  let old := (p.sheet.declarationsBelow item.rule).filter fun (_, d) => isCell d
  ({ p with sheet := (old.map Prod.fst).foldl Sheet.remove p.sheet } : AreaPlacing).prepend item nodes

/-- A list of waiting rules for some params, if it is not there. -/
def await (p : AreaPlacing) (params : Text) : AreaPlacing :=
  if p.placement.waiting.any fun (known, _) => known == params then p
  else { p with placement := { p.placement with waiting := p.placement.waiting ++ [(params, [])] } }

/-- One more rule that waits for a media query. -/
def addWaiting (p : AreaPlacing) (params : Text) (rule : CellRule) : AreaPlacing :=
  let waiting := p.placement.waiting.map fun (known, rules) =>
    (known, if known = params then rules ++ [rule] else rules)
  { p with placement := { p.placement with waiting } }

/-- A rule with the cells for a template inside a media query: into that query if it comes later than the item, else it
waits for a new one. -/
def insertInMedia (p : AreaPlacing) (item : AreaItem) (t : AreaTemplate) (params : Text) (nodes : List Node) :
    AreaPlacing :=
  match p.cellRule? item nodes with
  | none => p
  | some (node, nodes) =>
    let node :=
      if t.rivalled && t.contested.contains item.area then
        node.mapSelector fun _ => AreaItem.selectorUnder t.selectors (p.sheet.selectorsOf item.rule)
      else node
    let node := { node with raws := (p.sheet.raws? t.rule).getD node.raws }
    let p :=
      match (p.sheet.parent? t.rule).filter fun parent => item.index < p.sheet.index parent with
      | some parent => { p with sheet := (p.sheet.insertBlock (.appended parent) node nodes).2 }
      | none => p.addWaiting params (node, nodes)
    if p.lastIsSet then p else p.withLast item.anchor

/-- The item placed as one template says. -/
def place (item : AreaItem) (p : AreaPlacing) (t : AreaTemplate) : AreaPlacing :=
  match t.areas.get? item.area, t.media with
  | none, _ => p.pass item
  | some a, none =>
    let nodes := item.cellNodes a true
    if !t.rivalled || !t.contested.contains item.area then
      { ((p.prepend item (item.cellNodes a false)).withLast item.rule) with lastIsSet := true }
    else if !item.isNested then p.insertUnder item t nodes
    else if t.selectors.head?.any (Text.contains item.selector) then p.replace item nodes
    else p
  | some a, some params => (p.await params).insertInMedia item t params (item.cellNodes a true)

end AreaPlacing

/-! ## Placing all items -/

/-- What was found out for groups, by the last name of each group. -/
abbrev AreaPlacements := List (Text × AreaPlacement)

namespace Pass

/-- The item that a declaration places, if it is a `grid-area` inside a rule. -/
def areaItem? (s : Sheet) (decl : Nat) : Option AreaItem := do
  let declaration ← s.node? decl
  let d ← declaration.declaration?
  let rule ← s.parent? decl
  let selector ← s.selector? rule
  let anchor := (s.mediaAround? rule).getD rule
  if d.prop = "grid-area" then
    some { declaration, area := d.value, rule, selector, anchor, index := s.index anchor }
  else none

/-- The rule of an item starts with a cell. -/
def startsWithCell (s : Sheet) (item : AreaItem) : Bool :=
  ((s.firstChild? item.rule).bind s.declaration?).any fun (d : Declaration) => d.prop = "-ms-grid-row"

/-- Placements with that of a group changed, in its place or at the end. -/
def setPlacement (name : Text) (placement : AreaPlacement) : AreaPlacements → AreaPlacements
  | [] => [(name, placement)]
  | (known, old) :: rest =>
    if known = name then (name, placement) :: rest else (known, old) :: setPlacement name placement rest

/-- The item placed as the templates of a group say. -/
def placeItem (p : Pass) (item : AreaItem) (g : TemplateGroup) (name : Text) (found : AreaPlacements) :
    Pass × AreaPlacements :=
  let placement := ((found.find? fun (known, _) => known == name).map Prod.snd).getD {}
  let placed := g.templates.foldl (AreaPlacing.place item) { sheet := p.sheet, placement }
  (p.withSheet placed.sheet, setPlacement name placed.placement found)

/-- Items placed one after the other; the first rule that starts with a cell ends the work. -/
def placeItems (groups : List TemplateGroup) : (decls : List Nat) → Pass → AreaPlacements → Pass × AreaPlacements
  | [], p, found => (p, found)
  | decl :: decls, p, found =>
    match areaItem? p.sheet decl with
    | none => placeItems groups decls p found
    | some item =>
      let starts := startsWithCell p.sheet item
      let (off, p) := p.disabled decl
      if off then placeItems groups decls p found
      else
        match groups.find? fun g => g.names.contains item.area with
        | none => placeItems groups decls p found
        | some g =>
          if starts then (p, found)
          else
            let (p, found) := p.placeItem item g ((g.names.getLast?).getD []) found
            placeItems groups decls p found

/-- A media query with the rules that wait for it, after a rule. -/
def insertWaiting (last : Nat) (before : Text) (s : Sheet) (waiting : Text × List CellRule) : Sheet :=
  let (params, rules) := waiting
  if rules.isEmpty then s
  else
    let node := (Node.atRule "media" params).withBefore before
    let node := if before.contains "\n" then { node with raws := { node.raws with after := "\n" } } else node
    let (media, s) := s.insert (.after last) node
    rules.foldl (fun s (node, kids) => (s.insertBlock (.appended media) node kids).2) s

/-- The rules of a group that wait, put after its last rule. -/
def insertAllWaiting (s : Sheet) (placement : AreaPlacement) : Sheet :=
  match placement.last with
  | none => s
  | some last => placement.waiting.reverse.foldl (insertWaiting last ((s.before last).filter isBlank)) s

/-- The pass with the items of named areas placed. -/
def insertAreas (p : Pass) : Pass :=
  let groups := p.sheet.templateGroups
  if groups.isEmpty then p
  else
    let (p, found) := placeItems groups (p.sheet.declarations Sheet.rootId) p []
    p.edit fun s => (found.map Prod.snd).foldl insertAllWaiting s

end Pass

end VendorCss
