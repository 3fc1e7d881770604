import VendorCss.Css.Separated
import VendorCss.Css.Sheet
import VendorCss.Grid.Areas

/-!
# Gaps of grids

The gap of a grid is set by declarations of its rule. A rule that sets none takes the gap of an earlier rule that it
extends: one whose selector ends where the last part of its own begins, under a media query for the same feature.
-/

namespace VendorCss.Grid

/-! ## Gaps of one rule -/

/-- A gap with one more declaration read. -/
def Gap.declare (g : Gap) (d : Declaration) : Gap :=
  if d.prop = "gap" || d.prop = "grid-gap" then
    let parts := Component.ofText d.value
    let row := parts.head?.map Component.render
    { row, column := (parts[2]?.map Component.render).or row }
  else if d.prop = "row-gap" || d.prop = "grid-row-gap" then { g with row := some d.value }
  else if d.prop = "column-gap" || d.prop = "grid-column-gap" then { g with column := some d.value }
  else g

/-- The gap that declarations set, the later ones over the earlier. -/
def Gap.ofDeclarations (ds : List Declaration) : Gap := ds.foldl Gap.declare {}

/-! ## Selectors -/

/-- A compound selector cut before every class and id. -/
def cutCompound : (current : Text) → Text → List Text
  | current, [] => [current]
  | current, c :: t =>
    if (c = '.' || c = '#') && !current.isEmpty then current :: cutCompound [c] t else cutCompound (current ++ [c]) t

/-- The compounds of a selector without commas, each cut before its classes and ids. -/
abbrev Compounds := List (List Text)

/-- The selectors of a list, each in compounds. -/
def compoundsOf (selector : Text) : List Compounds :=
  (Separated.byComma selector).map fun part => (Separated.bySpace part).map (cutCompound [])

/-- Every piece of the first selector is at its place in the second one. -/
def partsAgree : (shorter longer : Compounds) → Bool
  | [], _ => true
  | s :: shorter, longer =>
    (s.zipIdx.all fun (piece, i) => (longer.head?.bind fun l => l[i]?) = some piece) && partsAgree shorter longer.tail

/-- A rule may take the gap of another one, by their selectors. -/
def mayInherit (current other : Text) : Bool :=
  let others := compoundsOf other
  match (compoundsOf current).head?, others.head? with
  | some first, some otherFirst =>
    if first.length < otherFirst.length then false
    else if otherFirst.length < first.length then
      let last := first.getLast?
      (last.bind List.head?) = (otherFirst.head?.bind List.head?) && 1 < first.length &&
        partsAgree otherFirst last.toList
    else others.any fun o => partsAgree o first
  | _, _ => false

/-- The last compound of the first selector of a list, up to its first class or id. -/
def lastCompound? (selector : Text) : Option Text := do (← (← (compoundsOf selector).head?).getLast?).head?

/-- A text holds a compound that ends there, or goes on with a comma or a class. -/
def holdsCompound (compound : Text) : Text → Bool
  | [] => compound.isEmpty
  | c :: t =>
    (match Text.dropStart? compound (c :: t) with
      | some rest => rest.isEmpty || rest.head? = some ',' || rest.head? = some '.'
      | none => false) || holdsCompound compound t

/-! ## Media queries -/

/-- The last word of some media params that names a least or greatest size. -/
def mediaFeature? (params : Text) : Option Text :=
  let visit (found : Option Text) (c : Component) : Option Text × Component × Bool :=
    (if c.isWord && (c.text.contains "min" || c.text.contains "max") then some c.text else found, c, true)
  (Component.walkAll visit none (Component.ofText params)).1

end Grid

namespace Sheet

open Grid

/-- The declarations below a node, at any depth, with what they say. -/
def declarationsBelow (s : Sheet) (id : Nat) : List (Nat × Declaration) :=
  (s.declarations id).filterMap fun i => (s.declaration? i).map (i, ·)

/-- The closest `@media` around a node, the node included. -/
def mediaAround? (s : Sheet) (id : Nat) : Option Nat :=
  (id :: s.ancestors id).find? fun i => (s.atRule? i).any fun (r : AtRule) => r.name = "media"

/-- The params of the closest `@media` around a node. -/
def mediaParams? (s : Sheet) (id : Nat) : Option Text :=
  (s.mediaAround? id).bind fun i => (s.atRule? i).map AtRule.params

/-- The gap that is set beside a declaration. -/
def gapBeside (s : Sheet) (decl : Nat) : Gap :=
  match s.parent? decl with
  | some rule => .ofDeclarations ((s.declarationsBelow rule).map Prod.snd)
  | none => {}

/-- The gap that a rule sets by `grid-gap`, if it sets one. -/
def gridGapOf? (s : Sheet) (rule : Nat) : Option Gap :=
  let gaps := (s.declarationsBelow rule).filter fun (_, d) => d.prop = "grid-gap"
  ((gaps.getLast?).map fun (i, _) => s.gapBeside i).filter fun g => !g.isEmpty

/-- The rules before a rule: those before the first one that is it, or is written in the same way. -/
def rulesUpTo (s : Sheet) (rule : Nat) (rules : List Nat) : List Nat :=
  let own := s.renderTrimmed rule
  rules.takeWhile fun i => i != rule && s.renderTrimmed i != own

/-- The gap that the rule of a declaration takes from an earlier rule; there is none where it sets a gap itself. -/
def inheritedGap? (s : Sheet) (decl : Nat) (gap : Gap) : Option Gap := do
  if !gap.isEmpty then none
  else
    let rule ← s.parent? decl
    let selector ← s.selector? rule
    let feature := (s.mediaParams? rule).bind mediaFeature?
    let last ← lastCompound? selector
    let related := (s.rules rootId).filter fun i => (s.selector? i).any (holdsCompound last)
    let gaps := (s.rulesUpTo rule related).filterMap fun i =>
      match s.gridGapOf? i, s.mediaParams? i with
      | some found, none => if (s.selector? i).any (mayInherit selector) then some found else none
      | some found, some params =>
        if (s.selector? i).any (mayInherit selector) && mediaFeature? params = feature then some found else none
      | none, _ => none
    gaps.getLast?

/-- The gap of the grid that a declaration belongs to, its own or an inherited one. -/
def gapFor (s : Sheet) (decl : Nat) : Gap :=
  let gap := s.gapBeside decl
  (s.inheritedGap? decl gap).getD gap

end Sheet

end VendorCss
