import VendorCss.Grid.Gap

/-!
# Templates of a sheet

Templates with a name of an area in common form a group: they draw the same grid under different selectors or media
queries. A template is rivalled when others of its group came before it and none of them, not rivalled itself, shares a
selector with it; the names that it then has in common with them are contested.
-/

namespace VendorCss.Grid

/-- A template with the areas that it draws. -/
structure AreaTemplate where
  /-- The rule of the template. -/
  rule : Nat
  /-- The params of the closest `@media` around it. -/
  media : Option Text
  selectors : List Text
  areas : Areas
  /-- Other templates of the group speak of other selectors. -/
  rivalled : Bool := false
  /-- The names of areas that those templates draw as well. -/
  contested : List Text := []
  deriving Repr, Inhabited

/-- Templates that share names of areas, in document order. -/
structure TemplateGroup where
  names : List Text
  templates : List AreaTemplate
  deriving Repr, Inhabited

namespace AreaTemplate

/-- Two rules have a selector in common. -/
def sharesSelector (t u : AreaTemplate) : Bool := t.selectors.any u.selectors.contains

/-- The names that a template has in common with earlier ones. From a template of the same rule outside media queries on
the answer is the one for that template. -/
def contestedWith (t : AreaTemplate) : (earlier : List AreaTemplate) → (settled : Bool) → List Text → List Text
  | [], _, names => names
  | e :: earlier, settled, names =>
    if e.media.isNone && e.sharesSelector t then t.contestedWith earlier true e.contested
    else if settled then t.contestedWith earlier true names
    else
      t.contestedWith earlier false
        (names ++ t.areas.names.filter fun n => (e.areas.get? n).isSome && !names.contains n)

/-- A range whose span is written where the span of an earlier one differs. -/
def forceWhereDifferent (earlier : List LineRange) (r : LineRange) : LineRange :=
  { r with forced := r.forced || earlier.any fun e => e.span != r.span }

/-- Areas whose spans are written where those of the same name in earlier templates differ. -/
def withForcedSpans (earlier : List AreaTemplate) (areas : Areas) : Areas :=
  areas.map fun (name, a) =>
    let others := earlier.filterMap fun e => e.areas.get? name
    (name, ⟨forceWhereDifferent (others.map Area.row) a.row, forceWhereDifferent (others.map Area.column) a.column⟩)

end AreaTemplate

namespace TemplateGroup

/-- The group of one template. -/
def single (t : AreaTemplate) : TemplateGroup := ⟨t.areas.names, [t]⟩

/-- The group with one more template. -/
def add (g : TemplateGroup) (t : AreaTemplate) : TemplateGroup :=
  let names := t.areas.names
  let settled := g.templates.any fun e => !e.rivalled && e.sharesSelector t
  { names := g.names ++ names.filter fun n => !g.names.contains n,
    templates := g.templates ++
      [{ t with
          areas := AreaTemplate.withForcedSpans g.templates t.areas,
          rivalled := !settled,
          contested := t.contestedWith g.templates false [] }] }

/-- The last group with a name of a template gets the template. -/
def addToLast? (t : AreaTemplate) : List TemplateGroup → Option (List TemplateGroup)
  | [] => none
  | g :: gs =>
    match addToLast? t gs with
    | some gs => some (g :: gs)
    | none => if t.areas.names.any g.names.contains then some (g.add t :: gs) else none

/-- Groups with one more template; one without areas belongs to no group. -/
def collect (gs : List TemplateGroup) (t : AreaTemplate) : List TemplateGroup :=
  if t.areas.isEmpty then gs else (addToLast? t gs).getD (gs ++ [single t])

end TemplateGroup

end Grid

namespace Sheet

open Grid

/-- The selectors of a rule. -/
def selectorsOf (s : Sheet) (rule : Nat) : List Text := ((s.selector? rule).map Separated.byComma).getD []

/-- The template that a declaration draws. -/
def areaTemplate? (s : Sheet) (decl : Nat) (d : Declaration) : Option AreaTemplate :=
  if isTemplateProperty d.prop then
    (s.parent? decl).map fun rule =>
      { rule, media := s.mediaParams? rule, selectors := s.selectorsOf rule,
        areas := (Template.ofText d.value (s.gapFor decl)).areas }
  else none

/-- The templates of a sheet in groups. -/
def templateGroups (s : Sheet) : List TemplateGroup :=
  ((s.declarationsBelow rootId).filterMap fun (i, d) => s.areaTemplate? i d).foldl TemplateGroup.collect []

end Sheet

end VendorCss
