import VendorCss.Pass.Declaration
import VendorCss.Pass.GridAreas
import VendorCss.Proofs.Pass.Bounds

/-!
# Grids within bounds

What is written for the first draft of grid beside a declaration has names that begin with `-ms-`, and the rules that
place the children of a grid have selectors made from that of the grid. So a pass stays within bounds that allow these
(`Bounds.AllowsGrid`).

Named areas are placed in a phase of their own, which writes cells with four properties into the rules of the items and
into new rules (`insertAreas_stays`).
-/

namespace VendorCss

/-- The selector of a cell of a grid with some selectors. -/
def Grid.cellSelector (selectors : List Text) (nth : Nat) : Text :=
  Text.join ", " (selectors.map fun part => part ++ " > *:nth-child(" ++ (Nat.repr nth).toList ++ [')'])

/-- The bounds allow the declarations of the first draft of grid, and the rules of its cells. -/
structure Bounds.AllowsGrid (b : Bounds) : Prop where
  names : ∀ name, b.Names ("-ms-" ++ name)
  cells : ∀ s nth, b.selects s → b.selects (Grid.cellSelector (Separated.byComma s) nth)

namespace Pass

variable {b : Bounds} {decl : Nat}

/-! ## Single declarations -/

theorem insertPlain_stays (p : Pass) (decl : Nat) {prop : Text} (h : b.Names prop) (value : Text) :
    p.Stays b (p.insertPlain decl prop value) :=
  p.stays_cloneDeclaration decl fun d _ _ => h { d with value }

theorem insertKeyword_stays (p : Pass) (decl : Nat) {prop : Text} (h : b.Names ("-ms-" ++ prop)) (value : Text) :
    p.Stays b (p.insertKeyword decl prop value) :=
  .ite (fun _ => .refl p) fun _ => p.insertPlain_stays decl h value

theorem insertLine_stays (h : b.AllowsGrid) (p : Pass) (decl : Nat) (prop : Text) (value : Option Int) :
    p.Stays b (p.insertLine decl prop value) := by
  unfold insertLine
  split
  · exact .ite (fun _ => .refl p) fun _ => p.insertKeyword_stays decl (h.names prop) _
  · exact .refl p

theorem insertEnd_stays (h : b.AllowsGrid) (p : Pass) (decl : Nat) (d : Declaration) :
    p.Stays b (p.insertEnd decl d) := by
  unfold insertEnd
  dsimp only
  generalize (Text.dropEnd? "end" d.prop).getD d.prop = base
  have hname : b.Names ("-ms-" ++ base ++ "span") := by
    rw [List.append_assoc]
    exact h.names (base ++ "span")
  refine .ite (fun _ => .refl p) fun _ => .ite (fun _ => p.insertPlain_stays decl hname _) fun _ => ?_
  split
  · exact (Stays.of_learns (p.warn_learns decl _)).trans (insertPlain_stays _ decl hname _)
  · split
    · exact p.insertPlain_stays decl hname _
    · exact .of_learns (p.warn_learns decl _)

theorem insertRowColumn_stays (h : b.AllowsGrid) (p : Pass) (decl : Nat) (d : Declaration) :
    p.Stays b (p.insertRowColumn decl d) :=
  (insertLine_stays h p decl _ _).trans (insertLine_stays h _ decl _ _)

theorem insertPlaceSelf_stays (p : Pass) (decl : Nat) (d : Declaration)
    (h : ∀ name ∈ (["grid-row-align", "grid-column-align"] : List Text), b.Names ("-ms-" ++ name)) :
    p.Stays b (p.insertPlaceSelf decl d) :=
  .ite (fun _ => .refl p) fun _ =>
    (p.insertKeyword_stays decl (h _ (by decide)) _).trans (insertKeyword_stays _ decl (h _ (by decide)) _)

/-! ## Areas and templates -/

theorem warnTemplateNotFound_learns (p : Pass) (decl : Nat) (d : Declaration) :
    p.Learns (p.warnTemplateNotFound decl d) := by
  unfold warnTemplateNotFound
  dsimp only
  split
  · exact .refl p
  · split
    · exact p.warn_learns decl _
    · exact .refl p

theorem warnRowColumnBeside_learns (p : Pass) (decl : Nat) : p.Learns (p.warnRowColumnBeside decl) := by
  unfold warnRowColumnBeside
  split
  · exact .refl p
  · exact .foldl (fun p (x : Nat × Declaration) => p.warn_learns x.1 _) _ p

theorem insertArea_stays (h : b.AllowsGrid) (p : Pass) (decl : Nat) (d : Declaration) :
    p.Stays b (p.insertArea decl d) := by
  unfold insertArea
  dsimp only
  refine Stays.trans (Stays.trans ?_ (.of_learns (warnTemplateNotFound_learns _ decl d)))
    (.of_learns (warnRowColumnBeside_learns _ decl))
  exact ((insertLine_stays h p decl _ _).trans (insertLine_stays h _ decl _ _)).trans
    ((insertLine_stays h _ decl _ _).trans (insertLine_stays h _ decl _ _))

theorem warnGap_learns (p : Pass) (decl : Nat) (gap : Grid.Gap) (hasColumns : Bool) :
    p.Learns (p.warnGap decl gap hasColumns).2 := by
  unfold warnGap
  split
  · exact p.warn_learns decl _
  · exact .refl p

theorem warnMissedAreas_learns (p : Pass) (decl : Nat) (areas : Grid.Areas) :
    p.Learns (p.warnMissedAreas decl areas) := by
  unfold warnMissedAreas
  dsimp only
  split
  · exact .refl p
  · exact p.warn_learns decl _

theorem insertTemplate_stays (h : b.AllowsGrid) (p : Pass) (decl : Nat) (d : Declaration) :
    p.Stays b (p.insertTemplate decl d).2 := by
  unfold insertTemplate
  dsimp only
  split
  · exact .refl p
  · generalize Grid.Template.ofText d.value _ = template
    let q₀ := (p.warnGap decl (p.sheet.gapBeside decl) (!template.columns.isEmpty)).2
    let q₁ := q₀.warnMissedAreas decl template.areas
    let q₂ :=
      if (!template.rows.isEmpty && !template.columns.isEmpty) || !template.areas.isEmpty then
        q₁.insertPlain decl "-ms-grid-rows" template.rows
      else q₁
    have h₀ : p.Stays b q₀ := .of_learns (p.warnGap_learns decl _ _)
    have h₁ : p.Stays b q₁ := h₀.trans (.of_learns (q₀.warnMissedAreas_learns decl template.areas))
    have h₂ : q₁.Stays b q₂ := .ite (fun _ => q₁.insertPlain_stays decl (h.names "grid-rows") _) fun _ => .refl q₁
    have h₃ : q₂.Stays b (q₂.insertPlain decl "-ms-grid-columns" template.columns) :=
      q₂.insertPlain_stays decl (h.names "grid-columns") _
    exact (h₁.trans h₂).trans (.ite (fun _ => h₃) fun _ => .refl q₂)

theorem insertRowsBefore_stays (h : b.AllowsGrid) (gap : Grid.Gap) (p : Pass) (decl : Nat) :
    p.Stays b (insertRowsBefore gap p decl) := by
  unfold insertRowsBefore
  split
  · exact .ite (fun _ => p.insertPlain_stays decl (h.names _) _) fun _ => .refl p
  · exact .refl p

theorem insertTemplateAreas_stays (h : b.AllowsGrid) (p : Pass) (decl : Nat) (d : Declaration) :
    p.Stays b (p.insertTemplateAreas decl d).2 := by
  unfold insertTemplateAreas
  split
  · exact .refl p
  · rename_i rule _
    dsimp only
    generalize (p.sheet.declarationsBelow rule).filter _ = old
    let p₁ := p.edit fun s => (old.map Prod.fst).foldl Sheet.remove s
    have h₁ : p.Stays b p₁ := .of_edits fun _ => .foldl (fun id _ s => s.edits_remove id) p.sheet
    let inside := p₁.sheet.declarationsBelow rule
    let p₂ := (inside.map Prod.fst).foldl (insertRowsBefore (p.sheet.gapFor decl)) p₁
    have h₂ : p.Stays b p₂ := h₁.trans (.foldl fun i _ q _ => insertRowsBefore_stays h _ q i)
    refine Stays.trans (Stays.trans ?_ (.of_learns (warnGap_learns _ decl _ _)))
      (.of_learns (warnMissedAreas_learns _ decl _))
    exact h₂.trans (.ite (fun _ => insertPlain_stays _ decl (h.names "grid-rows") _) fun _ => .refl p₂)

/-! ## Automatic placement -/

theorem insertCells_stays (h : b.AllowsGrid) (p : Pass) (decl : Nat) (d : Declaration) (gap : Grid.Gap) (flow : Text) :
    p.Stays b (p.insertCells decl d gap flow) := by
  unfold insertCells
  dsimp only
  split
  · exact .refl p
  · rename_i rule _
    split
    · rename_i node selector rows hnode hselector _
      refine .of_edits fun hp => .foldl (fun x hx s => ?_) p.sheet
      obtain ⟨⟨cell, i⟩, _, rfl⟩ := List.mem_map.1 (List.mem_reverse.1 hx)
      refine s.edits_insertBlock (.after rule) (fun _ => ?_) fun k hk => ?_
      · exact (hp.sheet.of_node? hnode).mapSelector fun _ _ => h.cells selector (i + 1) (hp.selects hselector)
      · rcases List.mem_cons.1 hk with rfl | hk
        · exact .of_declaration (h.names "grid-row" ⟨[], _, false⟩) _
        · rw [List.mem_singleton.1 hk]
          exact .of_declaration (h.names "grid-column" ⟨[], _, false⟩) _
    · exact .refl p

theorem autoplace_stays (h : b.AllowsGrid) (p : Pass) (decl : Nat) (d : Declaration) (hasTemplate : Bool)
    (gap : Grid.Gap) (flow : Text) : p.Stays b (p.autoplace decl d hasTemplate gap flow) := by
  have hwarn : ∀ message, p.Stays b (p.warn decl message) := fun message => .of_learns (p.warn_learns decl message)
  unfold autoplace
  dsimp only
  refine .ite (fun _ => .ite (fun _ => .refl p) fun _ => hwarn _) fun _ => ?_
  let q :=
    if !p.hasSibling decl "grid-template-columns" && !hasTemplate then
      p.warn decl "Autoplacement does not work without grid-template-columns property"
    else p
  have hq : p.Stays b q := .ite (fun _ => hwarn _) fun _ => .refl p
  exact hq.trans (.ite (fun _ => insertCells_stays h q decl d gap flow) fun _ => .refl q)

theorem autoFlow_learns (p : Pass) (rule : Nat) : p.Learns (p.autoFlow rule).2 := by
  unfold autoFlow
  split
  · exact .refl p
  · exact p.disabled_learns _

theorem insertTracks_stays (h : b.AllowsGrid) (p : Pass) (decl : Nat) (d : Declaration) :
    p.Stays b (p.insertTracks decl d) := by
  unfold insertTracks
  split
  · exact .refl p
  · rename_i rule _
    refine .ite (fun _ => .refl p) fun _ => ?_
    dsimp only
    -- the tracks are written, and the flow is looked at
    generalize hq : Pass.insertPlain _ decl _ _ = q
    have hstays : p.Stays b q := hq ▸ (Stays.of_gridMode p rule).trans (insertPlain_stays _ decl (h.names _) _)
    have hflow : p.Stays b (q.autoFlow rule).2 := hstays.trans (.of_learns (q.autoFlow_learns rule))
    exact .ite (fun _ => hflow.trans (autoplace_stays h _ decl d _ _ _)) fun _ => hflow

end Pass

/-! ## Named areas -/

/-- The properties of cells. -/
def Grid.cellProperties : List Text :=
  ["-ms-grid-row", "-ms-grid-row-span", "-ms-grid-column", "-ms-grid-column-span"]

theorem AreaItem.mem_cells {a : Grid.Area} {forced : Bool} {x : Text × Text} (h : x ∈ cells a forced) :
    x.1 ∈ Grid.cellProperties := by
  have haxis : ∀ (prop : Text) (value : Text) (c : Prop) [Decidable c] (span : Text),
      x ∈ (prop, value) :: (if c then [(prop ++ "-span", span)] else []) → x.1 = prop ∨ x.1 = prop ++ "-span" := by
    intro prop value c _ span hx
    rcases List.mem_cons.1 hx with rfl | hx
    · exact .inl rfl
    · split at hx
      · exact .inr (by rw [List.mem_singleton.1 hx])
      · cases hx
  have hmem : ∀ prop ∈ (["-ms-grid-row", "-ms-grid-column"] : List Text),
      x.1 = prop ∨ x.1 = prop ++ "-span" → x.1 ∈ Grid.cellProperties := by
    intro prop hprop hx
    simp only [List.mem_cons, List.not_mem_nil, or_false] at hprop
    rcases hprop with rfl | rfl <;> rcases hx with hx | hx <;> rw [hx] <;> decide
  rcases List.mem_append.1 h with h | h
  · exact hmem _ (by decide) (haxis _ _ _ _ h)
  · exact hmem _ (by decide) (haxis _ _ _ _ h)

/-- The bounds allow cells, and any selector. -/
structure Bounds.AllowsAreas (b : Bounds) : Prop where
  names : ∀ prop ∈ Grid.cellProperties, b.Names prop
  selects : ∀ s, b.selects s

namespace Bounds

variable {b : Bounds}

/-- The rules that wait for a media query are within the bounds. -/
def AllowsWaiting (b : Bounds) (placement : AreaPlacement) : Prop :=
  ∀ x ∈ placement.waiting, ∀ rule ∈ x.2, b.Allows rule.1 ∧ ∀ k ∈ rule.2, b.Allows k

theorem Allows.withRaws {n : Node} (h : b.Allows n) (raws : Raws) : b.Allows { n with raws } :=
  ⟨h.declaration, h.selector, h.switch⟩

theorem AllowsAreas.cellNodes (h : b.AllowsAreas) (item : AreaItem) (a : Grid.Area) (forced : Bool) :
    ∀ n ∈ item.cellNodes a forced, b.Allows n := by
  intro n hn
  obtain ⟨x, hx, rfl⟩ := List.mem_map.1 hn
  exact .of_declaration (h.names x.1 (AreaItem.mem_cells hx) ⟨[], x.2, false⟩) _

end Bounds

namespace AreaPlacing

variable {b : Bounds}

/-- The sheet of the second state is reached by edits within the bounds, and the rules that wait are within them. -/
def Stays (b : Bounds) (p q : AreaPlacing) : Prop :=
  b.AllowsWaiting p.placement → p.sheet.Edits b.Allows q.sheet ∧ (p.sheet.Holds b.Allows → b.AllowsWaiting q.placement)

theorem Stays.of_sheet {p q : AreaPlacing} (h : p.sheet.Edits b.Allows q.sheet)
    (hwaiting : q.placement.waiting = p.placement.waiting) : p.Stays b q := fun hp => by
  refine ⟨h, fun _ => ?_⟩
  unfold Bounds.AllowsWaiting
  rw [hwaiting]
  exact hp

theorem Stays.unlessSet {p q : AreaPlacing} (h : p.Stays b q) (rule : Nat) :
    p.Stays b (if q.lastIsSet then q else q.withLast rule) := by
  split
  · exact h
  · exact h

theorem edits_prepend (p : AreaPlacing) (item : AreaItem) {nodes : List Node} (h : ∀ n ∈ nodes, b.Allows n) :
    p.sheet.Edits b.Allows (p.prepend item nodes).sheet :=
  .foldl (fun n hn s => s.edits_insert _ fun _ => h n (List.mem_reverse.1 hn)) p.sheet

theorem cellRule?_allows {p : AreaPlacing} (hs : p.sheet.Holds b.Allows) {item : AreaItem} {nodes : List Node}
    {rule : CellRule} (h : p.cellRule? item nodes = some rule) : b.Allows rule.1 ∧ rule.2 = nodes := by
  obtain ⟨n, hn, rfl⟩ := Option.map_eq_some_iff.1 h
  exact ⟨hs.of_node? hn, rfl⟩

theorem insertUnder_stays (h : b.AllowsAreas) (p : AreaPlacing) (item : AreaItem) (t : Grid.AreaTemplate)
    {nodes : List Node} (hnodes : ∀ n ∈ nodes, b.Allows n) : p.Stays b (p.insertUnder item t nodes) := by
  unfold insertUnder
  split
  · exact .of_sheet (.refl _) rfl
  · rename_i node nodes' hrule
    refine .of_sheet (fun hs => ?_) rfl
    obtain ⟨hnode, rfl⟩ := cellRule?_allows hs hrule
    exact Sheet.edits_insertBlock p.sheet _ (fun _ => hnode.mapSelector fun _ _ => h.selects _) hnodes hs

theorem replace_stays (p : AreaPlacing) (item : AreaItem) {nodes : List Node} (h : ∀ n ∈ nodes, b.Allows n) :
    p.Stays b (p.replace item nodes) :=
  have hremove : p.sheet.Edits b.Allows _ := .foldl (fun id _ s => s.edits_remove id) p.sheet
  .of_sheet (hremove.trans (edits_prepend { p with sheet := _ } item h)) rfl

theorem await_stays (p : AreaPlacing) (params : Text) : p.Stays b (p.await params) := fun hp => by
  unfold await
  split
  · exact ⟨.refl _, fun _ => hp⟩
  · refine ⟨.refl _, fun _ x hx rule hrule => ?_⟩
    rcases List.mem_append.1 hx with hx | hx
    · exact hp x hx rule hrule
    · rw [List.mem_singleton.1 hx] at hrule
      cases hrule

theorem allowsWaiting_addWaiting {p : AreaPlacing} (hp : b.AllowsWaiting p.placement) (params : Text) {rule : CellRule}
    (h : b.Allows rule.1 ∧ ∀ k ∈ rule.2, b.Allows k) : b.AllowsWaiting (p.addWaiting params rule).placement := by
  intro x hx r hr
  obtain ⟨y, hy, rfl⟩ := List.mem_map.1 hx
  dsimp only at hr
  split at hr
  · rcases List.mem_append.1 hr with hr | hr
    · exact hp y hy r hr
    · rw [List.mem_singleton.1 hr]
      exact h
  · exact hp y hy r hr

theorem insertInMedia_stays (h : b.AllowsAreas) (p : AreaPlacing) (item : AreaItem) (t : Grid.AreaTemplate)
    (params : Text) {nodes : List Node} (hnodes : ∀ n ∈ nodes, b.Allows n) :
    p.Stays b (p.insertInMedia item t params nodes) := by
  unfold insertInMedia
  split
  · exact .of_sheet (.refl _) rfl
  · rename_i node nodes' hrule
    dsimp only
    intro hp
    have hcopy : p.sheet.Holds b.Allows → b.Allows
        (if (t.rivalled && t.contested.contains item.area) = true then
          node.mapSelector fun _ => AreaItem.selectorUnder t.selectors (p.sheet.selectorsOf item.rule)
        else node) ∧ nodes' = nodes := by
      intro hs
      obtain ⟨hnode, heq⟩ := cellRule?_allows hs hrule
      refine ⟨?_, heq⟩
      split
      · exact hnode.mapSelector fun _ _ => h.selects _
      · exact hnode
    generalize (if (t.rivalled && t.contested.contains item.area) = true then
          node.mapSelector fun _ => AreaItem.selectorUnder t.selectors (p.sheet.selectorsOf item.rule)
        else node) = copy at hcopy ⊢
    generalize (p.sheet.raws? t.rule).getD copy.raws = raws
    have hrule' : p.sheet.Holds b.Allows → b.Allows { copy with raws } ∧ ∀ k ∈ nodes', b.Allows k := fun hs =>
      ⟨(hcopy hs).1.withRaws raws, by rw [(hcopy hs).2]; exact hnodes⟩
    split
    · rename_i parent _
      have hedit : p.sheet.Edits b.Allows (p.sheet.insertBlock (.appended parent) { copy with raws } nodes').2 :=
        fun hs => Sheet.edits_insertBlock p.sheet _ (fun _ => (hrule' hs).1) (hrule' hs).2 hs
      exact Stays.unlessSet (q := { p with sheet := _ }) (.of_sheet hedit rfl) item.anchor hp
    · have hwait : p.sheet.Holds b.Allows →
          b.AllowsWaiting (p.addWaiting params ({ copy with raws }, nodes')).placement := fun hs =>
        allowsWaiting_addWaiting hp params (hrule' hs)
      have hstays : p.Stays b (p.addWaiting params ({ copy with raws }, nodes')) := fun _ => ⟨.refl _, hwait⟩
      exact hstays.unlessSet item.anchor hp

theorem Stays.trans {p q r : AreaPlacing} (h : p.Stays b q) (h' : q.Stays b r)
    (hp : p.sheet.Holds b.Allows) : p.Stays b r := fun hwaiting =>
  have hq := h hwaiting
  have hr := h' (hq.2 hp)
  ⟨hq.1.trans hr.1, fun _ => hr.2 (hq.1 hp).1⟩

theorem place_stays (h : b.AllowsAreas) (item : AreaItem) (p : AreaPlacing) (hp : p.sheet.Holds b.Allows)
    (t : Grid.AreaTemplate) : p.Stays b (place item p t) := by
  unfold place
  split
  · unfold pass
    split
    · exact .of_sheet (.refl _) rfl
    · exact .of_sheet (.refl _) rfl
  · rename_i a _ _
    dsimp only
    split
    · exact .of_sheet (edits_prepend p item (h.cellNodes item a false)) rfl
    · split
      · exact insertUnder_stays h p item t (h.cellNodes item a true)
      · split
        · exact replace_stays p item (h.cellNodes item a true)
        · exact .of_sheet (.refl _) rfl
  · rename_i a params _ _
    exact (await_stays p params).trans (insertInMedia_stays h _ item t params (h.cellNodes item a true)) hp

theorem foldl_place_stays (h : b.AllowsAreas) (item : AreaItem) (ts : List Grid.AreaTemplate) (p : AreaPlacing)
    (hp : p.sheet.Holds b.Allows) : p.Stays b (ts.foldl (place item) p) := by
  induction ts generalizing p with
  | nil => exact .of_sheet (.refl _) rfl
  | cons t ts ih =>
    intro hwaiting
    have hstep := place_stays h item p hp t
    exact hstep.trans (ih _ ((hstep hwaiting).1 hp).1) hp hwaiting

end AreaPlacing

namespace Pass

variable {b : Bounds}

theorem mem_setPlacement {name : Text} {placement : AreaPlacement} {found : AreaPlacements} {x : Text × AreaPlacement}
    (h : x ∈ setPlacement name placement found) : x.2 = placement ∨ x ∈ found := by
  induction found with
  | nil => exact .inl (by rw [List.mem_singleton.1 h])
  | cons y found ih =>
    rw [setPlacement] at h
    split at h
    · rcases List.mem_cons.1 h with rfl | h
      · exact .inl rfl
      · exact .inr (List.mem_cons_of_mem _ h)
    · rcases List.mem_cons.1 h with rfl | h
      · exact .inr List.mem_cons_self
      · exact (ih h).imp_right (List.mem_cons_of_mem _)

/-- All that was found out is within the bounds. -/
def AllowsFound (b : Bounds) (found : AreaPlacements) : Prop := ∀ x ∈ found, b.AllowsWaiting x.2

theorem AllowsFound.allowsWaiting {found : AreaPlacements} (hfound : AllowsFound b found) (name : Text) :
    b.AllowsWaiting (((found.find? fun (known, _) => known == name).map Prod.snd).getD {}) := by
  cases hf : found.find? fun (known, _) => known == name with
  | none => exact fun _ hx => (List.not_mem_nil hx).elim
  | some x => exact hfound x (List.mem_of_find?_eq_some hf)

theorem placeItem_stays (h : b.AllowsAreas) {p : Pass} (hp : p.Within b) (item : AreaItem) (g : Grid.TemplateGroup)
    (name : Text) {found : AreaPlacements} (hfound : AllowsFound b found) :
    p.Stays b (p.placeItem item g name found).1 ∧ AllowsFound b (p.placeItem item g name found).2 := by
  obtain ⟨hedits, hafter⟩ := AreaPlacing.foldl_place_stays h item g.templates
    { sheet := p.sheet, placement := _ } hp.sheet (hfound.allowsWaiting name)
  refine ⟨.of_edits fun _ => hedits, fun x hx => ?_⟩
  rcases mem_setPlacement hx with hx | hx
  · rw [hx]
    exact hafter hp.sheet
  · exact hfound x hx

theorem placeItems_stays (h : b.AllowsAreas) (groups : List Grid.TemplateGroup) (decls : List Nat) {p : Pass}
    (hp : p.Within b) {found : AreaPlacements} (hfound : AllowsFound b found) :
    p.Stays b (placeItems groups decls p found).1 ∧ AllowsFound b (placeItems groups decls p found).2 := by
  induction decls generalizing p found with
  | nil => exact ⟨.refl p, hfound⟩
  | cons decl decls ih =>
    rw [placeItems]
    split
    · exact ih hp hfound
    · rename_i item _
      have hoff : p.Stays b (p.disabled decl).2 := .of_learns (p.disabled_learns decl)
      have hrest := ih (hoff hp).within hfound
      dsimp only
      split
      · exact ⟨hoff.trans hrest.1, hrest.2⟩
      · split
        · exact ⟨hoff.trans hrest.1, hrest.2⟩
        · rename_i g _
          split
          · exact ⟨hoff, hfound⟩
          · obtain ⟨hstep, hfound'⟩ := placeItem_stays h (hoff hp).within item g ((g.names.getLast?).getD []) hfound
            obtain ⟨hafter, hfound''⟩ := ih (hstep (hoff hp).within).within hfound'
            exact ⟨(hoff.trans hstep).trans hafter, hfound''⟩

theorem edits_insertWaiting (last : Nat) (before : Text) (s : Sheet) {waiting : Text × List CellRule}
    (h : ∀ rule ∈ waiting.2, b.Allows rule.1 ∧ ∀ k ∈ rule.2, b.Allows k) :
    s.Edits b.Allows (insertWaiting last before s waiting) := by
  unfold insertWaiting
  refine .ite (fun _ => .refl s) fun _ => Sheet.Edits.trans (s.edits_insert _ fun _ => ?_) (.foldl (fun x hx s => ?_) _)
  · split
    · exact ⟨nofun, nofun, fun _ => rfl⟩
    · exact ⟨nofun, nofun, fun _ => rfl⟩
  · exact s.edits_insertBlock _ (fun _ => (h x hx).1) (h x hx).2

theorem edits_insertAllWaiting (s : Sheet) {placement : AreaPlacement} (h : b.AllowsWaiting placement) :
    s.Edits b.Allows (insertAllWaiting s placement) := by
  unfold insertAllWaiting
  split
  · exact .refl s
  · exact .foldl (fun x hx s => edits_insertWaiting _ _ s (h x (List.mem_reverse.1 hx))) s

/-- Placing named areas stays within bounds that allow cells. -/
theorem insertAreas_stays (h : b.AllowsAreas) (p : Pass) : p.Stays b p.insertAreas := by
  unfold insertAreas
  refine .ite (fun _ => .refl p) fun _ hp => ?_
  have hfound : AllowsFound b [] := fun _ hx => (List.not_mem_nil hx).elim
  obtain ⟨hstays, hfound⟩ := placeItems_stays h p.sheet.templateGroups (p.sheet.declarations Sheet.rootId) hp hfound
  refine hstays.trans (.of_edits fun _ => .foldl (fun x hx s => ?_) _) hp
  obtain ⟨y, hy, rfl⟩ := List.mem_map.1 hx
  exact edits_insertAllWaiting s (hfound y hy)

end Pass

end VendorCss
