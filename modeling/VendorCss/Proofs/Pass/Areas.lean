import VendorCss.Proofs.Pass.AreaSteps
import VendorCss.Proofs.Pass.GridBounds
import VendorCss.Proofs.Pass.Steadiness

/-!
# The cells of a named area

Items are placed one after the other, and what one of them finds is what the others have left of the sheet. A rule with
one `grid-area`, whose area one template outside media queries draws, begins with the cells of the area in the end,
whatever other templates and items the sheet has, as long as no item before it ends the work and no item around it
replaces cells (`Pass.insertAreas_beginsWith`).

Before its turn the declaration stands where it stood, is switched off or not by the same comments, and its rule does not
start with a cell (`Pass.Reaches`); after it the rule begins with the cells (`Pass.Keeps`).
-/

namespace VendorCss

open Grid Sheet

namespace Sheet

/-- No other `grid-area` stands directly inside the rule. -/
def HoldsOnly (s : Sheet) (rule decl : Nat) : Prop :=
  ∀ x ∈ s.childDeclarationsOf rule, x.2.prop = "grid-area" → x.1 = decl

instance (s : Sheet) (rule decl : Nat) : Decidable (s.HoldsOnly rule decl) :=
  inferInstanceAs (Decidable (∀ x ∈ s.childDeclarationsOf rule, x.2.prop = "grid-area" → x.1 = decl))

/-- No other item is placed in a rule around a declaration as several templates say. -/
def StandsFree (s : Sheet) (decl : Nat) : Prop :=
  ∀ other ∈ s.declarations rootId, other ≠ decl → ∀ item, Pass.areaItem? s other = some item →
    item.rule ∈ s.ancestors decl → ∀ t u, s.Draws item.area t → s.Draws item.area u → t = u

end Sheet

namespace Pass

variable {p₀ p : Pass} {s : Sheet} {decl i rule : Nat} {item other : AreaItem} {found : AreaPlacements} {xs : Siblings}
  {remaining before after : List Nat} {g : TemplateGroup}

/-- The item of a declaration may be placed: some template draws its area, and the declaration is not switched off for
good. -/
structure MayBePlaced (p : Pass) (decl : Nat) (item : AreaItem) : Prop where
  areaItem? : areaItem? p.sheet decl = some item
  draws : ∃ t, p.sheet.Draws item.area t
  disabled : p.sheet.StandsFree decl → (p.disabled decl).1 = false

/-- Placing the item of a declaration does not end the work: its rule starts with no cell, and holds no other item. -/
def LetsPass (p : Pass) (decl : Nat) : Prop :=
  ∀ item, p.MayBePlaced decl item → startsWithCell p.sheet item = false ∧ p.sheet.HoldsOnly item.rule decl

/-! ## Items in an edited sheet -/

theorem IsItem.mem_childDeclarationsOf (hs : s.IsNumbered) (h : IsItem s decl item) :
    ∃ d, (decl, d) ∈ s.childDeclarationsOf item.rule ∧ d.prop = "grid-area" := by
  obtain ⟨d, hd, hprop, -⟩ := h.declaration
  exact ⟨d, List.mem_filterMap.2 ⟨(decl, item.declaration), hs.mem_topNodes h.parent h.node, by simp [hd]⟩, hprop⟩

/-- Where a rule holds one `grid-area`, other items have other rules. -/
theorem IsItem.rule_ne (hs : s.IsNumbered) (h : IsItem s i other) (honly : s.HoldsOnly rule decl) (hne : i ≠ decl) :
    other.rule ≠ rule := by
  rintro rfl
  obtain ⟨d, hmem, hprop⟩ := h.mem_childDeclarationsOf hs
  exact hne (honly (i, d) hmem hprop)

/-- A declaration is no rule. -/
theorem IsItem.ne_rule (h : IsItem s decl item) (h' : IsItem s i other) : decl ≠ other.rule := by
  rintro rfl
  obtain ⟨d, hd, -⟩ := h.declaration
  obtain ⟨n, hn, hselector⟩ := Option.bind_eq_some_iff.1 h'.selector
  obtain rfl := Option.some.inj (h.node.symm.trans hn)
  rw [(Node.isBlock_of_selector? hselector).1] at hd
  cases hd

theorem IsItem.mem_ids (hs : s.IsNumbered) (h : IsItem s decl item) : decl ∈ s.ids ∧ item.rule ∈ s.ids := by
  refine ⟨Forest.mem_ids_of_mem_nodes (mem_nodes_of_node? h.node), ?_⟩
  exact mem_ids_of_mem_ancestors (by rw [hs.ancestors_of_parent? h.parent]; exact List.mem_cons_self)

/-- The nodes that lead to a declaration that stands free do not stand below the rule of another item, or the area of that
one is not contested. -/
theorem kept_or_uncontested (hs : p₀.sheet.IsNumbered) (hages : p₀.sheet.Ages p.sheet) (hitem : IsItem p₀.sheet decl item)
    (hfree : p₀.sheet.StandsFree decl) (hi : i ∈ p₀.sheet.declarations rootId) (hne : i ≠ decl)
    (hother : areaItem? p₀.sheet i = some other)
    (hfind : p₀.sheet.templateGroups.find? (fun g => g.names.contains other.area) = some g) :
    (∀ a ∈ decl :: p₀.sheet.ancestors decl, a < p.sheet.next ∧ a ≠ other.rule ∧ other.rule ∉ p.sheet.ancestors a) ∨
      ∀ t ∈ g.templates, t.areas.get? other.area ≠ none → other.area ∉ t.contested := by
  by_cases hrule : other.rule ∈ p₀.sheet.ancestors decl
  · exact .inr fun t ht hdraws => notMem_contested_of_draws hs hfind (hfree i hi hne other hother hrule) ht hdraws
  · refine .inl fun a ha => ?_
    have hmem : a ∈ p₀.sheet.ids ∧ a ≠ other.rule ∧ other.rule ∉ p₀.sheet.ancestors a := by
      rcases List.mem_cons.1 ha with rfl | ha
      · exact ⟨(hitem.mem_ids hs).1, hitem.ne_rule (isItem_of_areaItem? hother).1, hrule⟩
      · exact ⟨mem_ids_of_mem_ancestors ha, fun heq => hrule (heq ▸ ha), fun hin => hrule (hs.mem_ancestors_trans hin ha)⟩
    have hlt := hs.lt_next a hmem.1
    exact ⟨Nat.lt_of_lt_of_le hlt hages.next_le, hmem.2.1, hages.notMem_ancestors hs hlt hmem.2.2⟩

/-! ## One item -/

/-- New rules of all groups go after blocks. -/
def LastAreBlocks (s : Sheet) (found : AreaPlacements) : Prop := ∀ x ∈ found, ∀ l ∈ x.2.last, s.IsBlock l

theorem LastAreBlocks.ages {s' : Sheet} (h : LastAreBlocks s found) (hages : s.Ages s') : LastAreBlocks s' found :=
  fun x hx l hl => (h x hx l hl).ages hages

/-- The state in which an item is placed. -/
def placing (p : Pass) (name : Text) (found : AreaPlacements) : AreaPlacing :=
  { sheet := p.sheet, placement := ((found.find? fun (known, _) => known == name).map Prod.snd).getD {} }

theorem grounded_placing (hs : p.sheet.IsNumbered) (hitem : areaItem? p.sheet i = some item)
    (hroot : rootId ∈ p.sheet.ancestors i) (hlast : LastAreBlocks p.sheet found) (name : Text) :
    (p.placing name found).Grounded item := by
  obtain ⟨his, hanchor⟩ := isItem_of_areaItem? hitem
  have hrule := isBlock_of_selector? hs his.selector
  refine ⟨hs, hrule, ?_, fun l hl => ?_, fun hmem => ?_⟩
  · rw [hanchor]
    cases hmedia : p.sheet.mediaAround? item.rule with
    | none => exact hrule
    | some media => exact isBlock_mediaAround? hs hmedia
  · rw [placing] at hl
    cases hfind : found.find? fun (known, _) => known == name with
    | none =>
      rw [hfind] at hl
      cases hl
    | some x =>
      rw [hfind] at hl
      exact hlast x (List.mem_of_find?_eq_some hfind) l hl
  · -- the root stands above the rule or is the rule, so the rule does not stand above it
    rw [hs.ancestors_of_parent? his.parent] at hroot
    rcases List.mem_cons.1 hroot with heq | habove
    · rw [← heq] at hmem
      exact hs.notMem_ancestors _ hmem
    · exact hs.notMem_ancestors _ (hs.mem_ancestors_trans hmem habove)

/-- Placing an item is done aside at its rule. -/
theorem placeItem_spec (name : Text) {kept : Nat → Prop} (h : (p.placing name found).Grounded item)
    (hlast : LastAreBlocks p.sheet found)
    (hkept : (∀ a, kept a → a < p.sheet.next ∧ a ≠ item.rule ∧ item.rule ∉ p.sheet.ancestors a) ∨
      ∀ t ∈ g.templates, t.areas.get? item.area ≠ none → item.area ∉ t.contested) :
    Aside kept item.rule p.sheet (p.placeItem item g name found).1.sheet ∧
      LastAreBlocks (p.placeItem item g name found).1.sheet (p.placeItem item g name found).2 := by
  have hmoves : AreaPlacing.Moves kept item (p.placing name found)
      (g.templates.foldl (AreaPlacing.place item) (p.placing name found)) := AreaPlacing.foldl_place_moves h hkept
  refine ⟨hmoves.aside, fun x hx l hl => ?_⟩
  rcases mem_setPlacement hx with hplacement | hold
  · rw [hplacement] at hl
    exact hmoves.grounded.last l hl
  · exact (hlast x hold l hl).ages hmoves.aside.toAges

/-- What the turn of a declaration comes to: it is passed over, it ends the work, or its item is placed. -/
theorem placeItems_cons (groups : List TemplateGroup) (i : Nat) (rest : List Nat) (p : Pass) (found : AreaPlacements) :
    (∃ q, (q = p ∨ q = (p.disabled i).2) ∧ placeItems groups (i :: rest) p found = placeItems groups rest q found) ∨
      ∃ item g, areaItem? p.sheet i = some item ∧ (p.disabled i).1 = false ∧
        groups.find? (fun g => g.names.contains item.area) = some g ∧
        ((startsWithCell p.sheet item = true ∧ placeItems groups (i :: rest) p found = ((p.disabled i).2, found)) ∨
          (startsWithCell p.sheet item = false ∧ placeItems groups (i :: rest) p found =
            placeItems groups rest ((p.disabled i).2.placeItem item g ((g.names.getLast?).getD []) found).1
              ((p.disabled i).2.placeItem item g ((g.names.getLast?).getD []) found).2)) := by
  rw [placeItems]
  split
  · exact .inl ⟨p, .inl rfl, rfl⟩
  · rename_i item hitem
    dsimp only
    split
    · exact .inl ⟨_, .inr rfl, rfl⟩
    · rename_i hon
      split
      · exact .inl ⟨_, .inr rfl, rfl⟩
      · rename_i g hfind
        refine .inr ⟨item, g, hitem, Bool.eq_false_iff.2 hon, hfind, ?_⟩
        split
        · rename_i hstart
          exact .inl ⟨hstart, rfl⟩
        · rename_i hstart
          exact .inr ⟨Bool.eq_false_iff.2 hstart, rfl⟩

/-! ## Before the turn of an item -/

/-- What the work has left of a sheet, before the turn of the declarations that remain. -/
structure Reaches (p₀ : Pass) (remaining : List Nat) (p : Pass) (found : AreaPlacements) : Prop where
  ages : p₀.sheet.Ages p.sheet
  last : LastAreBlocks p.sheet found
  steady : ∀ i ∈ remaining, ∀ item, IsItem p₀.sheet i item → p₀.sheet.StandsFree i →
    i ∈ p.sheet.ids ∧ p.sheet.ancestors i = p₀.sheet.ancestors i ∧
      verdict p.sheet p.memory i = verdict p₀.sheet p₀.memory i
  startsWithCell : ∀ i ∈ remaining, ∀ item, p₀.MayBePlaced i item →
    Siblings.startsWithCell (p.sheet.kids item.rule).topNodes = false

namespace Reaches

theorem start (hs : p₀.sheet.IsNumbered) (h : ∀ i ∈ remaining, p₀.LetsPass i) : Reaches p₀ remaining p₀ [] where
  ages := .refl hs
  last := fun _ hx => absurd hx List.not_mem_nil
  steady _ _ _ hitem _ := ⟨(hitem.mem_ids hs).1, rfl, rfl⟩
  startsWithCell i hi item hitem := by
    rw [← hs.startsWithCell_eq item]
    exact (h i hi item hitem).1

theorem tail (h : Reaches p₀ (i :: remaining) p found) : Reaches p₀ remaining p found :=
  ⟨h.ages, h.last, fun j hj => h.steady j (List.mem_cons_of_mem _ hj),
    fun j hj => h.startsWithCell j (List.mem_cons_of_mem _ hj)⟩

/-- A question changes nothing of it. -/
theorem ask (h : Reaches p₀ remaining p found) (i : Nat) : Reaches p₀ remaining (p.disabled i).2 found := by
  have hsheet : (p.disabled i).2.sheet = p.sheet := (p.disabled_learns i).sheet
  refine ⟨hsheet ▸ h.ages, hsheet ▸ h.last, fun j hj item hitem hfree => ?_, fun j hj item hitem => ?_⟩
  · obtain ⟨hmem, hancestors, hverdict⟩ := h.steady j hj item hitem hfree
    rw [hsheet, verdict_disabled h.ages.numbered]
    exact ⟨hmem, hancestors, hverdict⟩
  · rw [hsheet]
    exact h.startsWithCell j hj item hitem

/-- What a pass answers about a declaration that remains is what it would have answered in the beginning. -/
theorem disabled_eq (hs : p₀.sheet.IsNumbered) (h : Reaches p₀ remaining p found) (hi : i ∈ remaining)
    (hitem : IsItem p₀.sheet i item) (hfree : p₀.sheet.StandsFree i) : (p.disabled i).1 = (p₀.disabled i).1 := by
  rw [(disabled_spec h.ages.numbered i).1, (disabled_spec hs i).1, (h.steady i hi item hitem hfree).2.2]

/-- An item of the sheet is one that it was in the beginning. -/
theorem isItem (hs : p₀.sheet.IsNumbered) (h : Reaches p₀ remaining p found)
    (hi : i ∈ p₀.sheet.declarations rootId) (hitem : areaItem? p.sheet i = some item) :
    IsItem p₀.sheet i item ∧ rootId ∈ p.sheet.ancestors i := by
  have hbelow : i ∈ p₀.sheet.descendants rootId := (p₀.sheet.declarations_sublist rootId).mem hi
  have habove := hs.mem_descendants.1 hbelow
  have hlt : i < p₀.sheet.next := hs.lt_next i (mem_ids_of_mem_kids hbelow)
  have his := (isItem_of_areaItem? hitem).1
  refine ⟨his.of_ages h.ages hs hlt, ?_⟩
  rw [h.ages.ancestors_eq hs (his.mem_ids h.ages.numbered).1 hlt]
  exact habove

/-- Another item is placed. -/
theorem placeItem (hs : p₀.sheet.IsNumbered) (h : Reaches p₀ remaining p found) {name : Text}
    (hi : i ∈ p₀.sheet.declarations rootId) (hnot : i ∉ remaining) (hitem : areaItem? p.sheet i = some item)
    (hfind : p₀.sheet.templateGroups.find? (fun g => g.names.contains item.area) = some g)
    (honly : p₀.sheet.HoldsOnly item.rule i) :
    Reaches p₀ remaining (p.placeItem item g name found).1 (p.placeItem item g name found).2 := by
  obtain ⟨his, hroot⟩ := h.isItem hs hi hitem
  have hground := grounded_placing h.ages.numbered hitem hroot h.last name
  obtain ⟨other, hother, -, harea, hrule⟩ := his.exists_areaItem?
  have hnone := placeItem_spec name (g := g) hground h.last (.inl fun _ => False.elim)
  refine ⟨h.ages.trans hnone.1.toAges, hnone.2, fun j hj jtem hjtem hfree => ?_, fun j hj jtem hjtem => ?_⟩
  · -- the chain of a declaration that stands free is kept
    obtain ⟨hmem, hancestors, hverdict⟩ := h.steady j hj jtem hjtem hfree
    have hne : i ≠ j := fun heq => hnot (heq ▸ hj)
    have hkept := kept_or_uncontested hs h.ages hjtem hfree hi hne hother (by rw [harea]; exact hfind)
    rw [harea, hrule] at hkept
    have haside := (placeItem_spec name (g := g) hground h.last hkept).1
    have hlt := hs.lt_next j (hjtem.mem_ids hs).1
    obtain ⟨m, hm⟩ := exists_node? hmem
    have hparent := (h.ages.old j hlt m hm).2.trans hjtem.parent
    obtain ⟨hmem', hancestors', hchain⟩ :=
      haside.chain h.ages.numbered hparent fun c hc => by rwa [hancestors] at hc
    exact ⟨hmem', hancestors'.trans hancestors, (verdict_congr hancestors' hchain).trans hverdict⟩
  · have hjs := (isItem_of_areaItem? hjtem.areaItem?).1
    have hlt : jtem.rule < p.sheet.next := Nat.lt_of_lt_of_le (hs.lt_next _ (hjs.mem_ids hs).2) h.ages.next_le
    have hne : j ≠ i := fun heq => hnot (heq ▸ hj)
    exact hnone.1.startsWithCell _ hlt (hjs.rule_ne hs honly hne) (h.startsWithCell j hj jtem hjtem)

end Reaches

/-- Items that let the work pass do not end it before the turn of a declaration. -/
theorem placeItems_reaches (hs : p₀.sheet.IsNumbered) (hdecls : ∀ i ∈ before, i ∈ p₀.sheet.declarations rootId)
    (hnodup : (before ++ [decl]).Nodup) (hbefore : ∀ i ∈ before, p₀.LetsPass i)
    (h : Reaches p₀ (before ++ [decl]) p found) (after : List Nat) : ∃ q found',
      placeItems p₀.sheet.templateGroups (before ++ decl :: after) p found =
        placeItems p₀.sheet.templateGroups (decl :: after) q found' ∧ Reaches p₀ [decl] q found' := by
  induction before generalizing p found with
  | nil => exact ⟨p, found, rfl, h⟩
  | cons i before ih =>
    obtain ⟨hnot, hnodup⟩ := List.nodup_cons.1 hnodup
    have hrest : ∀ {q found'}, Reaches p₀ (before ++ [decl]) q found' → _ := fun hq =>
      ih (fun j hj => hdecls j (List.mem_cons_of_mem _ hj)) hnodup (fun j hj => hbefore j (List.mem_cons_of_mem _ hj)) hq
    have hi := hdecls i List.mem_cons_self
    have hask := h.ask i
    rw [List.cons_append]
    obtain ⟨q, hq, hskip⟩ | ⟨item, g, hitem, hon, hfind, hturn⟩ :=
      placeItems_cons p₀.sheet.templateGroups i (before ++ decl :: after) p found
    · rw [hskip]
      obtain rfl | rfl := hq
      · exact hrest h.tail
      · exact hrest hask.tail
    · -- the item may be placed, so it does not end the work
      obtain ⟨his, -⟩ := h.isItem hs hi hitem
      obtain ⟨other, hother, -, harea, hrule⟩ := his.exists_areaItem?
      have hplaced : p₀.MayBePlaced i other := by
        refine ⟨hother, ?_, fun hfree => ?_⟩
        · obtain ⟨hg, hname⟩ := TemplateGroup.mem_of_find? hfind
          rw [harea]
          exact exists_draws hg hname
        · rwa [← h.disabled_eq hs List.mem_cons_self his hfree]
      have hstart : Pass.startsWithCell p.sheet item = false := by
        rw [h.ages.numbered.startsWithCell_eq, ← hrule]
        exact h.startsWithCell i List.mem_cons_self other hplaced
      obtain ⟨hends, -⟩ | ⟨-, hplace⟩ := hturn
      · rw [hstart] at hends
        cases hends
      · have honly := (hbefore i List.mem_cons_self other hplaced).2
        rw [hrule] at honly
        have hitem' : areaItem? (p.disabled i).2.sheet i = some item := by
          rw [(p.disabled_learns i).sheet]
          exact hitem
        rw [hplace]
        exact hrest (hask.tail.placeItem hs hi hnot hitem' hfind honly)

/-! ## After the turn of an item -/

/-- What the work has left of a sheet in which a rule begins with some nodes. -/
structure Keeps (p₀ : Pass) (rule : Nat) (xs : Siblings) (p : Pass) (found : AreaPlacements) : Prop where
  ages : p₀.sheet.Ages p.sheet
  last : LastAreBlocks p.sheet found
  begins : xs <+: (p.sheet.kids rule).topNodes

/-- The turn of an item whose area one template draws. -/
theorem placeItems_keeps_cells {a : Area} (hs : p₀.sheet.IsNumbered) (hdecl : decl ∈ p₀.sheet.declarations rootId)
    (hitem : areaItem? p₀.sheet decl = some item) (hplaced : p₀.MayBePlaced decl item)
    (hfree : p₀.sheet.StandsFree decl) (hknown : TemplateGroup.IsKnown item.area a none p₀.sheet.templateGroups)
    (h : Reaches p₀ [decl] p found) (after : List Nat) : ∃ q found' xs,
      placeItems p₀.sheet.templateGroups (decl :: after) p found = placeItems p₀.sheet.templateGroups after q found' ∧
        xs.map Prod.snd = item.cellNodes a false ∧ Keeps p₀ item.rule xs q found' := by
  have his := (isItem_of_areaItem? hitem).1
  obtain ⟨hmem, hancestors, -⟩ := h.steady decl List.mem_cons_self item his hfree
  obtain ⟨hin, hruleIn⟩ := his.mem_ids hs
  -- the declaration and its rule are there as they were
  have hnow : IsItem p.sheet decl item := by
    obtain ⟨n, hn⟩ := exists_node? hmem
    obtain ⟨hn₀, hparent⟩ := h.ages.old decl (hs.lt_next decl hin) n hn
    have hrule : item.rule ∈ p.sheet.ids := mem_ids_of_mem_ancestors (by
      rw [hancestors, hs.ancestors_of_parent? his.parent]
      exact List.mem_cons_self)
    obtain ⟨m, hm⟩ := exists_node? hrule
    have hm₀ := (h.ages.old item.rule (hs.lt_next _ hruleIn) m hm).1
    refine ⟨?_, his.declaration, hparent.trans his.parent, ?_⟩
    · rw [hn, ← hn₀]
      exact his.node
    · have hselector := his.selector
      rw [selector?, hm₀] at hselector
      rw [selector?, hm]
      exact hselector
  obtain ⟨other, hother, hdeclaration, harea, hrule⟩ := hnow.exists_areaItem?
  obtain ⟨g, hfind, hg⟩ := hknown
  have hask := h.ask decl
  have hsheet : (p.disabled decl).2.sheet = p.sheet := (p.disabled_learns decl).sheet
  have hon : (p.disabled decl).1 = false :=
    (h.disabled_eq hs List.mem_cons_self his hfree).trans (hplaced.disabled hfree)
  have hstart : Pass.startsWithCell p.sheet other = false := by
    rw [h.ages.numbered.startsWithCell_eq, hrule]
    exact h.startsWithCell decl List.mem_cons_self item hplaced
  have hother' : areaItem? (p.disabled decl).2.sheet decl = some other := by rw [hsheet]; exact hother
  obtain ⟨-, hroot⟩ := hask.isItem hs hdecl hother'
  have hground := grounded_placing hask.ages.numbered hother' hroot hask.last ((g.names.getLast?).getD [])
  have hspec := placeItem_spec _ (g := g) hground hask.last (.inl fun _ => False.elim)
  obtain ⟨xs, hxs, hbegins⟩ := AreaPlacing.foldl_place_drawsOnce hground
    (((isItem_of_areaItem? hother').1.mem_ids hask.ages.numbered).2) (by rw [harea]; exact hg)
  refine ⟨_, _, xs, ?_, ?_, hask.ages.trans hspec.1.toAges, hspec.2, ?_⟩
  · rw [placeItems, hother]
    dsimp only
    rw [hon, if_neg Bool.false_ne_true, harea, hfind]
    dsimp only
    rw [if_neg (Bool.eq_false_iff.1 hstart)]
  · rw [hxs, AreaItem.cellNodes, AreaItem.cellNodes, hdeclaration]
  · rw [← hrule]
    exact hbegins

/-- Items that come later leave the beginning of the rule as it is. -/
theorem placeItems_keeps (hs : p₀.sheet.IsNumbered) (hitem : IsItem p₀.sheet decl item)
    (hfree : p₀.sheet.StandsFree decl) (honly : p₀.sheet.HoldsOnly item.rule decl) (hxs : ∀ x ∈ xs, ¬x.2.IsBlock)
    (hafter : ∀ i ∈ after, i ∈ p₀.sheet.declarations rootId ∧ i ≠ decl) (h : Keeps p₀ item.rule xs p found) :
    Keeps p₀ item.rule xs (placeItems p₀.sheet.templateGroups after p found).1
      (placeItems p₀.sheet.templateGroups after p found).2 := by
  induction after generalizing p found with
  | nil => exact h
  | cons i after ih =>
    have hrest : ∀ {q found'}, Keeps p₀ item.rule xs q found' → _ := fun hq =>
      ih (fun j hj => hafter j (List.mem_cons_of_mem _ hj)) hq
    have hsheet : (p.disabled i).2.sheet = p.sheet := (p.disabled_learns i).sheet
    have hask : Keeps p₀ item.rule xs (p.disabled i).2 found :=
      ⟨hsheet ▸ h.ages, hsheet ▸ h.last, by rw [hsheet]; exact h.begins⟩
    obtain ⟨q, hq, hskip⟩ | ⟨other, g, hother, -, hfind, ⟨-, hends⟩ | ⟨-, hplace⟩⟩ :=
      placeItems_cons p₀.sheet.templateGroups i after p found
    · rw [hskip]
      obtain rfl | rfl := hq
      · exact hrest h
      · exact hrest hask
    · rw [hends]
      exact hask
    · rw [hplace]
      obtain ⟨hi, hne⟩ := hafter i List.mem_cons_self
      have hreach : Reaches p₀ [] (p.disabled i).2 found :=
        ⟨hask.ages, hask.last, fun _ hj => absurd hj List.not_mem_nil, fun _ hj => absurd hj List.not_mem_nil⟩
      have hother' : areaItem? (p.disabled i).2.sheet i = some other := by rw [hsheet]; exact hother
      obtain ⟨hos, hroot⟩ := hreach.isItem hs hi hother'
      obtain ⟨old, hold, -, harea, hrule⟩ := hos.exists_areaItem?
      -- the chain of the declaration is kept, and with it the beginning of its rule
      have hkept := kept_or_uncontested hs hask.ages hitem hfree hi hne hold (by rw [harea]; exact hfind)
      rw [harea, hrule] at hkept
      have hspec := placeItem_spec ((g.names.getLast?).getD []) (g := g)
        (grounded_placing hask.ages.numbered hother' hroot hask.last _) hask.last hkept
      have hin : item.rule ∈ decl :: p₀.sheet.ancestors decl := by
        rw [hs.ancestors_of_parent? hitem.parent]
        simp
      have hlt : item.rule < (p.disabled i).2.sheet.next :=
        Nat.lt_of_lt_of_le (hs.lt_next _ (hitem.mem_ids hs).2) hask.ages.next_le
      have hundisturbed := hspec.1.undisturbed item.rule hlt hin (hos.rule_ne hs honly hne).symm
      exact hrest ⟨hask.ages.trans hspec.1.toAges, hspec.2, hundisturbed.beginning xs hxs hask.begins⟩

/-! ## Rules that waited -/

/-- A rule begins with some nodes in a later state of a sheet. -/
structure Begins (s : Sheet) (rule : Nat) (xs : Siblings) (s' : Sheet) : Prop extends s.Ages s' where
  lt : rule < s.next
  begins : xs <+: (s'.kids rule).topNodes

theorem Begins.append {s' : Sheet} (h : Begins s rule xs s') (parent : Nat) (node : Node) (kids : List Node) :
    Begins s rule xs (s'.insertBlock (.appended parent) node kids).2 := by
  have hnew := s'.isFresh_block node kids
  refine ⟨h.toAges.trans (.splice h.numbered hnew _), h.lt, ?_⟩
  rw [insertBlock]
  rcases topNodes_kids_appended h.numbered hnew (Nat.lt_of_lt_of_le h.lt h.next_le) (a := parent) with hsame | hkids
  · rw [hsame]
    exact h.begins
  · rw [hkids]
    exact h.begins.trans (List.prefix_append _ _)

theorem Begins.insertWaiting {last : Nat} {s' : Sheet} (hxs : ∀ x ∈ xs, ¬x.2.IsBlock) (hlast : s.IsBlock last)
    (h : Begins s rule xs s') (before : Text) (waiting : Text × List CellRule) :
    Begins s rule xs (insertWaiting last before s' waiting) := by
  unfold Pass.insertWaiting
  dsimp only
  split
  · exact h
  · generalize hnode : (if (before.contains "\n") = true then _ else _ : Node) = node
    have hblock : node.IsBlock := by
      rw [← hnode]
      split <;> exact ⟨rfl, rfl⟩
    -- the query comes in behind a block, and the rules at the end of it
    have hlt := Nat.lt_of_lt_of_le h.lt h.next_le
    have hundisturbed := Aside.undisturbed_after h.numbered hblock [] (hlast.ages h.toAges) hlt
    have hquery : Begins s rule xs (s'.insertBlock (.after last) node []).2 :=
      ⟨h.toAges.trans (.splice h.numbered (s'.isFresh_block node []) _), h.lt, hundisturbed.beginning xs hxs h.begins⟩
    have hrules : ∀ (rules : List CellRule) (r : Sheet), Begins s rule xs r →
        Begins s rule xs (rules.foldl (fun r x =>
          (r.insertBlock (.appended (s'.insertBlock (.after last) node []).1) x.1 x.2).2) r) := by
      intro rules
      induction rules with
      | nil => exact fun _ hr => hr
      | cons x rules ih =>
        intro r hr
        exact ih _ (hr.append _ x.1 x.2)
    exact hrules waiting.2 _ hquery

/-- Rules that wait come in behind blocks, and leave the beginning of a rule as it is. -/
theorem Begins.insertAllWaiting {s' : Sheet} (hxs : ∀ x ∈ xs, ¬x.2.IsBlock) (placement : AreaPlacement)
    (hlast : ∀ l ∈ placement.last, s.IsBlock l) (h : Begins s rule xs s') :
    Begins s rule xs (insertAllWaiting s' placement) := by
  unfold Pass.insertAllWaiting
  split
  · exact h
  · rename_i last hsome
    generalize (s'.before last).filter isBlank = space
    induction placement.waiting.reverse generalizing s' with
    | nil => exact h
    | cons waiting rest ih => exact ih (h.insertWaiting hxs (hlast last hsome) space waiting)

theorem Begins.foldl_insertAllWaiting {s' : Sheet} (hxs : ∀ x ∈ xs, ¬x.2.IsBlock) (hlast : LastAreBlocks s found)
    (h : Begins s rule xs s') :
    Begins s rule xs ((found.map Prod.snd).foldl Pass.insertAllWaiting s') := by
  induction found generalizing s' with
  | nil => exact h
  | cons x found ih =>
    exact ih (fun y hy => hlast y (List.mem_cons_of_mem _ hy))
      (h.insertAllWaiting hxs x.2 fun l hl => hlast x List.mem_cons_self l hl)

/-! ## All items -/

/-- A rule whose one `grid-area` names an area that one template outside media queries draws begins with the cells of the
area, if no item before it ends the work, and no item around it replaces cells. -/
theorem insertAreas_beginsWith {a : Area} {t : AreaTemplate} {template : Nat} {d : Declaration}
    (hs : p.sheet.IsNumbered) (hsplit : p.sheet.declarations rootId = before ++ decl :: after)
    (hitem : areaItem? p.sheet decl = some item) (hon : (p.disabled decl).1 = false)
    (honly : p.sheet.HoldsOnly item.rule decl) (hstart : startsWithCell p.sheet item = false)
    (htemplate : (template, d) ∈ p.sheet.declarationsBelow rootId) (ht : p.sheet.areaTemplate? template d = some t)
    (hmedia : t.media = none) (ha : t.areas.get? item.area = some a)
    (honce : ∀ other, p.sheet.Draws item.area other → other = template)
    (hbefore : ∀ i ∈ before, p.LetsPass i) (hfree : p.sheet.StandsFree decl) :
    item.cellNodes a false <+: (p.insertAreas.sheet.kids item.rule).topNodes.map Prod.snd := by
  have hknown := isKnown_templateGroups hs htemplate ht ha honce
  rw [hmedia] at hknown
  obtain ⟨his, -⟩ := isItem_of_areaItem? hitem
  have hdraws : p.sheet.Draws item.area template := by
    refine ⟨d, htemplate, t, ht, ?_⟩
    by_contra hnot
    rw [Areas.get?_eq_none.2 hnot] at ha
    cases ha
  have hplaced : p.MayBePlaced decl item := ⟨hitem, ⟨template, hdraws⟩, fun _ => hon⟩
  -- the declaration lets the work pass like those before it, and stands only once among them
  have hlets : ∀ i ∈ before ++ [decl], p.LetsPass i := by
    intro i hi
    rcases List.mem_append.1 hi with hi | hi
    · exact hbefore i hi
    · obtain rfl := List.mem_singleton.1 hi
      intro other hother
      obtain rfl := Option.some.inj (hitem.symm.trans hother.areaItem?)
      exact ⟨hstart, honly⟩
  have hnodup : (before ++ decl :: after).Nodup := by
    rw [← hsplit]
    exact (p.sheet.declarations_sublist rootId).nodup (hs.nodup_descendants rootId)
  have hmem : ∀ i ∈ before ++ decl :: after, i ∈ p.sheet.declarations rootId := fun i hi => by rwa [hsplit]
  have hafter : ∀ i ∈ after, i ∈ p.sheet.declarations rootId ∧ i ≠ decl := by
    intro i hi
    refine ⟨hmem i (by simp [hi]), ?_⟩
    rintro rfl
    exact (List.nodup_cons.1 (List.nodup_append.1 hnodup).2.1).1 hi
  have hnodup' : (before ++ [decl]).Nodup := by
    rw [List.append_cons] at hnodup
    exact (List.nodup_append.1 hnodup).1
  -- before its turn, at its turn, after its turn
  obtain ⟨q, found, hfirst, hreach⟩ := placeItems_reaches hs (fun i hi => hmem i (by simp [hi])) hnodup' hbefore
    (.start hs hlets) after
  obtain ⟨r, found', xs, hturn, hxs, hkeeps⟩ := placeItems_keeps_cells hs (hmem decl (by simp)) hitem hplaced hfree hknown
    hreach after
  have hnotBlock : ∀ x ∈ xs, ¬x.2.IsBlock := fun x hx =>
    (AreaPlacing.comment?_cellNodes (hxs ▸ List.mem_map_of_mem hx)).2
  have hlast := placeItems_keeps hs his hfree honly hnotBlock hafter hkeeps
  -- the rules that waited
  have hgroups : p.sheet.templateGroups.isEmpty = false := by
    obtain ⟨g, hg, -⟩ := hknown
    exact List.isEmpty_eq_false_iff.2 (List.ne_nil_of_mem (TemplateGroup.mem_of_find? hg).1)
  rw [insertAreas]
  dsimp only
  rw [hgroups, if_neg Bool.false_ne_true, hsplit, hfirst, hturn]
  generalize placeItems p.sheet.templateGroups after r found' = placed at hlast
  have hbegins : Begins placed.1.sheet item.rule xs placed.1.sheet :=
    ⟨.refl hlast.ages.numbered, Nat.lt_of_lt_of_le (hs.lt_next _ (his.mem_ids hs).2) hlast.ages.next_le, hlast.begins⟩
  rw [← hxs]
  exact (hbegins.foldl_insertAllWaiting hnotBlock hlast.last).begins.map Prod.snd

/-- A grid that draws two areas, and a rule for each. -/
def twoAreas : Pass where
  rules := default
  sheet := .ofRoot .root
    (.cons 1 (.rule ".g") (Sheet.leaves 2 [.declaration "grid-template-areas" "'x y y'"])
      (.cons 3 (.rule ".a") (Sheet.leaves 4 [.declaration "grid-area" "x"])
        (.tree 5 (.rule ".b") (Sheet.leaves 6 [.declaration "grid-area" "y"])))) 7

/-- The rule of the second area begins with its cells. -/
theorem insertAreas_beginsWith_twoAreas : twoAreas.sheet.IsNumbered ∧ (twoAreas.disabled 6).1 = false ∧
    [Node.declaration "-ms-grid-row" "1", .declaration "-ms-grid-column" "2", .declaration "-ms-grid-column-span" "2"] <+:
      (twoAreas.insertAreas.sheet.kids 5).topNodes.map Prod.snd := by
  have hs : twoAreas.sheet.IsNumbered := ⟨by decide, by decide⟩
  have hon : (twoAreas.disabled 6).1 = false := by decide
  have hsplit : twoAreas.sheet.declarations rootId = [2, 4] ++ 6 :: [] := by decide
  have hbelow : twoAreas.sheet.declarationsBelow rootId =
      [(2, ⟨"grid-template-areas", "'x y y'", false⟩), (4, ⟨"grid-area", "x", false⟩), (6, ⟨"grid-area", "y", false⟩)] := by
    decide
  have hnone : areaItem? twoAreas.sheet 2 = none := rfl
  have hfirst : areaItem? twoAreas.sheet 4 = some ⟨.declaration "grid-area" "x", "x", 3, ".a", 3, 1⟩ := rfl
  have hitem : areaItem? twoAreas.sheet 6 = some ⟨.declaration "grid-area" "y", "y", 5, ".b", 5, 2⟩ := rfl
  have ht : twoAreas.sheet.areaTemplate? 2 ⟨"grid-template-areas", "'x y y'", false⟩ =
      some { rule := 1, media := none, selectors := [".g"],
             areas := [("x", ⟨⟨1, 2, false⟩, ⟨1, 2, false⟩⟩), ("y", ⟨⟨1, 2, false⟩, ⟨2, 4, false⟩⟩)] } := rfl
  have hancestors : twoAreas.sheet.ancestors 6 = [5, 0] := by decide
  have honce : ∀ other, twoAreas.sheet.Draws "y" other → other = 2 := by
    rintro other ⟨d, hd, t, ht, -⟩
    rw [hbelow] at hd
    simp only [List.mem_cons, List.not_mem_nil, or_false, Prod.mk.injEq] at hd
    obtain ⟨rfl, rfl⟩ | ⟨rfl, rfl⟩ | ⟨rfl, rfl⟩ := hd
    · rfl
    · exact nomatch (show none = some t from ht)
    · exact nomatch (show none = some t from ht)
  have hbefore : ∀ i ∈ [2, 4], twoAreas.LetsPass i := by
    intro i hi item hplaced
    have hi' := hplaced.areaItem?
    obtain rfl | rfl : i = 2 ∨ i = 4 := by simpa using hi
    · rw [hnone] at hi'
      cases hi'
    · obtain rfl := Option.some.inj (hfirst.symm.trans hi')
      exact ⟨by decide, by decide⟩
  -- the rule of the first item does not stand around the second
  have hfree : twoAreas.sheet.StandsFree 6 := by
    intro other hother hne item hitem hmem
    rw [hsplit] at hother
    obtain rfl | rfl : other = 2 ∨ other = 4 := by
      simp only [List.cons_append, List.nil_append, List.mem_cons, List.not_mem_nil, or_false] at hother
      omega
    · rw [hnone] at hitem
      cases hitem
    · obtain rfl := Option.some.inj (hfirst.symm.trans hitem)
      rw [hancestors] at hmem
      exact absurd hmem (by decide)
  have hmem : (2, (⟨"grid-template-areas", "'x y y'", false⟩ : Declaration)) ∈ twoAreas.sheet.declarationsBelow rootId := by
    rw [hbelow]
    exact List.mem_cons_self
  have harea : Areas.get? [("x".toList, ⟨⟨1, 2, false⟩, ⟨1, 2, false⟩⟩), ("y".toList, ⟨⟨1, 2, false⟩, ⟨2, 4, false⟩⟩)] "y" =
      some ⟨⟨1, 2, false⟩, ⟨2, 4, false⟩⟩ := rfl
  have hbegins := insertAreas_beginsWith hs hsplit hitem hon (by decide) (by decide) hmem ht rfl harea honce hbefore hfree
  have hcells : AreaItem.cellNodes ⟨.declaration "grid-area" "y", "y", 5, ".b", 5, 2⟩ ⟨⟨1, 2, false⟩, ⟨2, 4, false⟩⟩ false =
      [Node.declaration "-ms-grid-row" "1", .declaration "-ms-grid-column" "2",
        .declaration "-ms-grid-column-span" "2"] := by decide
  rw [hcells] at hbegins
  exact ⟨hs, hon, hbegins⟩

end Pass

end VendorCss
