import VendorCss.Proofs.Grid.Groups
import VendorCss.Proofs.Pass.Undisturbed
import VendorCss.Proofs.Sheet.Standing

/-!
# Placing one item

An item that is placed into an area as one template says disturbs no beginning of a run but that of its own rule, unless
the cells below the rule are replaced (`AreaPlacing.place_moves`). They are replaced only where other templates contest
the area. Where one template draws the area, outside media queries, the rule of the item begins with the cells, whatever
the other templates of the group do (`AreaPlacing.foldl_place_drawsOnce`).
-/

namespace VendorCss

open Grid Sheet

namespace Sheet

theorem IsNumbered.mem_declarationsBelow {s : Sheet} (hs : s.IsNumbered) {id i : Nat} {d : Declaration}
    (hi : i ∈ s.descendants id) (hd : s.declaration? i = some d) : (i, d) ∈ s.declarationsBelow id := by
  rw [descendants, ← Forest.map_fst_nodes] at hi
  obtain ⟨⟨j, n⟩, hmem, rfl⟩ := List.mem_map.1 hi
  have hnode : s.node? j = some n := hs.node?_eq ((s.nodes_kids_sublist id).mem hmem)
  have hn : n.declaration? = some d := by rwa [declaration?, hnode] at hd
  have hkeep : n.isDeclaration = true := by rw [Node.isDeclaration, hn]; rfl
  exact List.mem_filterMap.2 ⟨j, List.mem_map.2 ⟨(j, n), List.mem_filter.2 ⟨hmem, hkeep⟩, rfl⟩, by rw [hd]; rfl⟩

end Sheet

/-! ## Items -/

namespace Pass

variable {s s' : Sheet} {decl : Nat} {item : AreaItem}

/-- What the sheet says about an item. -/
structure IsItem (s : Sheet) (decl : Nat) (item : AreaItem) : Prop where
  node : s.node? decl = some item.declaration
  declaration : ∃ d, item.declaration.declaration? = some d ∧ d.prop = "grid-area" ∧ d.value = item.area
  parent : s.parent? decl = some item.rule
  selector : s.selector? item.rule = some item.selector

theorem isItem_of_areaItem? (h : areaItem? s decl = some item) :
    IsItem s decl item ∧ item.anchor = (s.mediaAround? item.rule).getD item.rule := by
  unfold areaItem? at h
  obtain ⟨node, hnode, h⟩ := Option.bind_eq_some_iff.1 h
  obtain ⟨d, hd, h⟩ := Option.bind_eq_some_iff.1 h
  obtain ⟨rule, hrule, h⟩ := Option.bind_eq_some_iff.1 h
  obtain ⟨selector, hselector, h⟩ := Option.bind_eq_some_iff.1 h
  dsimp only at h
  split at h
  · rename_i hprop
    obtain rfl := Option.some.inj h
    exact ⟨⟨hnode, ⟨d, hd, hprop, rfl⟩, hrule, hselector⟩, rfl⟩
  · cases h

theorem IsItem.exists_areaItem? (h : IsItem s decl item) : ∃ other, areaItem? s decl = some other ∧
    other.declaration = item.declaration ∧ other.area = item.area ∧ other.rule = item.rule := by
  obtain ⟨d, hd, hprop, hvalue⟩ := h.declaration
  let anchor := (s.mediaAround? item.rule).getD item.rule
  refine ⟨{ item with area := d.value, anchor, index := s.index anchor }, ?_, rfl, hvalue, rfl⟩
  unfold areaItem?
  rw [h.node, Option.bind_eq_bind, Option.bind_some, hd, h.parent]
  simp only [Option.bind_eq_bind, Option.bind_some, h.selector]
  exact if_pos hprop

/-- An old item that is still there is the item that it was. -/
theorem IsItem.of_ages (hages : s.Ages s') (hs : s.IsNumbered) (hdecl : decl < s.next) (h : IsItem s' decl item) :
    IsItem s decl item := by
  obtain ⟨hnode, hparent⟩ := hages.old decl hdecl _ h.node
  have hparent := hparent.symm.trans h.parent
  have hrule : item.rule < s.next :=
    hs.lt_next _ (mem_ids_of_mem_ancestors (by rw [hs.ancestors_of_parent? hparent]; exact List.mem_cons_self))
  obtain ⟨n, hn, hselector⟩ := Option.bind_eq_some_iff.1 h.selector
  refine ⟨hnode, h.declaration, hparent, ?_⟩
  rw [selector?, (hages.old item.rule hrule n hn).1]
  exact hselector

theorem isBlock_of_selector? (hs : s.IsNumbered) {rule : Nat} {selector : Text} (h : s.selector? rule = some selector) :
    s.IsBlock rule := by
  obtain ⟨n, hn, hselector⟩ := Option.bind_eq_some_iff.1 h
  refine ⟨hs.lt_of_node? hn, fun m hm => ?_⟩
  obtain rfl := Option.some.inj (hn.symm.trans hm)
  exact Node.isBlock_of_selector? hselector

theorem isBlock_mediaAround? (hs : s.IsNumbered) {i media : Nat} (h : s.mediaAround? i = some media) :
    s.IsBlock media := by
  have htest := List.find?_some h
  obtain ⟨r, hr⟩ : ∃ r, s.atRule? media = some r := by
    cases hcase : s.atRule? media with
    | none => simp [hcase] at htest
    | some r => exact ⟨r, rfl⟩
  obtain ⟨n, hn, hrule⟩ := Option.bind_eq_some_iff.1 hr
  refine ⟨hs.lt_of_node? hn, fun m hm => ?_⟩
  obtain rfl := Option.some.inj (hn.symm.trans hm)
  exact Node.isBlock_of_atRule? hrule

end Pass

/-! ## One template -/

namespace AreaPlacing

variable {kept : Nat → Prop} {item : AreaItem} {p q r : AreaPlacing} {t : AreaTemplate} {nodes : List Node}

/-- The sheet is in order, and new rules go after blocks. -/
structure Grounded (item : AreaItem) (p : AreaPlacing) : Prop where
  numbered : p.sheet.IsNumbered
  rule : p.sheet.IsBlock item.rule
  anchor : p.sheet.IsBlock item.anchor
  last : ∀ l ∈ p.placement.last, p.sheet.IsBlock l
  root : item.rule ∉ p.sheet.ancestors rootId

/-- The second state is reached by edits aside at the rule of the item. -/
structure Moves (kept : Nat → Prop) (item : AreaItem) (p q : AreaPlacing) : Prop where
  aside : Aside kept item.rule p.sheet q.sheet
  grounded : q.Grounded item

theorem Grounded.moves (h : p.Grounded item) (haside : Aside kept item.rule p.sheet q.sheet)
    (hlast : ∀ l ∈ q.placement.last, q.sheet.IsBlock l) : Moves kept item p q where
  aside := haside
  grounded :=
    ⟨haside.numbered, h.rule.ages haside.toAges, h.anchor.ages haside.toAges, hlast,
      haside.toAges.notMem_ancestors h.numbered (Nat.zero_lt_of_lt h.rule.1) h.root⟩

/-- Edits that leave the last rule as it is. -/
theorem Grounded.moves_of_placement (h : p.Grounded item) (haside : Aside kept item.rule p.sheet q.sheet)
    (hplacement : q.placement.last = p.placement.last) : Moves kept item p q :=
  h.moves haside fun l hl => (h.last l (hplacement ▸ hl)).ages haside.toAges

theorem Grounded.moves_refl (h : p.Grounded item) (kept : Nat → Prop) : Moves kept item p p :=
  h.moves_of_placement (.refl h.numbered _ _) rfl

theorem Moves.trans (h : Moves kept item p q) (h' : Moves kept item q r) : Moves kept item p r :=
  ⟨h.aside.trans h'.aside, h'.grounded⟩

/-- Another last rule, which is a block. -/
theorem Moves.withLast (h : Moves kept item p q) {last : Nat} (hlast : q.sheet.IsBlock last) :
    Moves kept item p (q.withLast last) where
  aside := h.aside
  grounded := by
    refine ⟨h.grounded.numbered, h.grounded.rule, h.grounded.anchor, fun l hl => ?_, h.grounded.root⟩
    obtain rfl := Option.some.inj hl
    exact hlast

theorem Moves.set (h : Moves kept item p q) (lastIsSet : Bool) : Moves kept item p { q with lastIsSet } :=
  ⟨h.aside, h.grounded.numbered, h.grounded.rule, h.grounded.anchor, h.grounded.last, h.grounded.root⟩

theorem pass_moves (h : p.Grounded item) : Moves kept item p (p.pass item) := by
  unfold pass
  split
  · exact (h.moves_refl kept).withLast h.anchor
  · exact h.moves_refl kept

theorem comment?_cellNodes {a : Area} {forced : Bool} {n : Node} (hn : n ∈ item.cellNodes a forced) :
    n.comment? = none ∧ ¬n.IsBlock := by
  obtain ⟨x, -, rfl⟩ := List.mem_map.1 hn
  exact ⟨rfl, fun h => nomatch h.1⟩

theorem prepend_aside {s : Sheet} (hs : s.IsNumbered) (q : Nat) (ns : List Node) (h : ∀ n ∈ ns, n.comment? = none) :
    Aside kept q s (ns.foldl (fun s n => (s.insert (.prepended q) n).2) s) := by
  induction ns generalizing s with
  | nil => exact .refl hs _ _
  | cons n ns ih =>
    have hstep : Aside kept q s (s.insert (.prepended q) n).2 := .prepend hs kept q (h n List.mem_cons_self)
    exact hstep.trans (ih hstep.numbered fun m hm => h m (List.mem_cons_of_mem _ hm))

theorem prepend_moves (h : p.Grounded item) (hnodes : ∀ n ∈ nodes, n.comment? = none) :
    Moves kept item p (p.prepend item nodes) :=
  h.moves_of_placement (prepend_aside h.numbered _ _ fun n hn => hnodes n (List.mem_reverse.1 hn)) rfl

theorem insertUnder_moves (h : p.Grounded item) : Moves kept item p (p.insertUnder item t nodes) := by
  unfold insertUnder
  split
  · exact h.moves_refl kept
  · rename_i node nodes' hrule
    obtain ⟨n, hn, heq⟩ := Option.map_eq_some_iff.1 hrule
    obtain ⟨rfl, rfl⟩ := Prod.mk.inj heq
    have hlast : p.sheet.IsBlock (p.placement.last.getD item.anchor) := by
      cases hcase : p.placement.last with
      | none => exact h.anchor
      | some l => exact h.last l hcase
    have hblock := (h.rule.2 n hn).mapSelector fun _ =>
      AreaItem.selectorUnder t.selectors (p.sheet.selectorsOf item.rule)
    refine h.moves (Aside.insertBlock_after h.numbered hblock nodes hlast) fun l hl => ?_
    obtain rfl := Option.some.inj hl
    exact Aside.isBlock_insertBlock h.numbered hblock nodes _

theorem replace_moves (h : p.Grounded item) (hnodes : ∀ n ∈ nodes, n.comment? = none)
    (hkept : ∀ a < p.sheet.next, kept a → a ≠ item.rule ∧ item.rule ∉ p.sheet.ancestors a) :
    Moves kept item p (p.replace item nodes) := by
  unfold replace
  have hcell : ∀ d : Declaration, d.prop = "-ms-grid-row" → isCell d = true := fun d hprop => by
    rw [isCell, hprop]
    decide
  have haside : Aside kept item.rule p.sheet ((((p.sheet.declarationsBelow item.rule).filter
      fun x => isCell x.2).map Prod.fst).foldl Sheet.remove p.sheet) := by
    refine .foldl_remove h.numbered (fun i hi => ?_) (fun i d hi hd hprop => ?_) hkept
    · obtain ⟨⟨j, d⟩, hmem, rfl⟩ := List.mem_map.1 hi
      exact h.numbered.mem_descendants.1 (of_mem_declarationsBelow (List.mem_filter.1 hmem).1).1
    · refine ⟨List.mem_map.2 ⟨(i, d), List.mem_filter.2 ⟨?_, hcell d hprop⟩, rfl⟩, ?_⟩
      · exact h.numbered.mem_declarationsBelow (h.numbered.mem_descendants.2 hi) hd
      · rintro rfl
        exact h.root hi
  have hremoved : Moves kept item p { p with sheet := _ } := h.moves_of_placement haside rfl
  exact hremoved.trans (prepend_moves hremoved.grounded hnodes)

theorem insertInMedia_moves (h : p.Grounded item) (params : Text) :
    Moves kept item p (p.insertInMedia item t params nodes) := by
  unfold insertInMedia
  split
  · exact h.moves_refl kept
  · rename_i node nodes' hrule
    obtain ⟨n, hn, heq⟩ := Option.map_eq_some_iff.1 hrule
    obtain ⟨rfl, rfl⟩ := Prod.mk.inj heq
    have hnode := h.rule.2 n hn
    dsimp only
    generalize hcopy : (if (t.rivalled && t.contested.contains item.area) = true then
      n.mapSelector fun _ => AreaItem.selectorUnder t.selectors (p.sheet.selectorsOf item.rule) else n) = copy
    have hblock : copy.IsBlock := by
      rw [← hcopy]
      split
      · exact hnode.mapSelector _
      · exact hnode
    have hset : ∀ q, Moves kept item p q → Moves kept item p (if q.lastIsSet then q else q.withLast item.anchor) := by
      intro q hq
      split
      · exact hq
      · exact hq.withLast hq.grounded.anchor
    split
    · refine hset _ (h.moves_of_placement ?_ rfl)
      exact Aside.insertBlock_appended h.numbered (hblock.withRaws _) nodes _
    · exact hset _ (h.moves_of_placement (.refl h.numbered _ _) rfl)

/-- An item that is placed as a template says disturbs no beginning but that of its rule; where others contest the area,
the nodes that are kept may not stand below the rule. -/
theorem place_moves (h : p.Grounded item) (hkept : (∀ a < p.sheet.next, kept a → a ≠ item.rule ∧
    item.rule ∉ p.sheet.ancestors a) ∨ (t.areas.get? item.area ≠ none → item.area ∉ t.contested)) :
    Moves kept item p (place item p t) := by
  have hcells : ∀ a forced, ∀ n ∈ item.cellNodes a forced, n.comment? = none := fun _ _ _ hn => (comment?_cellNodes hn).1
  unfold place
  split
  · exact pass_moves h
  · rename_i a ha _
    dsimp only
    split
    · have hprepend : Moves kept item p (p.prepend item (item.cellNodes a false)) := prepend_moves h (hcells a false)
      exact (hprepend.withLast hprepend.grounded.rule).set true
    · rename_i hcontested
      split
      · exact insertUnder_moves h
      · split
        · refine replace_moves h (hcells a true) (hkept.resolve_right fun hnot => hcontested ?_)
          have hnone : t.contested.contains item.area = false :=
            Bool.eq_false_iff.2 fun hin => hnot (by rw [ha]; nofun) (List.contains_iff_mem.1 hin)
          rw [hnone]
          exact Bool.or_true _
        · exact h.moves_refl kept
  · rename_i a params _ _
    have hawait : Moves kept item p (p.await params) := by
      unfold await
      split
      · exact h.moves_refl kept
      · exact h.moves_of_placement (.refl h.numbered _ _) rfl
    exact hawait.trans (insertInMedia_moves hawait.grounded params)

/-- The templates of a group one after the other. -/
theorem foldl_place_moves {ts : List AreaTemplate} (h : p.Grounded item)
    (hkept : (∀ a, kept a → a < p.sheet.next ∧ a ≠ item.rule ∧ item.rule ∉ p.sheet.ancestors a) ∨
      ∀ t ∈ ts, t.areas.get? item.area ≠ none → item.area ∉ t.contested) :
    Moves kept item p (ts.foldl (place item) p) := by
  induction ts generalizing p with
  | nil => exact h.moves_refl kept
  | cons t ts ih =>
    have hstep : Moves kept item p (place item p t) :=
      place_moves h (hkept.imp (fun hall a _ ha => (hall a ha).2) fun hall => hall t List.mem_cons_self)
    refine hstep.trans (ih hstep.grounded (hkept.imp (fun hall a ha => ?_) fun hall u hu =>
      hall u (List.mem_cons_of_mem _ hu)))
    obtain ⟨hlt, hne, hnot⟩ := hall a ha
    exact ⟨Nat.lt_of_lt_of_le hlt hstep.aside.next_le, hne, hstep.aside.toAges.notMem_ancestors h.numbered hlt hnot⟩

/-! ## An area that one template draws -/

theorem sheet_foldl_place {ts : List AreaTemplate} (h : ∀ t ∈ ts, t.areas.get? item.area = none) (p : AreaPlacing) :
    (ts.foldl (place item) p).sheet = p.sheet := by
  induction ts generalizing p with
  | nil => rfl
  | cons t ts ih =>
    have hpass : (place item p t).sheet = p.sheet := by
      rw [place, h t List.mem_cons_self]
      dsimp only
      unfold pass
      split <;> rfl
    rw [List.foldl_cons, ih (fun u hu => h u (List.mem_cons_of_mem _ hu)), hpass]

/-- Leaves that are put first one after the other stand before what was there. -/
theorem exists_topNodes_prepend {s : Sheet} (hs : s.IsNumbered) {rule : Nat} (hrule : rule ∈ s.ids) (ns : List Node) :
    ∃ xs : Siblings, xs.map Prod.snd = ns ∧
      ((ns.foldl (fun s n => (s.insert (.prepended rule) n).2) s).kids rule).topNodes =
        xs.reverse ++ (s.kids rule).topNodes := by
  induction ns generalizing s with
  | nil => exact ⟨[], rfl, rfl⟩
  | cons n ns ih =>
    have hfresh := s.isFresh_tree n
    have hkids := hs.topNodes_kids_prepended_self hrule (.tree s.next n .nil) (s.next + 1)
    have hrule' : rule ∈ (s.insert (.prepended rule) n).2.ids := by
      have hnode := node?_splice hfresh (hs.lt_next rule hrule) (.prepended rule)
      obtain ⟨m, hm⟩ := exists_node? hrule
      exact Forest.mem_ids_of_mem_nodes (mem_nodes_of_node? (hnode.trans hm))
    obtain ⟨xs, hxs, htop⟩ := ih (hs.splice hfresh _) hrule'
    refine ⟨(s.next, n) :: xs, by rw [List.map_cons, hxs], ?_⟩
    rw [List.foldl_cons, List.reverse_cons, List.append_assoc]
    refine htop.trans (congrArg (xs.reverse ++ ·) ?_)
    exact hkids

/-- The rule of an item begins with the cells of its area, if one template of the group draws it. -/
theorem foldl_place_drawsOnce {a : Area} {g : TemplateGroup} (h : p.Grounded item) (hrule : item.rule ∈ p.sheet.ids)
    (hg : TemplateGroup.DrawsOnce item.area a none g) : ∃ xs : Siblings, xs.map Prod.snd = item.cellNodes a false ∧
      xs <+: ((g.templates.foldl (place item) p).sheet.kids item.rule).topNodes := by
  obtain ⟨before, t, after, htemplates, hothers, hmedia, hcontested, b, hb, hcells⟩ := hg.templates
  have hbefore := sheet_foldl_place (fun u hu => hothers u (List.mem_append_left _ hu)) p
  have hplace : ∀ q, (place item q t).sheet = (q.prepend item (item.cellNodes a false)).sheet := by
    intro q
    have hsame : item.cellNodes b false = item.cellNodes a false := by
      rw [AreaItem.cellNodes, AreaItem.cellNodes, hcells]
    have hnone : t.contested.contains item.area = false :=
      Bool.eq_false_iff.2 fun hin => hcontested (List.contains_iff_mem.1 hin)
    rw [place, hb, hmedia]
    dsimp only
    rw [if_pos (by rw [hnone]; exact Bool.or_true _), hsame]
    rfl
  obtain ⟨xs, hxs, htop⟩ := exists_topNodes_prepend h.numbered hrule (item.cellNodes a false).reverse
  refine ⟨xs.reverse, by rw [List.map_reverse, hxs, List.reverse_reverse], ?_⟩
  rw [htemplates, List.foldl_append, List.foldl_cons,
    sheet_foldl_place (fun u hu => hothers u (List.mem_append_right _ hu)), hplace, prepend, hbefore, htop]
  exact List.prefix_append _ _

end AreaPlacing

end VendorCss
