import VendorCss.Proofs.Pass.PlainCopies
import VendorCss.Proofs.Pass.Scopes
import VendorCss.Proofs.Sheet.Relabelling

/-!
# Declarations that miss no copy

Which copies a declaration misses is told by the declarations before and after it, and by the nodes above it
(`PropertyVariants.missing_congr`). A copy of another declaration that comes in beside it is one more that is looked at:
where the other declaration belongs to the group, its copy does as well, and the group goes on behind the copy; where it
does not, the group ends at the copy as it ended at the declaration. So no copy makes another declaration miss one
(`PropertyVariants.missing_eq_nil_of_copy`).
-/

namespace VendorCss

/-- The declarations among children. -/
def Siblings.declarations (l : Siblings) : List (Nat × Declaration) :=
  l.filterMap fun x => x.2.declaration?.map (x.1, ·)

namespace Siblings

variable {l l' : Siblings}

theorem declarations_append (l l' : Siblings) :
    declarations (l ++ l') = declarations l ++ declarations l' := List.filterMap_append

theorem declarations_reverse (l : Siblings) : declarations l.reverse = (declarations l).reverse :=
  List.filterMap_reverse

theorem declarations_cons {i : Nat} {n : Node} {d : Declaration} (hd : n.declaration? = some d) (l : Siblings) :
    declarations ((i, n) :: l) = (i, d) :: declarations l := by
  rw [declarations, List.filterMap_cons, hd]
  rfl

/-- Declarations are told by the nodes alone. -/
theorem map_snd_declarations (l : Siblings) :
    (declarations l).map Prod.snd = (Sheet.unplacedNodes l).filterMap Node.declaration? := by
  rw [declarations, List.map_filterMap, Sheet.unplacedNodes, List.filterMap_map]
  refine List.filterMap_congr fun x _ => ?_
  rw [Option.map_map, Function.comp_apply]
  show Option.map id x.2.declaration? = _
  rw [Option.map_id]
  rfl

end Siblings

namespace Sheet

variable {s : Sheet} {rule decl : Nat} {n : Node} {d : Declaration} {before after : Siblings}

theorem IsNumbered.stands (hs : s.IsNumbered) (hd : s.declaration? decl = some d) (hparent : s.parent? decl = some rule) :
    s.Stands rule decl d := by
  obtain ⟨n, hn, hd⟩ := Option.bind_eq_some_iff.1 hd
  refine ⟨hs, List.mem_filterMap.2 ⟨(decl, n), hs.mem_topNodes hparent hn, ?_⟩⟩
  dsimp only
  rw [hd]
  rfl

/-- A node among the children of another one, those before it, and those after it. -/
structure Cut (s : Sheet) (rule decl : Nat) (before : Siblings) (n : Node) (after : Siblings) : Prop where
  numbered : s.IsNumbered
  topNodes : (s.kids rule).topNodes = before ++ (decl, n) :: after

namespace Cut

variable (h : s.Cut rule decl before n after)

include h

theorem mem : (decl, n) ∈ (s.kids rule).topNodes := by
  rw [h.topNodes]
  exact List.mem_append_right _ List.mem_cons_self

theorem node? : s.node? decl = some n := h.numbered.node?_of_mem_topNodes h.mem

theorem parent? : s.parent? decl = some rule := h.numbered.parent?_of_mem_topNodes h.mem

theorem mem_ids : decl ∈ s.ids := h.numbered.mem_ids_of_mem_topNodes h.mem

theorem stands (hd : n.declaration? = some d) : s.Stands rule decl d :=
  h.numbered.stands (by rw [declaration?, h.node?, Option.bind_some, hd]) h.parent?

/-- The declarations before a node, nearest first, and those after it. -/
theorem declarationsAmong_eq :
    Pass.declarationsAmong s (s.prevSiblings decl) = Siblings.declarations before.reverse ∧
      Pass.declarationsAmong s (s.nextSiblings decl) = Siblings.declarations after := by
  have hall : s.siblings decl = before.map Prod.fst ++ decl :: after.map Prod.fst := by
    rw [h.numbered.siblings_of_parent? h.parent?, children, ← Forest.map_fst_topNodes, h.topNodes, List.map_append,
      List.map_cons]
  have hnot : decl ∉ before.map Prod.fst := by
    have hnodup := h.numbered.nodup_children rule
    rw [children, ← Forest.map_fst_topNodes, h.topNodes, List.map_append, List.map_cons, List.nodup_append] at hnodup
    exact fun hmem => hnodup.2.2 decl hmem decl List.mem_cons_self rfl
  have hamong (l : Siblings) (hl : l ⊆ (s.kids rule).topNodes) :
      Pass.declarationsAmong s (l.map Prod.fst) = Siblings.declarations l := by
    rw [Pass.declarationsAmong, List.filterMap_map]
    refine List.filterMap_congr fun x hx => ?_
    rw [Function.comp_apply, declaration?, h.numbered.node?_of_mem_topNodes (hl hx), Option.bind_some]
  obtain ⟨hprev, hnext⟩ := siblings_of_cut hall hnot
  have hsub : before.reverse ⊆ (s.kids rule).topNodes ∧ after ⊆ (s.kids rule).topNodes := by
    rw [h.topNodes]
    exact ⟨fun x hx => List.mem_append_left _ (List.mem_reverse.1 hx),
      fun x hx => List.mem_append_right _ (List.mem_cons_of_mem _ hx)⟩
  rw [hprev, hnext, ← List.map_reverse]
  exact ⟨hamong _ hsub.1, hamong _ hsub.2⟩

end Cut

end Sheet

namespace Pass

variable {r : Rules} {std : Text} {p q : Pass} {rule rule' decl decl' : Nat} {d e : Declaration} {n n' : Node}
variable {before after before' after' : Siblings} {planned : Text} {v : PropertyVariants}
variable {above above' below below' : List (Nat × Declaration)}

/-- Where two elements of a list are cut out, one comes before the other. -/
theorem cut_cut {α : Type} {l l' k k' : List α} {x y : α} (h : l ++ x :: l' = k ++ y :: k') (hne : x ≠ y) :
    (∃ mid, k = l ++ x :: mid ∧ l' = mid ++ y :: k') ∨ ∃ mid, l = k ++ y :: mid ∧ k' = mid ++ x :: l' := by
  rcases List.append_eq_append_iff.1 h with ⟨mid, hk, hmid⟩ | ⟨mid, hl, hmid⟩
  · rcases List.cons_eq_append_iff.1 hmid with ⟨-, hxy⟩ | ⟨mid, rfl, hrest⟩
    · exact absurd (List.cons.inj hxy).1.symm hne
    · exact .inl ⟨mid, hk, hrest⟩
  · rcases List.cons_eq_append_iff.1 hmid with ⟨-, hxy⟩ | ⟨mid, rfl, hrest⟩
    · exact absurd (List.cons.inj hxy).1 hne
    · exact .inr ⟨mid, hl, hrest⟩

/-! ## What is looked at -/

/-- The members of a group, by the declarations before and after it, nearest first. -/
def groupAmong (r : Rules) (std : Text) (above below : List (Nat × Declaration)) : List Declaration :=
  (membersAbove r std above ++ membersBelow r std below).map Prod.snd

/-- All declarations of a rule, by those before and after one of them. -/
def rowOf (d : Declaration) (above below : List (Nat × Declaration)) : List Declaration :=
  (above ++ (0, d) :: below).map Prod.snd

/-- What a declaration misses, by what stands before and after it. -/
theorem misses_eq (h : p.sheet.Cut rule decl before n after) (hd : n.declaration? = some d) (planned : Text) :
    p.misses decl d planned = (!Vendor.speaksToOther d.value planned &&
      !(groupAmong p.rules (PropertyName.standard d.prop) (Siblings.declarations before.reverse)
        (Siblings.declarations after)).any (fun e => e.prop == planned ++ d.prop) &&
      !(rowOf d (Siblings.declarations before.reverse) (Siblings.declarations after)).any fun e =>
        e.prop == planned ++ d.prop && e.value == d.value) := by
  have hstands := h.stands hd
  obtain ⟨hprev, hnext⟩ := h.declarationsAmong_eq
  rw [misses, hasCopy, groupHas_eq hstands.declaration?, someSibling_eq hstands, hprev, hnext, groupAmong, rowOf,
    List.any_map, List.any_map, List.any_append, List.any_append, List.any_cons]
  rfl

/-- Where more is looked at, no more is missing. -/
theorem misses_mono (h : p.sheet.Cut rule decl before n after) (hd : n.declaration? = some d)
    (h' : q.sheet.Cut rule' decl' before' n' after') (hd' : n'.declaration? = some d) (hrules : q.rules = p.rules)
    (hgroup : groupAmong p.rules (PropertyName.standard d.prop) (Siblings.declarations before.reverse)
        (Siblings.declarations after) ⊆
      groupAmong p.rules (PropertyName.standard d.prop) (Siblings.declarations before'.reverse)
        (Siblings.declarations after'))
    (hrow : rowOf d (Siblings.declarations before.reverse) (Siblings.declarations after) ⊆
      rowOf d (Siblings.declarations before'.reverse) (Siblings.declarations after'))
    (hmisses : q.misses decl' d planned = true) : p.misses decl d planned = true := by
  rw [misses_eq h hd, Bool.and_eq_true, Bool.and_eq_true, Bool.not_eq_true', Bool.not_eq_true', Bool.not_eq_true',
    List.any_eq_false, List.any_eq_false]
  rw [misses_eq h' hd', hrules, Bool.and_eq_true, Bool.and_eq_true, Bool.not_eq_true', Bool.not_eq_true',
    Bool.not_eq_true', List.any_eq_false, List.any_eq_false] at hmisses
  exact ⟨⟨hmisses.1.1, fun e he => hmisses.1.2 e (hgroup he)⟩, fun e he => hmisses.2 e (hrow he)⟩

/-! ## The same declarations -/

theorem membersAbove_congr (h : above.map Prod.snd = above'.map Prod.snd) :
    (membersAbove r std above).map Prod.snd = (membersAbove r std above').map Prod.snd := by
  induction above generalizing above' with
  | nil =>
    obtain rfl := List.map_eq_nil_iff.1 h.symm
    rfl
  | cons x above ih =>
    obtain ⟨y, above', rfl, hy, hrest⟩ := List.map_eq_cons_iff.1 h.symm
    rw [membersAbove, membersAbove, hy]
    split
    · rfl
    · rw [List.map_cons, List.map_cons, ih hrest.symm]

theorem membersBelow_congr (h : below.map Prod.snd = below'.map Prod.snd) :
    (membersBelow r std below).map Prod.snd = (membersBelow r std below').map Prod.snd := by
  induction below generalizing below' with
  | nil =>
    obtain rfl := List.map_eq_nil_iff.1 h.symm
    rfl
  | cons x below ih =>
    obtain ⟨y, below', rfl, hy, hrest⟩ := List.map_eq_cons_iff.1 h.symm
    rw [membersBelow, membersBelow, hy]
    split
    · rfl
    · split
      · rfl
      · rw [List.map_cons, List.map_cons, ih hrest.symm]

/-! ## One copy more -/

theorem groupAmong_subset (habove : membersAbove r std above ⊆ membersAbove r std above')
    (hbelow : membersBelow r std below ⊆ membersBelow r std below') :
    groupAmong r std above below ⊆ groupAmong r std above' below' :=
  List.map_subset _ (List.append_subset.2 ⟨List.subset_append_of_subset_left _ habove,
    List.subset_append_of_subset_right _ hbelow⟩)

theorem rowOf_subset (habove : above ⊆ above') (hbelow : below ⊆ below') : rowOf d above below ⊆ rowOf d above' below' :=
  List.map_subset _ (List.append_subset.2 ⟨List.subset_append_of_subset_left _ habove,
    List.subset_append_of_subset_right _ (List.cons_subset_cons _ hbelow)⟩)

/-- A declaration that stands for the same property as another one, but is not the plain one that ends a group. -/
structure IsBeside (r : Rules) (e d : Declaration) : Prop where
  standard : PropertyName.standard e.prop = PropertyName.standard d.prop
  not_plain : isPlain r (PropertyName.standard d.prop) e = false

theorem membersAbove_copy (x : Nat × Declaration) (hbeside : IsBeside r e x.2) (j : Nat)
    (above above' : List (Nat × Declaration)) :
    membersAbove r std (above ++ x :: above') ⊆ membersAbove r std (above ++ x :: (j, e) :: above') := by
  induction above with
  | nil =>
    rw [List.nil_append, List.nil_append, membersAbove, membersAbove]
    split
    · exact List.Subset.refl _
    · rename_i hgo
      rw [Bool.or_eq_true, not_or, bne_iff_ne, not_not] at hgo
      have hself : ¬(isPlain r std e || PropertyName.standard e.prop != std) = true := by
        rw [← hgo.2, hbeside.not_plain, hbeside.standard, bne_self_eq_false]
        exact Bool.false_ne_true
      rw [membersAbove, if_neg hself]
      exact List.cons_subset_cons _ (List.subset_cons_self _ _)
  | cons y above ih =>
    rw [List.cons_append, List.cons_append, membersAbove, membersAbove]
    split
    · exact List.Subset.refl _
    · exact List.cons_subset_cons _ ih

theorem membersBelow_copy (x : Nat × Declaration) (hbeside : IsBeside r e x.2) (j : Nat)
    (below below' : List (Nat × Declaration)) :
    membersBelow r std (below ++ x :: below') ⊆ membersBelow r std (below ++ (j, e) :: x :: below') := by
  induction below with
  | nil =>
    rw [List.nil_append, List.nil_append]
    by_cases hstandard : PropertyName.standard x.2.prop = std
    · have hnot : ¬(PropertyName.standard e.prop != std) = true := by
        rw [hbeside.standard, hstandard, bne_self_eq_false]
        exact Bool.false_ne_true
      rw [membersBelow.eq_2 r std j e, if_neg hnot, ← hstandard, hbeside.not_plain, if_neg Bool.false_ne_true]
      exact List.subset_cons_self _ _
    · rw [membersBelow, if_pos (bne_iff_ne.2 hstandard)]
      exact List.nil_subset _
  | cons y below ih =>
    rw [List.cons_append, List.cons_append, membersBelow, membersBelow]
    split
    · exact List.Subset.refl _
    · split
      · exact List.Subset.refl _
      · exact List.cons_subset_cons _ ih

/-- A copy for a planned prefix stands for the property of its declaration. -/
theorem isBeside_copy (hunprefixed : Vendor.ofName d.prop = []) (hv : Vendor.IsVendor planned) :
    IsBeside r { d with prop := planned ++ d.prop } d where
  standard := PropertyName.standard_append hv hunprefixed
  not_plain := by rw [isPlain, beq_eq_false_iff_ne.2 (PropertyName.append_ne_standard hv hunprefixed), Bool.false_and]

end Pass

/-! ## What is missing -/

namespace Sheet

theorem Stands.exists_cut {s : Sheet} {rule decl : Nat} {d : Declaration} (h : s.Stands rule decl d) :
    ∃ before n after, s.Cut rule decl before n after ∧ n.declaration? = some d := by
  obtain ⟨⟨i, n⟩, hmem, hn⟩ := List.mem_filterMap.1 h.mem
  obtain ⟨d', hd, heq⟩ := Option.map_eq_some_iff.1 hn
  obtain ⟨rfl, rfl⟩ := Prod.mk.inj heq
  obtain ⟨before, after, hcut⟩ := List.append_of_mem hmem
  exact ⟨before, n, after, ⟨h.numbered, hcut⟩, hd⟩

end Sheet

namespace PropertyVariants

open Pass

variable {p q : Pass} {v : PropertyVariants} {rule rule' decl decl' a : Nat} {d d' e : Declaration} {n n' m : Node}
variable {before after before' after' : Siblings}

/-- What is missing is told by the sheet and the rules. -/
theorem missing_eq (hs : p.sheet.IsNumbered) (hid : decl ∈ p.sheet.ids) (d : Declaration) :
    v.missing p decl d =
      (v.prefixes.filter (inScope (p.sheet.scope p.rules.selection.vendors decl))).filter (p.misses decl d) := by
  have hfresh : p.fresh.RemembersScopes := fun _ hx => absurd hx List.not_mem_nil
  rw [missing, (RemembersScopes.scope_eq (p := p.fresh) hs hfresh hid).1]
  rfl

/-- Where more is looked at in the same scope, no more is missing. -/
theorem missing_eq_nil_of_subset (h : p.sheet.Cut rule decl before n after) (hd : n.declaration? = some d)
    (h' : q.sheet.Cut rule' decl' before' n' after') (hd' : n'.declaration? = some d) (hrules : q.rules = p.rules)
    (hscope : q.sheet.scope p.rules.selection.vendors decl' = p.sheet.scope p.rules.selection.vendors decl)
    (hgroup : groupAmong p.rules (PropertyName.standard d.prop) (Siblings.declarations before.reverse)
        (Siblings.declarations after) ⊆
      groupAmong p.rules (PropertyName.standard d.prop) (Siblings.declarations before'.reverse)
        (Siblings.declarations after'))
    (hrow : rowOf d (Siblings.declarations before.reverse) (Siblings.declarations after) ⊆
      rowOf d (Siblings.declarations before'.reverse) (Siblings.declarations after'))
    (hnil : v.missing p decl d = []) : v.missing q decl' d = [] := by
  rw [missing_eq h.numbered (h.mem_ids), List.filter_eq_nil_iff] at hnil
  rw [missing_eq h'.numbered (h'.mem_ids), hrules, hscope, List.filter_eq_nil_iff]
  exact fun planned hplanned hmisses => hnil planned hplanned (misses_mono h hd h' hd' hrules hgroup hrow hmisses)

/-! ### Edits -/

section

variable (h : p.sheet.Stands rule decl d) (hrules : q.rules = p.rules) (hnil : v.missing p decl d = [])

include h hrules hnil

/-- A copy of another declaration comes in beside it. -/
theorem missing_eq_nil_of_insertBefore (hne : decl ≠ a) (ha : p.sheet.declaration? a = some d')
    (hm : m.declaration? = some e) (hbeside : IsBeside p.rules e d') (hsheet : q.sheet = p.sheet.insertBefore a m) :
    v.missing q decl d = [] := by
  obtain ⟨before, n, after, hcut, hd⟩ := h.exists_cut
  have hs := h.numbered
  have hnumbered : q.sheet.IsNumbered := by
    rw [hsheet]
    exact hs.insertBefore a m
  have hgrows : p.sheet.Grows Node.SameScope q.sheet := by
    rw [hsheet]
    exact Sheet.grows_splice (R := Node.SameScope) (fun _ => rfl) (p.sheet.isFresh_tree m) (.before a)
  have hscope : q.sheet.scope p.rules.selection.vendors decl = p.sheet.scope p.rules.selection.vendors decl :=
    hgrows.scope_eq hs hnumbered hcut.mem_ids
  have hrule : rule < p.sheet.next := hs.lt_next rule (Sheet.mem_ids_of_mem_ancestors (by
    rw [hs.ancestors_of_parent? hcut.parent?]
    exact List.mem_cons_self))
  have hkids : (q.sheet.kids rule).topNodes = (p.sheet.kids rule).topNodes ∨
      ∃ l n l', (p.sheet.kids rule).topNodes = l ++ (a, n) :: l' ∧
        (q.sheet.kids rule).topNodes = l ++ ((p.sheet.next, m) :: (a, n) :: l') := by
    rw [hsheet]
    exact Sheet.topNodes_kids_before hs (p.sheet.isFresh_tree m) hrule
  obtain hsame | ⟨l, n', l', hold, hnew⟩ := hkids
  · have hcut' : q.sheet.Cut rule decl before n after := ⟨hnumbered, hsame.trans hcut.topNodes⟩
    exact missing_eq_nil_of_subset hcut hd hcut' hd hrules hscope (List.Subset.refl _) (List.Subset.refl _) hnil
  · -- the copy stands in the same row, on one side of the declaration
    have hmem : (a, n') ∈ (p.sheet.kids rule).topNodes := hold ▸ List.mem_append_right _ List.mem_cons_self
    have hn' : n'.declaration? = some d' := by
      rwa [Sheet.declaration?, hs.node?_of_mem_topNodes hmem, Option.bind_some] at ha
    rcases cut_cut (hold.symm.trans hcut.topNodes) fun heq => hne (congrArg Prod.fst heq).symm with
      ⟨mid, rfl, rfl⟩ | ⟨mid, rfl, rfl⟩
    · have hcut' : q.sheet.Cut rule decl (l ++ (p.sheet.next, m) :: (a, n') :: mid) n after :=
        ⟨hnumbered, by rw [hnew]; simp⟩
      have habove : Siblings.declarations (l ++ (a, n') :: mid).reverse =
          Siblings.declarations mid.reverse ++ (a, d') :: Siblings.declarations l.reverse := by
        simp [Siblings.declarations_append, Siblings.declarations_cons hn']
      have habove' : Siblings.declarations (l ++ (p.sheet.next, m) :: (a, n') :: mid).reverse =
          Siblings.declarations mid.reverse ++ (a, d') :: (p.sheet.next, e) :: Siblings.declarations l.reverse := by
        simp [Siblings.declarations_append, Siblings.declarations_cons hn', Siblings.declarations_cons hm]
      refine missing_eq_nil_of_subset hcut hd hcut' hd hrules hscope ?_ ?_ hnil
      · rw [habove, habove']
        exact groupAmong_subset (membersAbove_copy (a, d') hbeside _ _ _) (List.Subset.refl _)
      · rw [habove, habove']
        exact rowOf_subset (((List.sublist_cons_self _ _).cons_cons _).append_left _).subset (List.Subset.refl _)
    · have hcut' : q.sheet.Cut rule decl before n (mid ++ (p.sheet.next, m) :: (a, n') :: l') :=
        ⟨hnumbered, by rw [hnew]; simp⟩
      have hbelow : Siblings.declarations (mid ++ (a, n') :: l') =
          Siblings.declarations mid ++ (a, d') :: Siblings.declarations l' := by
        rw [Siblings.declarations_append, Siblings.declarations_cons hn']
      have hbelow' : Siblings.declarations (mid ++ (p.sheet.next, m) :: (a, n') :: l') =
          Siblings.declarations mid ++ (p.sheet.next, e) :: (a, d') :: Siblings.declarations l' := by
        rw [Siblings.declarations_append, Siblings.declarations_cons hm, Siblings.declarations_cons hn']
      refine missing_eq_nil_of_subset hcut hd hcut' hd hrules hscope ?_ ?_ hnil
      · rw [hbelow, hbelow']
        exact groupAmong_subset (List.Subset.refl _) (membersBelow_copy (a, d') hbeside _ _ _)
      · rw [hbelow, hbelow']
        exact rowOf_subset (List.Subset.refl _) ((List.sublist_cons_self _ _).append_left _).subset

/-- Other white space comes before a node. -/
theorem missing_eq_nil_of_setBefore {before : Text} (hsheet : q.sheet = p.sheet.setBefore a before) :
    v.missing q decl d = [] := by
  have hs := h.numbered
  obtain ⟨_, _, _, hcut, -⟩ := h.exists_cut
  obtain ⟨_, _, _, hcut', -⟩ := (h.setBefore a before).exists_cut
  rw [← hsheet] at hcut'
  rw [missing_eq hs hcut.mem_ids, List.filter_eq_nil_iff] at hnil
  have hgrows : p.sheet.Grows Node.SameScope q.sheet := by
    rw [hsheet]
    exact Sheet.grows_modify (R := Node.SameScope) (fun _ => rfl) hs fun _ _ => rfl
  rw [missing_eq hcut'.numbered hcut'.mem_ids, hrules, hgrows.scope_eq hs hcut'.numbered hcut.mem_ids,
    List.filter_eq_nil_iff]
  intro planned hplanned
  rw [misses_setBefore h hrules hsheet]
  exact hnil planned hplanned

end

end PropertyVariants

end VendorCss
