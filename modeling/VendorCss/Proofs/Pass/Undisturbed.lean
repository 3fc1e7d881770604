import Mathlib.Data.List.TakeWhile
import VendorCss.Pass.GridAreas
import VendorCss.Proofs.Pass.Bounds
import VendorCss.Proofs.Pass.Switches
import VendorCss.Proofs.Sheet.Children
import VendorCss.Proofs.Sheet.Separation

/-!
# Edits that leave what is around alone

A run of siblings is calm under an edit if its nodes stay in it, with the same comments among them and the same ones
directly before them (`Siblings.Calm`). Blocks that come in behind another block, or at the end, also leave the beginning
of the run as it is (`Siblings.Undisturbed`).

Edits aside at a node disturb the beginning of no run but that of its children (`Sheet.Aside`). They follow each other
(`Sheet.Aside.trans`); declarations put first into a rule are such edits, and so are rules put behind a block or at the
end of one, and the cells below a rule taken out. They do not change what switches a node off, if they are calm in the
runs that lead to it (`Sheet.Aside.chain`).
-/

namespace VendorCss

open Pass

/-- A rule, an at-rule or the root. -/
def Node.IsBlock (n : Node) : Prop := n.declaration? = none ∧ n.comment? = none

theorem Node.isBlock_of_selector? {n : Node} {selector : Text} (h : n.selector? = some selector) : n.IsBlock := by
  obtain ⟨content, raws, source⟩ := n
  cases content with
  | rule => exact ⟨rfl, rfl⟩
  | _ => cases h

theorem Node.isBlock_of_atRule? {n : Node} {rule : AtRule} (h : n.atRule? = some rule) : n.IsBlock := by
  obtain ⟨content, raws, source⟩ := n
  cases content with
  | atRule => exact ⟨rfl, rfl⟩
  | _ => cases h

theorem Node.IsBlock.mapSelector {n : Node} (h : n.IsBlock) (f : Text → Text) : (n.mapSelector f).IsBlock := by
  obtain ⟨content, raws, source⟩ := n
  cases content <;> exact h

theorem Node.IsBlock.withRaws {n : Node} (h : n.IsBlock) (raws : Raws) : Node.IsBlock { n with raws } := h

/-! ## Runs of siblings -/

/-- The nodes of a run with their numbers. -/
abbrev Siblings := List (Nat × Node)

namespace Siblings

/-- A comment directly before a node of the run switches it off. -/
def ignores (l : Siblings) (i : Nat) : Bool :=
  ((l.takeWhile fun x => x.1 != i).getLast?).any fun x => x.2.comment?.any Control.ignoresNext

/-- The comments of the run. -/
def comments (l : Siblings) : List (Nat × Text) := l.filterMap fun x => x.2.comment?.map (x.1, ·)

/-- The run starts with a cell. -/
def startsWithCell (l : Siblings) : Bool :=
  l.head?.any fun x => x.2.declaration?.any fun (d : Declaration) => d.prop = "-ms-grid-row"

/-- New nodes came in, with numbers from the bound on, and none of them is a comment or comes directly behind one. -/
structure Calm (bound : Nat) (l l' : Siblings) : Prop where
  subset : l ⊆ l'
  comments : comments l' = comments l
  ignores : ∀ x ∈ l, x.1 < bound → ignores l' x.1 = ignores l x.1

/-- The new nodes are blocks, and come behind blocks or at the end. -/
structure Undisturbed (bound : Nat) (l l' : Siblings) : Prop extends Calm bound l l' where
  startsWithCell : startsWithCell l = false → startsWithCell l' = false
  /-- What begins the run without a block still begins it. -/
  beginning : ∀ xs : Siblings, (∀ x ∈ xs, ¬x.2.IsBlock) → xs <+: l → xs <+: l'

variable {bound bound' : Nat} {l l' l'' l₁ l₂ new : Siblings}

namespace Calm

theorem refl (bound : Nat) (l : Siblings) : Calm bound l l := ⟨List.Subset.refl l, rfl, fun _ _ _ => rfl⟩

theorem trans (hbound : bound ≤ bound') (h : Calm bound l l') (h' : Calm bound' l' l'') : Calm bound l l'' where
  subset := List.Subset.trans h.subset h'.subset
  comments := h'.comments.trans h.comments
  ignores x hx hlt :=
    (h'.ignores x (h.subset hx) (Nat.lt_of_lt_of_le hlt hbound)).trans (h.ignores x hx hlt)

theorem comments_insert (hnew : ∀ x ∈ new, x.2.comment? = none) :
    Siblings.comments (l₁ ++ (new ++ l₂)) = Siblings.comments (l₁ ++ l₂) := by
  have hnone : Siblings.comments new = [] := List.filterMap_eq_nil_iff.2 fun x hx => by rw [hnew x hx]; rfl
  unfold Siblings.comments at hnone ⊢
  rw [List.filterMap_append, List.filterMap_append, List.filterMap_append, hnone, List.nil_append]

theorem any_ignoresNext {x : Option (Nat × Node)} (h : ∀ y ∈ x, y.2.comment? = none) :
    (x.any fun y => y.2.comment?.any Control.ignoresNext) = false := by
  cases x with
  | none => rfl
  | some y =>
    rw [Option.any_some, h y rfl]
    rfl

/-- The node before another one is the same, or no comment before and after the edit. -/
theorem ignores_insert (hnew : ∀ x ∈ new, bound ≤ x.1 ∧ x.2.comment? = none)
    (hplace : l₂ = [] ∨ ∀ x ∈ l₁.getLast?, x.2.comment? = none) {y : Nat × Node} (hy : y ∈ l₁ ++ l₂)
    (hlt : y.1 < bound) : Siblings.ignores (l₁ ++ (new ++ l₂)) y.1 = Siblings.ignores (l₁ ++ l₂) y.1 := by
  have hpass : ∀ x ∈ new, (x.1 != y.1) = true := fun x hx => by
    have hle := (hnew x hx).1
    rw [bne_iff_ne]
    omega
  -- the part before the new nodes is cut at the node, or is left whole
  have hcut : ∀ r : Siblings, (l₁ ++ r).takeWhile (fun x => x.1 != y.1) =
      if (l₁.takeWhile fun x => x.1 != y.1).length = l₁.length then l₁ ++ r.takeWhile fun x => x.1 != y.1
      else l₁.takeWhile fun x => x.1 != y.1 := fun r => List.takeWhile_append
  unfold Siblings.ignores
  rw [hcut, hcut]
  split
  · rename_i hwhole
    have hall : ∀ x ∈ l₁, (x.1 != y.1) = true :=
      List.takeWhile_eq_self_iff.1 ((List.takeWhile_prefix fun x : Nat × Node => x.1 != y.1).eq_of_length hwhole)
    rw [List.takeWhile_append_of_pos hpass]
    rcases hplace with rfl | hlast
    · rw [List.append_nil] at hy
      exact absurd rfl (bne_iff_ne.1 (hall y hy))
    · cases hbefore : l₂.takeWhile fun x => x.1 != y.1 with
      | cons x xs => simp [List.getLast?_append, List.getLast?_cons]
      | nil =>
        rw [List.append_nil, List.append_nil, any_ignoresNext hlast, any_ignoresNext]
        intro x hx
        rw [List.getLast?_append] at hx
        rcases Option.or_eq_some_iff.1 hx with hx | ⟨-, hx⟩
        · exact (hnew x (List.mem_of_getLast? hx)).2
        · exact hlast x hx
  · rfl

theorem insert (hnew : ∀ x ∈ new, bound ≤ x.1 ∧ x.2.comment? = none)
    (hplace : l₂ = [] ∨ ∀ x ∈ l₁.getLast?, x.2.comment? = none) : Calm bound (l₁ ++ l₂) (l₁ ++ (new ++ l₂)) where
  subset x hx := by
    rcases List.mem_append.1 hx with hx | hx
    · exact List.mem_append_left _ hx
    · exact List.mem_append_right _ (List.mem_append_right _ hx)
  comments := comments_insert fun x hx => (hnew x hx).2
  ignores y hy hlt := ignores_insert hnew hplace hy hlt

end Calm

namespace Undisturbed

theorem refl (bound : Nat) (l : Siblings) : Undisturbed bound l l := ⟨.refl bound l, id, fun _ _ => id⟩

theorem trans (hbound : bound ≤ bound') (h : Undisturbed bound l l') (h' : Undisturbed bound' l' l'') :
    Undisturbed bound l l'' where
  toCalm := h.toCalm.trans hbound h'.toCalm
  startsWithCell hstart := h'.startsWithCell (h.startsWithCell hstart)
  beginning xs hxs hpre := h'.beginning xs hxs (h.beginning xs hxs hpre)

theorem insert (hnew : ∀ x ∈ new, bound ≤ x.1 ∧ x.2.IsBlock)
    (hplace : l₂ = [] ∨ ∃ x, l₁.getLast? = some x ∧ x.2.IsBlock) :
    Undisturbed bound (l₁ ++ l₂) (l₁ ++ (new ++ l₂)) where
  toCalm := by
    refine .insert (fun x hx => ⟨(hnew x hx).1, (hnew x hx).2.2⟩) (hplace.imp_right ?_)
    rintro ⟨x, hx, hblock⟩ y hy
    rw [hx] at hy
    obtain rfl := Option.some.inj hy
    exact hblock.2
  startsWithCell hstart := by
    cases l₁ with
    | cons x l₁ => exact hstart
    | nil =>
      rcases hplace with rfl | ⟨x, hx, -⟩
      · cases new with
        | nil => rfl
        | cons x new =>
          have hx := (hnew x List.mem_cons_self).2.1
          simp [Siblings.startsWithCell, hx]
      · cases hx
  beginning xs hxs hpre := by
    rcases List.prefix_or_prefix_of_prefix hpre (List.prefix_append l₁ l₂) with h | h
    · exact h.trans (List.prefix_append l₁ _)
    · rcases hplace with rfl | ⟨x, hx, hblock⟩
      · rw [List.append_nil] at hpre
        exact hpre.trans (List.prefix_append l₁ _)
      · exact absurd hblock (hxs x (h.subset (List.mem_of_getLast? hx)))

/-- Blocks at the end. -/
theorem append (hnew : ∀ x ∈ new, bound ≤ x.1 ∧ x.2.IsBlock) : Undisturbed bound l (l ++ new) := by
  have h : Undisturbed bound (l ++ []) (l ++ (new ++ [])) := insert hnew (.inl rfl)
  rwa [List.append_nil, List.append_nil] at h

/-- Blocks directly behind a block. -/
theorem insert_after {x : Nat × Node} (hnew : ∀ x ∈ new, bound ≤ x.1 ∧ x.2.IsBlock) (hx : x.2.IsBlock) :
    Undisturbed bound (l₁ ++ x :: l₂) (l₁ ++ x :: (new ++ l₂)) := by
  have h : Undisturbed bound (l₁ ++ [x] ++ l₂) (l₁ ++ [x] ++ (new ++ l₂)) :=
    insert hnew (.inr ⟨x, List.getLast?_concat, hx⟩)
  rwa [List.append_assoc, List.append_assoc] at h

end Undisturbed

end Siblings

/-! ## What a sheet tells of a run -/

namespace Sheet

open Siblings

variable {s s' s'' : Sheet} {a i q : Nat}

theorem IsNumbered.node?_of_mem_topNodes (hs : s.IsNumbered) {x : Nat × Node} (hx : x ∈ (s.kids a).topNodes) :
    s.node? x.1 = some x.2 :=
  hs.node?_eq ((s.nodes_kids_sublist a).mem (Forest.topNodes_subset_nodes _ hx))

theorem IsNumbered.mem_ids_of_mem_topNodes (hs : s.IsNumbered) {x : Nat × Node} (hx : x ∈ (s.kids a).topNodes) :
    x.1 ∈ s.ids :=
  Forest.mem_ids_of_mem_nodes (mem_nodes_of_node? (hs.node?_of_mem_topNodes hx))

theorem IsNumbered.parent?_of_mem_topNodes (hs : s.IsNumbered) {x : Nat × Node} (hx : x ∈ (s.kids a).topNodes) :
    s.parent? x.1 = some a := by
  refine hs.mem_children.1 ?_
  rw [children, ← Forest.map_fst_topNodes]
  exact List.mem_map_of_mem hx

theorem IsNumbered.mem_topNodes (hs : s.IsNumbered) (h : s.parent? i = some a) {n : Node} (hn : s.node? i = some n) :
    (i, n) ∈ (s.kids a).topNodes := by
  have hmem := hs.mem_children.2 h
  rw [children, ← Forest.map_fst_topNodes] at hmem
  obtain ⟨x, hx, rfl⟩ := List.mem_map.1 hmem
  rw [hs.node?_of_mem_topNodes hx] at hn
  rwa [← Option.some.inj hn]

theorem IsNumbered.isIgnored_eq (hs : s.IsNumbered) (h : s.parent? i = some a) :
    isIgnored s i = Siblings.ignores (s.kids a).topNodes i := by
  have htops : s.children a = (s.kids a).topNodes.map Prod.fst := (Forest.map_fst_topNodes _).symm
  rw [isIgnored, prev?, hs.siblings_of_parent? h, htops, List.takeWhile_map, List.getLast?_map, Siblings.ignores]
  simp only [Function.comp_def]
  cases hlast : ((s.kids a).topNodes.takeWhile fun x => x.1 != i).getLast? with
  | none => rfl
  | some x =>
    have hx : x ∈ (s.kids a).topNodes := (List.takeWhile_sublist _).mem (List.mem_of_getLast? hlast)
    simp [comment?, hs.node?_of_mem_topNodes hx]

theorem IsNumbered.switch?_eq (hs : s.IsNumbered) (a : Nat) :
    s.switch? a = (((Siblings.comments (s.kids a).topNodes).filter fun x => Control.isSwitch x.2).head?).map Prod.snd := by
  rw [switch?, switchIn]
  dsimp only
  have htops : s.children a = (s.kids a).topNodes.map Prod.fst := (Forest.map_fst_topNodes _).symm
  have hfound : ∀ l : Siblings, l ⊆ (s.kids a).topNodes → ((l.map Prod.fst).filterMap fun i =>
      (s.comment? i).bind fun t => if Control.isSwitch t then some (i, t) else none) =
        (Siblings.comments l).filter fun x => Control.isSwitch x.2 := by
    intro l hl
    induction l with
    | nil => rfl
    | cons x l ih =>
      obtain ⟨hx, hl⟩ := List.cons_subset.1 hl
      have hcomment : s.comment? x.1 = x.2.comment? := by rw [comment?, hs.node?_of_mem_topNodes hx]; rfl
      rw [List.map_cons, List.filterMap_cons, ih hl, hcomment, Siblings.comments, Siblings.comments,
        List.filterMap_cons]
      cases x.2.comment? with
      | none => rfl
      | some t => by_cases ht : Control.isSwitch t <;> simp [ht]
  rw [htops, hfound _ (List.Subset.refl _)]

theorem IsNumbered.startsWithCell_eq (hs : s.IsNumbered) (item : AreaItem) :
    Pass.startsWithCell s item = Siblings.startsWithCell (s.kids item.rule).topNodes := by
  rw [Pass.startsWithCell, firstChild?, children, ← Forest.map_fst_topNodes, List.head?_map, Siblings.startsWithCell]
  cases hhead : (s.kids item.rule).topNodes.head? with
  | none => rfl
  | some x => simp [declaration?, hs.node?_of_mem_topNodes (List.mem_of_head? hhead)]

/-! ## Edits aside -/

/-- An old number, whose node is a block if it is there. -/
def IsBlock (s : Sheet) (i : Nat) : Prop := i < s.next ∧ ∀ n, s.node? i = some n → n.IsBlock

theorem IsBlock.ages (h : s.IsBlock i) (hages : s.Ages s') : s'.IsBlock i :=
  ⟨Nat.lt_of_lt_of_le h.1 hages.next_le, fun n hn => h.2 n (hages.old i h.1 n hn).1⟩

/-- What edits at a rule leave alone: the runs of some nodes are calm, and the beginning of a run changes only where the
run is that of the rule, or lies below what is not kept and has lost its cells. -/
structure Aside (kept : Nat → Prop) (q : Nat) (s s' : Sheet) : Prop extends s.Ages s' where
  calm : ∀ a < s.next, kept a → Calm s.next (s.kids a).topNodes (s'.kids a).topNodes
  undisturbed : ∀ a < s.next, kept a → a ≠ q → Undisturbed s.next (s.kids a).topNodes (s'.kids a).topNodes
  startsWithCell : ∀ a < s.next, a ≠ q → Siblings.startsWithCell (s.kids a).topNodes = false →
    Siblings.startsWithCell (s'.kids a).topNodes = false

theorem Ages.notMem_ancestors (h : s.Ages s') (hs : s.IsNumbered) (ha : a < s.next) (hq : q ∉ s.ancestors a) :
    q ∉ s'.ancestors a := by
  by_cases hmem : a ∈ s'.ids
  · rwa [h.ancestors_eq hs hmem ha]
  · rw [ancestors_of_notMem hmem]
    exact List.not_mem_nil

namespace Aside

variable {kept : Nat → Prop}

theorem refl (hs : s.IsNumbered) (kept : Nat → Prop) (q : Nat) : Aside kept q s s :=
  ⟨.refl hs, fun _ _ _ => .refl _ _, fun _ _ _ _ => .refl _ _, fun _ _ _ => id⟩

theorem trans (h : Aside kept q s s') (h' : Aside kept q s' s'') : Aside kept q s s'' where
  toAges := h.toAges.trans h'.toAges
  calm a ha hkept := (h.calm a ha hkept).trans h.next_le (h'.calm a (Nat.lt_of_lt_of_le ha h.next_le) hkept)
  undisturbed a ha hkept hne :=
    (h.undisturbed a ha hkept hne).trans h.next_le (h'.undisturbed a (Nat.lt_of_lt_of_le ha h.next_le) hkept hne)
  startsWithCell a ha hne hstart :=
    h'.startsWithCell a (Nat.lt_of_lt_of_le ha h.next_le) hne (h.startsWithCell a ha hne hstart)

/-- Edits that disturb no run. -/
theorem of_undisturbed (h : s.Ages s')
    (hkids : ∀ a < s.next, Undisturbed s.next (s.kids a).topNodes (s'.kids a).topNodes) : Aside kept q s s' where
  toAges := h
  calm a ha _ := (hkids a ha).toCalm
  undisturbed a ha _ _ := hkids a ha
  startsWithCell a ha _ := (hkids a ha).startsWithCell

/-- A declaration put first into a rule. -/
theorem prepend (hs : s.IsNumbered) (kept : Nat → Prop) (q : Nat) {n : Node} (hn : n.comment? = none) :
    Aside kept q s (s.insert (.prepended q) n).2 := by
  have hnew := s.isFresh_tree n
  have hothers : ∀ a < s.next, a ≠ q →
      ((s.insert (.prepended q) n).2.kids a).topNodes = (s.kids a).topNodes := fun a ha hne => by
    have hkids := topNodes_kids_prepended hs hnew ha hne
    rwa [insert]
  refine ⟨.splice hs hnew _, fun a ha _ => ?_, fun a ha _ hne => ?_, fun a ha hne => ?_⟩
  · by_cases hne : a = q
    · subst hne
      by_cases hmem : a ∈ s.ids
      · have hkids := hs.topNodes_kids_prepended_self hmem (.tree s.next n .nil) (s.next + 1)
        have hfirst : Calm s.next ([] ++ (s.kids a).topNodes) ([] ++ ([(s.next, n)] ++ (s.kids a).topNodes)) := by
          refine .insert (fun x hx => ?_) (.inr fun _ hx => absurd hx (Option.not_mem_none _))
          obtain rfl := List.mem_singleton.1 hx
          exact ⟨Nat.le_refl _, hn⟩
        rw [insert, hkids]
        exact hfirst
      · -- nothing is put into a rule that is not there
        have hnone : (s.kids a).topNodes = [] := by rw [kids, find?_eq, Forest.find?_eq_none hmem]; rfl
        rw [hnone]
        refine ⟨List.nil_subset _, ?_, fun x hx => absurd hx List.not_mem_nil⟩
        have hgone : a ∉ (s.insert (.prepended a) n).2.ids := fun hin => by
          rcases mem_ids_splice hin with hin | hin
          · exact hmem hin
          · exact Nat.lt_irrefl _ (Nat.lt_of_lt_of_le ha (hnew.le a hin))
        rw [kids, find?_eq, Forest.find?_eq_none hgone]
        rfl
    · rw [hothers a ha hne]
      exact .refl _ _
  · rw [hothers a ha hne]
    exact .refl _ _
  · rw [hothers a ha hne]
    exact id

section

variable {n : Node} (hs : s.IsNumbered) (hn : n.IsBlock) (kids : List Node)

include hn in
theorem isBlock_of_mem {x : Nat × Node} (hx : x ∈ (Forest.tree s.next n (leaves (s.next + 1) kids)).topNodes) :
    s.next ≤ x.1 ∧ x.2.IsBlock := by
  obtain rfl : x = (s.next, n) := List.mem_singleton.1 hx
  exact ⟨Nat.le_refl _, hn⟩

include hs hn

/-- A block that comes in behind a block disturbs no run. -/
theorem undisturbed_after {last : Nat} (hlast : s.IsBlock last) (ha : a < s.next) :
    Undisturbed s.next (s.kids a).topNodes ((s.insertBlock (.after last) n kids).2.kids a).topNodes := by
  have hnew := s.isFresh_block n kids
  rw [insertBlock]
  rcases topNodes_kids_after hs hnew ha (a := last) with hsame | ⟨l, m, l', hold, hkids⟩
  · rw [hsame]
    exact .refl _ _
  · rw [hkids, hold]
    have hmem : (last, m) ∈ (s.kids a).topNodes := by rw [hold]; simp
    have hm : s.node? last = some m := hs.node?_of_mem_topNodes hmem
    exact .insert_after (fun x hx => isBlock_of_mem hn kids hx) (hlast.2 m hm)

/-- A block with leaves in it, directly behind a block. -/
theorem insertBlock_after {last : Nat} (hlast : s.IsBlock last) :
    Aside kept q s (s.insertBlock (.after last) n kids).2 :=
  .of_undisturbed (.splice hs (s.isFresh_block n kids) _) fun _ ha => undisturbed_after hs hn kids hlast ha

/-- A block with leaves in it, at the end of what another node holds. -/
theorem insertBlock_appended (parent : Nat) : Aside kept q s (s.insertBlock (.appended parent) n kids).2 := by
  have hnew := s.isFresh_block n kids
  refine .of_undisturbed (.splice hs hnew _) fun a ha => ?_
  rw [insertBlock]
  rcases topNodes_kids_appended hs hnew ha (a := parent) with hsame | hkids
  · rw [hsame]
    exact .refl _ _
  · rw [hkids]
    exact .append fun x hx => isBlock_of_mem hn kids hx

/-- The new block is one wherever it was put. -/
theorem isBlock_insertBlock (place : Place) : (s.insertBlock place n kids).2.IsBlock s.next := by
  refine ⟨by rw [insertBlock]; dsimp only; omega, fun m hm => ?_⟩
  rcases mem_nodes_splice (mem_nodes_of_node? hm) with hold | hnew
  · exact absurd (hs.lt_next _ (Forest.mem_ids_of_mem_nodes hold)) (Nat.lt_irrefl _)
  · rw [Forest.tree, Forest.nodes, Forest.nodes, List.append_nil] at hnew
    rcases List.mem_cons.1 hnew with heq | hleaf
    · obtain rfl : m = n := congrArg Prod.snd heq
      exact hn
    · have hmem := Forest.mem_ids_of_mem_nodes hleaf
      rw [ids_leaves, List.mem_range'_1] at hmem
      exact absurd hmem.1 (Nat.not_succ_le_self _)

end

/-- Nodes below a rule taken out, all cells that begin a run there among them. -/
theorem foldl_remove (hs : s.IsNumbered) {is : List Nat} (hbelow : ∀ i ∈ is, q ∈ s.ancestors i)
    (hcells : ∀ i d, q ∈ s.ancestors i → s.declaration? i = some d → d.prop = "-ms-grid-row" → i ∈ is ∧ i ≠ rootId)
    (hkept : ∀ a < s.next, kept a → a ≠ q ∧ q ∉ s.ancestors a) : Aside kept q s (is.foldl remove s) := by
  have hshrinks := shrinks_foldl_remove s is
  have hages : s.Ages (is.foldl remove s) := .of_shrinks hs hshrinks
  -- what does not stand below the rule is still there, and so are its children
  have hstays : ∀ i ∈ s.ids, q ∉ s.ancestors i → i ∈ (is.foldl remove s).ids := by
    intro i hi hq
    rcases hs.mem_ids_foldl_remove hi is with hleft | ⟨x, hx, rfl | hgone⟩
    · exact hleft
    · exact absurd (hbelow i hx) hq
    · exact absurd (hs.mem_ancestors_trans (hbelow x hx) hgone) hq
  have hsame : ∀ a, a ≠ q → q ∉ s.ancestors a → ((is.foldl remove s).kids a).topNodes = (s.kids a).topNodes := by
    intro a hne hq
    by_cases ha : a ∈ s.ids
    · rw [hshrinks.topNodes_kids hs (hstays a ha hq), List.filter_eq_self]
      intro x hx
      have habove := hs.ancestors_of_parent? (hs.parent?_of_mem_topNodes hx)
      have hnot : q ∉ s.ancestors x.1 := by
        rw [habove, List.mem_cons]
        rintro (rfl | hmem)
        · exact hne rfl
        · exact hq hmem
      exact decide_eq_true (hstays x.1 (hs.mem_ids_of_mem_topNodes hx) hnot)
    · have hnot : a ∉ (is.foldl remove s).ids := fun hmem => ha (hshrinks.whole.ids_sublist.mem hmem)
      rw [kids, kids, find?_eq, find?_eq, Forest.find?_eq_none ha, Forest.find?_eq_none hnot]
  refine ⟨hages, fun a hlt ha => ?_, fun a hlt ha _ => ?_, fun a ha hne hstart => ?_⟩
  · rw [hsame a (hkept a hlt ha).1 (hkept a hlt ha).2]
    exact .refl _ _
  · rw [hsame a (hkept a hlt ha).1 (hkept a hlt ha).2]
    exact .refl _ _
  · by_cases hq : q ∈ s.ancestors a
    · -- all cells that could begin the run are gone
      cases hhead : ((is.foldl remove s).kids a).topNodes.head? with
      | none => rw [Siblings.startsWithCell, hhead]; rfl
      | some x =>
        have hx := List.mem_of_head? hhead
        have hlive := hages.numbered.mem_ids_of_mem_topNodes hx
        have hlt : x.1 < s.next := hs.lt_next _ (hshrinks.whole.ids_sublist.mem hlive)
        obtain ⟨hnode, hparent⟩ := hages.old x.1 hlt x.2 (hages.numbered.node?_of_mem_topNodes hx)
        rw [hages.numbered.parent?_of_mem_topNodes hx] at hparent
        have hbelow : q ∈ s.ancestors x.1 := by
          rw [hs.ancestors_of_parent? hparent.symm]
          exact List.mem_cons_of_mem _ hq
        rw [Siblings.startsWithCell, hhead, Option.any_some, Option.any_eq_false]
        intro d hd
        refine decide_eq_false fun hprop => ?_
        have hdecl : s.declaration? x.1 = some d := by rw [declaration?, hnode]; exact hd
        obtain ⟨hmem, hroot⟩ := hcells x.1 d hbelow hdecl hprop
        exact hs.notMem_ids_foldl_remove hmem hroot hlive
    · rw [hsame a hne hq]
      exact hstart

/-! ### The chain above a node -/

section

variable (h : Aside kept q s s') (hs : s.IsNumbered)

include h hs

/-- A child of a node that is kept stays among its children. -/
theorem node?_of_kept {n : Node} (ha : kept a) (hparent : s.parent? i = some a) (hn : s.node? i = some n) :
    s'.node? i = some n := by
  have hlt : a < s.next := hs.lt_next a (mem_ids_of_mem_ancestors (by rw [hs.ancestors_of_parent? hparent]; simp))
  exact h.numbered.node?_of_mem_topNodes ((h.calm a hlt ha).subset (hs.mem_topNodes hparent hn))

theorem ignores_eq {m : Node} (hlive : s'.node? i = some m) (hlt : i < s.next)
    (hkept : ∀ a ∈ s.ancestors i, kept a) : s'.ignores i = s.ignores i := by
  obtain ⟨hm, hparent⟩ := h.old i hlt m hlive
  rw [ignores, ignores, hparent]
  cases hcase : s.parent? i with
  | none => rfl
  | some a =>
    have habove := hs.ancestors_of_parent? hcase
    have ha : a ∈ s.ancestors i := by
      rw [habove]
      exact List.mem_cons_self
    have hcalm := h.calm a (hs.lt_next a (mem_ids_of_mem_ancestors ha)) (hkept a ha)
    rw [hs.isIgnored_eq hcase, h.numbered.isIgnored_eq (hparent.trans hcase),
      hcalm.ignores _ (hs.mem_topNodes hcase hm) hlt]

theorem switch?_eq (hlt : i < s.next) (hkept : kept i) : s'.switch? i = s.switch? i := by
  rw [hs.switch?_eq, h.numbered.switch?_eq, (h.calm i hlt hkept).comments]

/-- A node with a parent stands where it stood, and is switched off by the same comments, if the chain above is kept. -/
theorem chain {r : Nat} (hparent : s.parent? i = some r) (hkept : ∀ c ∈ i :: s.ancestors i, kept c) :
    i ∈ s'.ids ∧ s'.ancestors i = s.ancestors i ∧
      ∀ c ∈ i :: s.ancestors i, s'.ignores c = s.ignores c ∧ s'.switch? c = s.switch? c := by
  have hr : r ∈ i :: s.ancestors i := by
    rw [hs.ancestors_of_parent? hparent]
    simp
  have hi : i ∈ s.ids := Forest.mem_ids_of_ancestors? (exists_ancestors hparent).choose_spec.2
  obtain ⟨n, hn⟩ := exists_node? hi
  have hi' : i ∈ s'.ids :=
    Forest.mem_ids_of_mem_nodes (mem_nodes_of_node? (h.node?_of_kept hs (hkept r hr) hparent hn))
  have hancestors := h.ancestors_eq hs hi' (hs.lt_next i hi)
  refine ⟨hi', hancestors, fun c hc => ?_⟩
  have hlive : c ∈ s.ids ∧ c ∈ s'.ids := by
    rcases List.mem_cons.1 hc with rfl | hc
    · exact ⟨hi, hi'⟩
    · exact ⟨mem_ids_of_mem_ancestors hc, mem_ids_of_mem_ancestors (hancestors ▸ hc)⟩
  obtain ⟨m, hm⟩ := exists_node? hlive.2
  have hlt := hs.lt_next c hlive.1
  refine ⟨h.ignores_eq hs hm hlt fun a ha => hkept a ?_, h.switch?_eq hs hlt (hkept c hc)⟩
  rcases List.mem_cons.1 hc with rfl | hc
  · exact List.mem_cons_of_mem _ ha
  · exact List.mem_cons_of_mem _ (hs.mem_ancestors_trans ha hc)

end

end Aside

end Sheet

end VendorCss
