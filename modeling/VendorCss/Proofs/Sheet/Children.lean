import VendorCss.Proofs.Sheet.Edits
import VendorCss.Proofs.Sheet.Neighbours

/-!
# The children of a node after an edit

An edit at one node leaves the children of almost every other node alone. What is put before the children of a node is
seen there only (`topNodes_kids_prepended`); what is put beside a sibling, or after the children of a node, comes in at
one place of one run (`topNodes_kids_before`, `topNodes_kids_after`, `topNodes_kids_appended`); and what is taken out goes
from the run that it stood in (`Shrinks.topNodes_kids`).

Old nodes that are still there are what they were and stand where they stood (`Ages`), so what is above them is the same
as well (`Ages.ancestors_eq`).
-/

namespace VendorCss

namespace Forest

variable {id q : Nat} {f g new : Forest} {edit : Forest → Forest}

/-! ## Looking up in an edited forest -/

theorem editsAt_appendTo (id : Nat) (new : Forest) : EditsAt id (appendTo id new) where
  nil := rfl
  here := fun n k r r' => by rw [appendTo, appendTo, if_pos rfl, if_pos rfl, cons_append]
  there := fun i n k r hi => by rw [appendTo, if_neg hi]

theorem editsAt_prependTo (id : Nat) (new : Forest) : EditsAt id (prependTo id new) where
  nil := rfl
  here := fun n k r r' => by rw [prependTo, prependTo, if_pos rfl, if_pos rfl, cons_append]
  there := fun i n k r hi => by rw [prependTo, if_neg hi]

namespace EditsAt

/-- Another node is found with its children edited, if the edit does not move it. -/
theorem find?_of_ne (h : EditsAt id edit) (hnodup : f.ids.Nodup) (hne : q ≠ id)
    (hhere : ∀ n k r, (edit (cons id n k r)).find? q = (cons id n k r).find? q) :
    (edit f).find? q = (f.find? q).map fun x => (x.1, edit x.2) := by
  induction f with
  | nil => rw [h.nil]; rfl
  | cons i n k r ihk ihr =>
    obtain ⟨hik, hir, hk, hr, -⟩ := nodup_cons hnodup
    by_cases hi : i = id
    · subst hi
      rw [hhere]
      -- what is found stands where the edit finds nothing
      have hsame : ∀ x, (cons i n k r).find? q = some x → edit x.2 = x.2 := by
        intro x hx
        rw [find?, if_neg (Ne.symm hne)] at hx
        refine h.of_notMem fun hmem => ?_
        rcases Option.or_eq_some_iff.1 hx with hx | ⟨-, hx⟩
        · exact hik ((ids_sublist_of_find? hx).mem hmem)
        · exact hir ((ids_sublist_of_find? hx).mem hmem)
      cases hfind : (cons i n k r).find? q with
      | none => rfl
      | some x => rw [Option.map_some, hsame x hfind]
    · rw [h.there i n k r hi, find?, find?]
      split
      · rfl
      · rw [ihk hk, ihr hr, Option.map_or]

/-- The node of the edit is found with what the edit makes of its children. -/
theorem find?_self (h : EditsAt id edit) (change : Forest → Forest)
    (hhere : ∀ n k r, (edit (cons id n k r)).find? id = some (n, change k)) :
    (edit f).find? id = (f.find? id).map fun x => (x.1, change x.2) := by
  induction f with
  | nil => rw [h.nil]; rfl
  | cons i n k r ihk ihr =>
    by_cases hi : i = id
    · subst hi
      rw [hhere, find?, if_pos rfl]
      rfl
    · rw [h.there i n k r hi, find?, find?, if_neg hi, if_neg hi, ihk, ihr, Option.map_or]

end EditsAt

/-- A node does not stand below itself. -/
theorem notMem_kids_of_find? (hnodup : f.ids.Nodup) {x : Node × Forest} (h : f.find? q = some x) : q ∉ x.2.ids :=
  (List.nodup_cons.1 (List.nodup_append.1 ((ids_perm_erase hnodup h).nodup_iff.1 hnodup)).1).1

theorem find?_insertAfter (id : Nat) (hnodup : f.ids.Nodup) (hq : q ∉ new.ids) :
    (insertAfter id new f).find? q = (f.find? q).map fun x => (x.1, insertAfter id new x.2) := by
  have hat := editsAt_insertAfter id new
  by_cases hne : q = id
  · subst hne
    have hself : (insertAfter q new f).find? q = (f.find? q).map fun x => (x.1, x.2) :=
      hat.find?_self (fun k => k) fun n k r => by rw [insertAfter, if_pos rfl, find?, if_pos rfl]
    rw [hself]
    cases hfind : f.find? q with
    | none => rfl
    | some x => rw [Option.map_some, Option.map_some, hat.of_notMem (notMem_kids_of_find? hnodup hfind)]
  · refine hat.find?_of_ne hnodup hne fun n k r => ?_
    rw [insertAfter, if_pos rfl, find?, find?, find?_append, find?_eq_none hq, Option.none_or]

theorem find?_insertBefore (id : Nat) (hnodup : f.ids.Nodup) (hq : q ∉ new.ids) :
    (insertBefore id new f).find? q = (f.find? q).map fun x => (x.1, insertBefore id new x.2) := by
  have hat := editsAt_insertBefore id new
  by_cases hne : q = id
  · subst hne
    have hself : (insertBefore q new f).find? q = (f.find? q).map fun x => (x.1, x.2) :=
      hat.find?_self (fun k => k) fun n k r => by
        rw [insertBefore, if_pos rfl, find?_append, find?_eq_none hq, Option.none_or, find?, if_pos rfl]
    rw [hself]
    cases hfind : f.find? q with
    | none => rfl
    | some x => rw [Option.map_some, Option.map_some, hat.of_notMem (notMem_kids_of_find? hnodup hfind)]
  · refine hat.find?_of_ne hnodup hne fun n k r => ?_
    rw [insertBefore, if_pos rfl, find?_append, find?_eq_none hq, Option.none_or]

theorem find?_appendTo_of_ne (hnodup : f.ids.Nodup) (hq : q ∉ new.ids) (hne : q ≠ id) :
    (appendTo id new f).find? q = (f.find? q).map fun x => (x.1, appendTo id new x.2) := by
  refine (editsAt_appendTo id new).find?_of_ne hnodup hne fun n k r => ?_
  rw [appendTo, if_pos rfl, find?, find?, if_neg (Ne.symm hne), if_neg (Ne.symm hne), find?_append, find?_eq_none hq,
    Option.or_none]

theorem find?_appendTo_self : (appendTo id new f).find? id = (f.find? id).map fun x => (x.1, x.2 ++ new) :=
  (editsAt_appendTo id new).find?_self (fun k => k ++ new) fun n k r => by
    rw [appendTo, if_pos rfl, find?, if_pos rfl]

theorem find?_prependTo_of_ne (hnodup : f.ids.Nodup) (hq : q ∉ new.ids) (hne : q ≠ id) :
    (prependTo id new f).find? q = (f.find? q).map fun x => (x.1, prependTo id new x.2) := by
  refine (editsAt_prependTo id new).find?_of_ne hnodup hne fun n k r => ?_
  rw [prependTo, if_pos rfl, find?, find?, if_neg (Ne.symm hne), if_neg (Ne.symm hne), find?_append, find?_eq_none hq,
    Option.none_or]

theorem find?_prependTo_self : (prependTo id new f).find? id = (f.find? id).map fun x => (x.1, new ++ x.2) :=
  (editsAt_prependTo id new).find?_self (fun k => new ++ k) fun n k r => by
    rw [prependTo, if_pos rfl, find?, if_pos rfl]

/-! ## The run itself -/

theorem topNodes_appendTo (id : Nat) (new f : Forest) : (appendTo id new f).topNodes = f.topNodes := by
  induction f with
  | nil => rfl
  | cons i n k r _ ih =>
    rw [appendTo]
    split
    · rfl
    · rw [topNodes, topNodes, ih]

theorem topNodes_prependTo (id : Nat) (new f : Forest) : (prependTo id new f).topNodes = f.topNodes := by
  induction f with
  | nil => rfl
  | cons i n k r _ ih =>
    rw [prependTo]
    split
    · rfl
    · rw [topNodes, topNodes, ih]

/-- What is put after a node comes in directly behind it, if the node stands in the run. -/
theorem topNodes_insertAfter (id : Nat) (new f : Forest) : (insertAfter id new f).topNodes = f.topNodes ∨
    ∃ l n l', f.topNodes = l ++ (id, n) :: l' ∧ (insertAfter id new f).topNodes = l ++ (id, n) :: (new.topNodes ++ l')
    := by
  induction f with
  | nil => exact .inl rfl
  | cons i n k r _ ih =>
    rw [insertAfter]
    split
    · rename_i hi
      subst hi
      exact .inr ⟨[], n, r.topNodes, rfl, by rw [topNodes, topNodes_append]; rfl⟩
    · rcases ih with ih | ⟨l, m, l', hold, hnew⟩
      · exact .inl (by rw [topNodes, topNodes, ih])
      · exact .inr ⟨(i, n) :: l, m, l', by rw [topNodes, hold]; rfl, by rw [topNodes, hnew]; rfl⟩

/-- What is put before a node comes in directly before it, if the node stands in the run. -/
theorem topNodes_insertBefore (id : Nat) (new f : Forest) : (insertBefore id new f).topNodes = f.topNodes ∨
    ∃ l n l', f.topNodes = l ++ (id, n) :: l' ∧
      (insertBefore id new f).topNodes = l ++ (new.topNodes ++ (id, n) :: l') := by
  induction f with
  | nil => exact .inl rfl
  | cons i n k r _ ih =>
    rw [insertBefore]
    split
    · rename_i hi
      subst hi
      exact .inr ⟨[], n, r.topNodes, rfl, topNodes_append _ _⟩
    · rcases ih with ih | ⟨l, m, l', hold, hnew⟩
      · exact .inl (by rw [topNodes, topNodes, ih])
      · exact .inr ⟨(i, n) :: l, m, l', by rw [topNodes, hold]; rfl, by rw [topNodes, hnew]; rfl⟩

/-- The nodes of the smaller run are those of the larger one that are not extra. -/
theorem Embeds.topNodes_filter {extra : Nat → Prop} (hfg : Embeds (fun _ => Eq) extra f g) {old : Nat → Bool}
    (hold : ∀ j, extra j → old j = false) (hf : ∀ j ∈ f.ids, old j = true) :
    (g.topNodes.filter fun x => old x.1) = f.topNodes := by
  induction hfg with
  | nil => rfl
  | @keep i n n' k k' r r' hn _ _ _ ihr =>
    simp only [ids, List.mem_cons, List.mem_append] at hf
    have hi : old i = true := hf i (.inl rfl)
    have hkeep : (old (i, n').1) = true := hi
    rw [topNodes, topNodes, List.filter_cons, if_pos hkeep, ihr fun j hj => hf j (.inr (.inr hj)), hn]
  | @skip i n f k r hi _ _ ih =>
    have hdrop : ¬old (i, n).1 = true := by simp [hold i hi]
    rw [topNodes, List.filter_cons, if_neg hdrop, ih hf]

end Forest

namespace Sheet

variable {s s' s'' : Sheet} {a i q next : Nat} {new : Forest} {place : Place}

theorem exists_find? (h : i ∈ s.ids) : ∃ n k, s.find? i = some (n, k) := by
  obtain ⟨x, hx⟩ := Option.isSome_iff_exists.1 (Forest.find?_isSome h)
  exact ⟨x.1, x.2, (s.find?_eq i).trans hx⟩

theorem exists_node? (h : i ∈ s.ids) : ∃ n, s.node? i = some n := by
  obtain ⟨n, k, hfind⟩ := exists_find? h
  exact ⟨n, by rw [node?, hfind]; rfl⟩

/-- What is above a node is above all that stands below it. -/
theorem IsNumbered.ancestors_of_mem (hs : s.IsNumbered) (h : a ∈ s.ancestors i) :
    ∃ between, s.ancestors i = between ++ a :: s.ancestors a := by
  have hbelow : i ∈ (s.kids a).ids := hs.mem_descendants.2 h
  obtain ⟨between, hbetween⟩ := Option.isSome_iff_exists.1 (Forest.ancestors?_isSome hbelow)
  exact ⟨between, hs.ancestors_of_mem_kids hbetween⟩

theorem IsNumbered.mem_ancestors_trans (hs : s.IsNumbered) (hq : q ∈ s.ancestors a) (h : a ∈ s.ancestors i) :
    q ∈ s.ancestors i := by
  obtain ⟨between, hbetween⟩ := hs.ancestors_of_mem h
  rw [hbetween]
  exact List.mem_append_right _ (List.mem_cons_of_mem _ hq)

/-! ## What is put somewhere -/

theorem Place.editsAt (place : Place) (new : Forest) : Forest.EditsAt place.anchor (place.splice new) := by
  cases place with
  | before a => exact Forest.editsAt_insertBefore a new
  | after a => exact Forest.editsAt_insertAfter a new
  | appended a => exact Forest.editsAt_appendTo a new
  | prepended a => exact Forest.editsAt_prependTo a new

/-- All runs together are edited as each of them is. -/
theorem IsNumbered.find?_splice (hs : s.IsNumbered) (place : Place) (new : Forest) (next q : Nat) :
    Sheet.find? { s.splice place new with next } q = (place.splice new s.whole).find? q := by
  rw [find?_eq, Sheet.whole, Sheet.splice, joinRuns_map (place.editsAt new) hs.nodup]
  rfl

/-- The children of a node, where a lookup in the edited sheet gives the old ones changed. -/
theorem topNodes_kids_of_find? {change : Forest → Forest}
    (h : s'.find? q = (s.find? q).map fun x => (x.1, change x.2)) (hnil : (change .nil).topNodes = []) :
    (s'.kids q).topNodes = (change (s.kids q)).topNodes := by
  rw [kids, kids, h]
  cases s.find? q with
  | none => exact hnil.symm
  | some x => rfl

section

variable (hs : s.IsNumbered) (hnew : s.IsFresh new next) (hq : q < s.next)

include hs hnew hq

theorem notMem_of_isFresh : q ∉ new.ids ∧ s.ids.Nodup :=
  ⟨fun hmem => Nat.not_lt_of_le (hnew.le q hmem) hq, hs.nodup⟩

theorem topNodes_kids_prepended (hne : q ≠ a) :
    (Sheet.kids { s.splice (.prepended a) new with next } q).topNodes = (s.kids q).topNodes := by
  obtain ⟨hnot, hnodup⟩ := notMem_of_isFresh hs hnew hq
  have hfind := Forest.find?_prependTo_of_ne hnodup hnot hne
  rw [← find?_eq] at hfind
  rw [topNodes_kids_of_find? ((hs.find?_splice _ _ _ _).trans hfind) rfl, Forest.topNodes_prependTo]

/-- What comes after a node stands directly behind it; no other run is changed. -/
theorem topNodes_kids_after : (Sheet.kids { s.splice (.after a) new with next } q).topNodes = (s.kids q).topNodes ∨
    ∃ l n l', (s.kids q).topNodes = l ++ (a, n) :: l' ∧
      (Sheet.kids { s.splice (.after a) new with next } q).topNodes = l ++ (a, n) :: (new.topNodes ++ l') := by
  obtain ⟨hnot, hnodup⟩ := notMem_of_isFresh hs hnew hq
  have hfind := Forest.find?_insertAfter a hnodup hnot
  rw [← find?_eq] at hfind
  rw [topNodes_kids_of_find? ((hs.find?_splice _ _ _ _).trans hfind) rfl]
  exact Forest.topNodes_insertAfter a new (s.kids q)

/-- What comes before a node stands directly before it; no other run is changed. -/
theorem topNodes_kids_before : (Sheet.kids { s.splice (.before a) new with next } q).topNodes = (s.kids q).topNodes ∨
    ∃ l n l', (s.kids q).topNodes = l ++ (a, n) :: l' ∧
      (Sheet.kids { s.splice (.before a) new with next } q).topNodes = l ++ (new.topNodes ++ (a, n) :: l') := by
  obtain ⟨hnot, hnodup⟩ := notMem_of_isFresh hs hnew hq
  have hfind := Forest.find?_insertBefore a hnodup hnot
  rw [← find?_eq] at hfind
  rw [topNodes_kids_of_find? ((hs.find?_splice _ _ _ _).trans hfind) rfl]
  exact Forest.topNodes_insertBefore a new (s.kids q)

/-- What is appended to a node stands behind its children; no other run is changed. -/
theorem topNodes_kids_appended :
    (Sheet.kids { s.splice (.appended a) new with next } q).topNodes = (s.kids q).topNodes ∨
      (Sheet.kids { s.splice (.appended a) new with next } q).topNodes = (s.kids q).topNodes ++ new.topNodes := by
  obtain ⟨hnot, hnodup⟩ := notMem_of_isFresh hs hnew hq
  by_cases hne : q = a
  · subst hne
    have hfind : Sheet.find? { s.splice (.appended q) new with next } q =
        (s.find? q).map fun x => (x.1, x.2 ++ new) := by
      rw [hs.find?_splice, find?_eq]
      exact Forest.find?_appendTo_self
    cases hold : s.find? q with
    | none =>
      rw [hold] at hfind
      exact .inl (by rw [kids, kids, hfind, hold]; rfl)
    | some x =>
      rw [hold] at hfind
      exact .inr (by rw [kids, kids, hfind, hold]; exact Forest.topNodes_append _ _)
  · have hfind := Forest.find?_appendTo_of_ne hnodup hnot hne
    rw [← find?_eq] at hfind
    refine .inl ?_
    rw [topNodes_kids_of_find? ((hs.find?_splice _ _ _ _).trans hfind) rfl, Forest.topNodes_appendTo]

end

/-- What is prepended to a node stands before its children. -/
theorem IsNumbered.topNodes_kids_prepended_self (hs : s.IsNumbered) (ha : a ∈ s.ids) (new : Forest) (next : Nat) :
    (Sheet.kids { s.splice (.prepended a) new with next } a).topNodes = new.topNodes ++ (s.kids a).topNodes := by
  have hfind : Sheet.find? { s.splice (.prepended a) new with next } a =
      (s.find? a).map fun x => (x.1, new ++ x.2) := by
    rw [hs.find?_splice, find?_eq]
    exact Forest.find?_prependTo_self
  obtain ⟨n, k, hold⟩ := exists_find? ha
  rw [hold] at hfind
  rw [kids, kids, hfind, hold]
  exact Forest.topNodes_append _ _

/-! ## Old nodes -/

/-- Old nodes that are still there are what they were, and stand where they stood. -/
structure Ages (s s' : Sheet) : Prop where
  numbered : s'.IsNumbered
  next_le : s.next ≤ s'.next
  old : ∀ i < s.next, ∀ n, s'.node? i = some n → s.node? i = some n ∧ s'.parent? i = s.parent? i

namespace Ages

theorem refl (hs : s.IsNumbered) : s.Ages s := ⟨hs, Nat.le_refl _, fun _ _ _ hn => ⟨hn, rfl⟩⟩

theorem trans (h : s.Ages s') (h' : s'.Ages s'') : s.Ages s'' where
  numbered := h'.numbered
  next_le := Nat.le_trans h.next_le h'.next_le
  old i hi n hn := by
    obtain ⟨hn', hparent'⟩ := h'.old i (Nat.lt_of_lt_of_le hi h.next_le) n hn
    obtain ⟨hn'', hparent⟩ := h.old i hi n hn'
    exact ⟨hn'', hparent'.trans hparent⟩

theorem splice (hs : s.IsNumbered) (hnew : s.IsFresh new next) (place : Place) :
    s.Ages { s.splice place new with next } where
  numbered := hs.splice hnew place
  next_le := hnew.next_le
  old i hi n hn := by
    have hgrows : s.Grows Eq { s.splice place new with next } := grows_splice (fun _ => rfl) hnew place
    rw [node?_splice hnew hi place] at hn
    exact ⟨hn, hgrows.parent?_eq hi⟩

theorem of_shrinks (hs : s.IsNumbered) (h : s.Shrinks (fun _ => Eq) s') : s.Ages s' where
  numbered := h.isNumbered hs
  next_le := Nat.le_of_eq h.next_eq.symm
  old i _ n hn := by
    obtain ⟨hparent, m, hm, rfl⟩ := h.node?_rel hs hn
    exact ⟨hm, hparent⟩

/-- What is above an old node that is still there is what was above it. -/
theorem ancestors_eq (h : s.Ages s') (hs : s.IsNumbered) (hi : i ∈ s'.ids) (hold : i < s.next) :
    s'.ancestors i = s.ancestors i := by
  obtain ⟨n, hn⟩ := exists_node? hi
  have hparent := (h.old i hold n hn).2
  clear hn
  -- upwards from the node
  generalize hlength : (s'.ancestors i).length = l
  induction l generalizing i with
  | zero =>
    have hnone : s'.parent? i = none := by
      rw [parent?_eq_head?, List.length_eq_zero_iff.1 hlength]
      rfl
    rw [ancestors_eq_nil hnone, ancestors_eq_nil (hparent.symm.trans hnone)]
  | succ l ih =>
    obtain ⟨p, hp⟩ : ∃ p, s'.parent? i = some p := by
      rw [parent?_eq_head?]
      cases hcase : s'.ancestors i with
      | nil =>
        rw [hcase] at hlength
        cases hlength
      | cons p above => exact ⟨p, rfl⟩
    have habove := h.numbered.ancestors_of_parent? hp
    have habove' := hs.ancestors_of_parent? (hparent.symm.trans hp)
    have hleft : p ∈ s'.ids := mem_ids_of_mem_ancestors (by rw [habove]; exact List.mem_cons_self)
    have hin : p ∈ s.ids := mem_ids_of_mem_ancestors (by rw [habove']; exact List.mem_cons_self)
    rw [habove, List.length_cons] at hlength
    obtain ⟨m, hm⟩ := exists_node? hleft
    have hlt := hs.lt_next p hin
    rw [habove, habove', ih hleft hlt (h.old p hlt m hm).2 (Nat.succ.inj hlength)]

end Ages

/-- What is above a node stays above it where nodes come in. -/
theorem Grows.ancestors_eq {R : Node → Node → Prop} (h : s.Grows R s') (hs : s.IsNumbered) (hs' : s'.IsNumbered)
    (hi : i ∈ s.ids) : s'.ancestors i = s.ancestors i := by
  have hparent := h.parent?_eq (hs.lt_next i hi)
  -- upwards from the node
  generalize hlength : (s.ancestors i).length = l
  induction l generalizing i with
  | zero =>
    have hnone : s.parent? i = none := by
      rw [parent?_eq_head?, List.length_eq_zero_iff.1 hlength]
      rfl
    rw [ancestors_eq_nil hnone, ancestors_eq_nil (hparent.trans hnone)]
  | succ l ih =>
    obtain ⟨a, above, hcons⟩ := List.exists_cons_of_length_eq_add_one hlength
    have hp : s.parent? i = some a := by
      rw [parent?_eq_head?, hcons]
      rfl
    have habove := hs.ancestors_of_parent? hp
    have ha : a ∈ s.ids := mem_ids_of_mem_ancestors (by rw [habove]; exact List.mem_cons_self)
    rw [habove, List.length_cons] at hlength
    rw [habove, hs'.ancestors_of_parent? (hparent.trans hp), ih ha (h.parent?_eq (hs.lt_next a ha))
      (Nat.succ.inj hlength)]

/-! ## What is taken out -/

/-- Of the children of a node that stays, those stay that are not taken out. -/
theorem Shrinks.topNodes_kids (h : s.Shrinks (fun _ => Eq) s') (hs : s.IsNumbered) (hq : q ∈ s'.ids) :
    (s'.kids q).topNodes = (s.kids q).topNodes.filter fun x => x.1 ∈ s'.ids := by
  have hrel := h.find?_rel hs hq
  rw [kids, kids]
  have hids : ∀ x ∈ s'.find? q, ∀ j ∈ x.2.ids, j ∈ s'.ids := fun x hx j hj => by
    have hkids : s'.kids q = x.2 := by rw [kids, hx]
    exact mem_ids_of_mem_kids (hkids ▸ hj)
  generalize s'.find? q = new, s.find? q = old at hrel hids
  cases hrel with
  | none => rfl
  | @some x y hxy =>
    have hembeds : Forest.Embeds (fun _ => Eq) (fun j => ¬j ∈ s'.ids) x.2 y.2 := hxy.2.mono fun _ _ _ heq => heq.symm
    exact (hembeds.topNodes_filter (fun j hj => decide_eq_false hj) fun j hj => decide_eq_true (hids x rfl j hj)).symm

theorem shrinks_foldl_remove (s : Sheet) (is : List Nat) : s.Shrinks (fun _ => Eq) (is.foldl remove s) := by
  induction is generalizing s with
  | nil => exact .refl (fun _ _ => rfl) s
  | cons i is ih =>
    have hstep : s.Shrinks (fun _ => Eq) (s.remove i) := shrinks_remove (fun _ _ => rfl) s i
    exact hstep.trans (fun _ _ _ _ hab hbc => hab.trans hbc) (ih (s.remove i))

/-- What goes with a node are the node and what stands below it. -/
theorem IsNumbered.mem_ids_remove (hs : s.IsNumbered) (hi : i ∈ s.ids) (x : Nat) :
    i ∈ (s.remove x).ids ∨ i = x ∨ x ∈ s.ancestors i := by
  unfold remove
  split
  · exact .inl hi
  · cases hfind : s.find? x with
    | none =>
      refine .inl ?_
      rwa [ids, Sheet.whole, mapRuns, joinRuns_filter, joinRuns_map (Forest.editsAt_erase x) hs.nodup,
        (Forest.editsAt_erase x).of_notMem]
      intro hmem
      obtain ⟨n, k, hsome⟩ := exists_find? hmem
      rw [hfind] at hsome
      cases hsome
    | some y =>
      have hmem := (hs.ids_perm_erase (n := y.1) (k := y.2) hfind).mem_iff.1 hi
      rw [Forest.ids_tree] at hmem
      rcases List.mem_append.1 hmem with hmem | hmem
      · rcases List.mem_cons.1 hmem with rfl | hbelow
        · exact .inr (.inl rfl)
        · refine .inr (.inr (hs.mem_descendants.1 ?_))
          rwa [descendants, kids, hfind]
      · exact .inl hmem

theorem IsNumbered.mem_ids_foldl_remove (hs : s.IsNumbered) (hi : i ∈ s.ids) (is : List Nat) :
    i ∈ (is.foldl remove s).ids ∨ ∃ x ∈ is, i = x ∨ x ∈ s.ancestors i := by
  induction is generalizing s with
  | nil => exact .inl hi
  | cons x is ih =>
    have hstep : s.Ages (s.remove x) := .of_shrinks hs (shrinks_remove (fun _ _ => rfl) s x)
    rcases hs.mem_ids_remove hi x with hmem | hgone
    · rcases ih hstep.numbered hmem with hleft | ⟨y, hy, hgone⟩
      · exact .inl hleft
      · rw [hstep.ancestors_eq hs hmem (hs.lt_next i hi)] at hgone
        exact .inr ⟨y, List.mem_cons_of_mem _ hy, hgone⟩
    · exact .inr ⟨x, List.mem_cons_self, hgone⟩

/-- What was taken out is not there. -/
theorem IsNumbered.notMem_ids_foldl_remove (hs : s.IsNumbered) {is : List Nat} (hi : i ∈ is) (hroot : i ≠ rootId) :
    i ∉ (is.foldl remove s).ids := by
  induction is generalizing s with
  | nil => cases hi
  | cons x is ih =>
    have hstep : (s.remove x).IsNumbered := (shrinks_remove (R := fun _ => Eq) (fun _ _ => rfl) s x).isNumbered hs
    rcases List.mem_cons.1 hi with rfl | hi
    · intro hmem
      have hleft : i ∈ (s.remove i).ids := (shrinks_foldl_remove (s.remove i) is).whole.ids_sublist.mem hmem
      rw [remove, if_neg hroot] at hleft
      have hin : i ∈ s.ids := (shrinks_erase (R := fun _ => Eq) (fun _ _ => rfl) s i).whole.ids_sublist.mem hleft
      obtain ⟨n, k, hfind⟩ := exists_find? hin
      exact ((hs.moved_spec hfind).2 i (by rw [Forest.ids_tree]; exact List.mem_cons_self)).1 hleft
    · exact ih hstep hi

end Sheet

end VendorCss
