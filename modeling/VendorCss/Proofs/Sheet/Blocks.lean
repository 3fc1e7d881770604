import VendorCss.Proofs.Sheet.Neighbours

/-!
# Blocks put after a node

Trees put directly after a node in a row are the closest of what stands after it; what stands farther after and before
stays (`nextSiblings_putAfter`, `prevSiblings_putAfter`). A block is a node with leaves below it. Blocks put there one after
the other push each other back, so that they stand there in the opposite order (`foldl_insertBlock_after`), and each is
found with its leaves by the number that it got (`find?_blockRow`).
-/

namespace VendorCss

/-- Whatever is put after a node first stands farther from it. -/
theorem Forest.insertAfter_insertAfter (id : Nat) (new new' f : Forest) :
    insertAfter id new' (insertAfter id new f) = insertAfter id (new' ++ new) f := by
  induction f with
  | nil => rfl
  | cons i n k r ihk ihr =>
    by_cases hi : i = id
    · rw [insertAfter, if_pos hi, insertAfter, if_pos hi, insertAfter, if_pos hi, append_assoc]
    · rw [insertAfter, if_neg hi, insertAfter, if_neg hi, ihk, ihr, insertAfter, if_neg hi]

namespace Sheet

variable {s : Sheet} {id i next : Nat} {n : Node} {k row : Forest}

/-! ## A row of trees put after a node -/

/-- The sheet with a row of trees directly after a node, where `next` is the first number after the row. -/
def putAfter (s : Sheet) (id : Nat) (row : Forest) (next : Nat) : Sheet := { s.splice (.after id) row with next }

theorem node?_putAfter (hrow : s.IsFresh row next) (hi : i < s.next) (id : Nat) :
    (s.putAfter id row next).node? i = s.node? i := node?_splice hrow hi (.after id)

section

variable (hs : s.IsNumbered) (hrow : s.IsFresh row next) (h : s.find? id = some (n, k))

include hs hrow h

/-- Both sheets are the same around a gap that holds the node, with the row after it. -/
theorem exists_focus_putAfter : ∃ F : Focus, s = F.sheet (.tree id n k) s.next ∧
    s.putAfter id row next = F.sheet (.tree id n k ++ row) next ∧ id ∉ F.ids ∧ id ∉ row.ids ∧
    ∀ i ∈ row.ids, i ∉ F.ids := by
  have hgap : Forest.insertAfter id row (.tree id n k) = .tree id n k ++ row := by
    simp [Forest.tree, Forest.insertAfter]
  rw [← hgap]
  exact exists_focus_splice hs hrow h (.after id) (Forest.editsAt_insertAfter id row)

theorem find?_putAfter : (s.putAfter id row next).find? id = some (n, k) := by
  obtain ⟨F, -, hput, hid, -, -⟩ := exists_focus_putAfter hs hrow h
  rw [hput, Focus.find?_sheet hid, Forest.find?_append, Forest.tree, Forest.find?, if_pos rfl, Option.some_or]

/-- What is in the row is found there. -/
theorem find?_putAfter_of_mem (hi : i ∈ row.ids) : (s.putAfter id row next).find? i = row.find? i := by
  obtain ⟨F, hsheet, hput, -, -, hnew⟩ := exists_focus_putAfter hs hrow h
  have hnot : i ∉ (Forest.tree id n k).ids := by
    obtain ⟨before, after, -, hids⟩ := F.exists_ids_sheet
    have hall : s.ids = before ++ ((Forest.tree id n k).ids ++ after) := by
      rw [← hids _ s.next, ← hsheet]
    intro hmem
    have hold : i ∈ s.ids := by
      rw [hall]
      exact List.mem_append_right _ (List.mem_append_left _ hmem)
    exact Nat.not_le.2 (hs.lt_next i hold) (hrow.le i hi)
  rw [hput, Focus.find?_sheet (hnew i hi), Forest.find?_append, Forest.find?_eq_none hnot, Option.none_or]

/-- The siblings of the node before and after. -/
theorem exists_cut_putAfter : ∃ before after, id ∉ before ∧ s.siblings id = before ++ id :: after ∧
    (s.putAfter id row next).siblings id = before ++ id :: (row.tops ++ after) := by
  obtain ⟨F, hsheet, hput, hid, -, -⟩ := exists_focus_putAfter hs hrow h
  have hold : (F.sheet (.tree id n k) s.next).siblings id = F.context.left.tops ++ id :: F.context.right.tops :=
    Focus.siblings_sheet (by simp [Forest.tree, Forest.tops]) hid
  rw [← hsheet] at hold
  refine ⟨F.context.left.tops, F.context.right.tops, fun hmem => ?_, hold, ?_⟩
  · exact Focus.notMem_context hid (Forest.Context.mem_ids_of_mem_left (Forest.mem_ids_of_mem_tops hmem))
  · rw [hput, Focus.siblings_sheet (by simp [Forest.tree, Forest.tops]) hid]
    simp [Forest.tree, Forest.tops]

/-- The new trees are the closest after, in their order. -/
theorem nextSiblings_putAfter : (s.putAfter id row next).nextSiblings id = row.tops ++ s.nextSiblings id := by
  obtain ⟨before, after, hbefore, hold, hnew⟩ := exists_cut_putAfter hs hrow h
  rw [(siblings_of_cut hold hbefore).2, (siblings_of_cut hnew hbefore).2]

theorem prevSiblings_putAfter : (s.putAfter id row next).prevSiblings id = s.prevSiblings id := by
  obtain ⟨before, after, hbefore, hold, hnew⟩ := exists_cut_putAfter hs hrow h
  rw [(siblings_of_cut hold hbefore).1, (siblings_of_cut hnew hbefore).1]

end

/-! ## Blocks -/

/-- A row of nodes whose children are leaves, each with its number and the leaves with those after it. -/
def blockRow : List (Nat × Node × List Node) → Forest
  | [] => .nil
  | (i, n, kids) :: bs => .cons i n (leaves (i + 1) kids) (blockRow bs)

/-- Blocks numbered from `next` on, each in front of those before it. -/
def blocks (next : Nat) : List (Node × List Node) → List (Nat × Node × List Node)
  | [] => []
  | (n, kids) :: bs => blocks (next + 1 + kids.length) bs ++ [(next, n, kids)]

/-- The number of nodes in blocks. -/
def blocksSize : List (Node × List Node) → Nat
  | [] => 0
  | (_, kids) :: bs => 1 + kids.length + blocksSize bs

theorem blockRow_append (bs bs' : List (Nat × Node × List Node)) :
    blockRow (bs ++ bs') = blockRow bs ++ blockRow bs' := by
  induction bs with
  | nil => rfl
  | cons b bs ih => rw [List.cons_append, blockRow, ih, blockRow, Forest.cons_append]

theorem tops_blockRow (bs : List (Nat × Node × List Node)) : (blockRow bs).tops = bs.map Prod.fst := by
  induction bs with
  | nil => rfl
  | cons b bs ih => rw [blockRow, Forest.tops, ih, List.map_cons]

theorem map_snd_blocks (next : Nat) (bs : List (Node × List Node)) : (blocks next bs).map Prod.snd = bs.reverse := by
  induction bs generalizing next with
  | nil => rfl
  | cons b bs ih => rw [blocks, List.map_append, ih, List.reverse_cons, List.map_singleton]

theorem ids_blocks (next : Nat) (bs : List (Node × List Node)) :
    (blockRow (blocks next bs)).ids.Perm (List.range' next (blocksSize bs)) := by
  induction bs generalizing next with
  | nil => exact .refl _
  | cons b bs ih =>
    obtain ⟨n, kids⟩ := b
    have hblock : (blockRow [(next, n, kids)]).ids = List.range' next (1 + kids.length) := by
      simp [blockRow, Forest.ids, ids_leaves, List.range'_succ, Nat.add_comm 1]
    have hrange : List.range' next (1 + kids.length + blocksSize bs) =
        List.range' next (1 + kids.length) ++ List.range' (next + 1 + kids.length) (blocksSize bs) := by
      rw [Nat.add_assoc next 1]
      exact List.range'_append_1.symm
    rw [blocks, blockRow_append, Forest.ids_append, hblock, blocksSize, hrange]
    exact List.perm_append_comm.trans ((ih _).append_left _)

theorem isFresh_blocks (s : Sheet) (bs : List (Node × List Node)) :
    s.IsFresh (blockRow (blocks s.next bs)) (s.next + blocksSize bs) := by
  have hids := ids_blocks s.next bs
  refine ⟨hids.nodup_iff.2 List.nodup_range', fun j hj => ?_, fun j hj => ?_, Nat.le_add_right _ _⟩
  · exact (List.mem_range'_1.1 (hids.mem_iff.1 hj)).1
  · exact (List.mem_range'_1.1 (hids.mem_iff.1 hj)).2

/-- A block is found by its number. -/
theorem find?_blockRow {bs : List (Nat × Node × List Node)} {kids : List Node} (hnodup : (blockRow bs).ids.Nodup)
    (h : (i, n, kids) ∈ bs) : (blockRow bs).find? i = some (n, leaves (i + 1) kids) := by
  induction bs with
  | nil => cases h
  | cons b bs ih =>
    obtain ⟨j, m, kids'⟩ := b
    rw [blockRow, Forest.ids, List.nodup_cons, List.mem_append, not_or] at hnodup
    rw [blockRow, Forest.find?]
    rcases List.mem_cons.1 h with heq | hmem
    · cases heq
      rw [if_pos rfl]
    · have hi : i ∈ (blockRow bs).ids :=
        Forest.mem_ids_of_mem_tops (by rw [tops_blockRow]; exact List.mem_map_of_mem hmem)
      have hne : j ≠ i := by
        rintro rfl
        exact hnodup.1.2 hi
      have hkids : i ∉ (leaves (j + 1) kids').ids := fun hmem' =>
        (List.nodup_append.1 hnodup.2).2.2 i hmem' i hi rfl
      rw [if_neg hne, Forest.find?_eq_none hkids, Option.none_or, ih (List.nodup_append.1 hnodup.2).2.1 hmem]

theorem putAfter_nil (s : Sheet) (id : Nat) : s.putAfter id .nil s.next = s := by
  have hrun : ∀ f : Forest, Forest.insertAfter id .nil f = f := by
    intro f
    induction f with
    | nil => rfl
    | cons i n k r ihk ihr =>
      rw [Forest.insertAfter, ihk, ihr, Forest.nil_append]
      exact ite_self _
  have hruns : s.runs.map (Forest.insertAfter id .nil) = s.runs := by
    rw [List.map_congr_left fun f _ => hrun f]
    exact List.map_id _
  exact congrArg₂ Sheet.mk hruns rfl

/-- Blocks put directly after a node, one after the other, are a row there, the last one in front. -/
theorem foldl_insertBlock_after (s : Sheet) (id : Nat) (bs : List (Node × List Node)) :
    bs.foldl (fun s (b : Node × List Node) => (s.insertBlock (.after id) b.1 b.2).2) s =
      s.putAfter id (blockRow (blocks s.next bs)) (s.next + blocksSize bs) := by
  induction bs generalizing s with
  | nil => exact (putAfter_nil s id).symm
  | cons b bs ih =>
    obtain ⟨n, kids⟩ := b
    have hruns : (s.runs.map (Forest.insertAfter id (.tree s.next n (leaves (s.next + 1) kids)))).map
        (Forest.insertAfter id (blockRow (blocks (s.next + 1 + kids.length) bs))) =
          s.runs.map (Forest.insertAfter id (blockRow (blocks s.next ((n, kids) :: bs)))) := by
      rw [List.map_map]
      refine List.map_congr_left fun f _ => ?_
      rw [Function.comp_apply, Forest.insertAfter_insertAfter, blocks, blockRow_append]
      rfl
    have hnext : s.next + 1 + kids.length + blocksSize bs = s.next + blocksSize ((n, kids) :: bs) := by
      rw [blocksSize]
      omega
    rw [List.foldl_cons, ih]
    exact congrArg₂ Sheet.mk hruns hnext

end Sheet

end VendorCss
