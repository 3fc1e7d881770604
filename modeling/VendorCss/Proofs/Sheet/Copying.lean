import VendorCss.Proofs.Sheet.Neighbours

/-!
# Copies of a node before it

Copies of a node with its descendants, put directly before it one after the other, are a row of trees put there at once,
in the order in which they came (`cloneBefore_copiesBefore`). They are the closest of what stands before the node, the
last one first (`map_prevSiblings_copiesBefore`). The node, what stands above it and every other node stays what it was.
-/

namespace VendorCss

namespace Forest

/-! ## Rows of copies -/

/-- Trees with the same descendants, each with a top of its own. -/
def copies (kids : Forest) : (tops : List Node) → Forest
  | [] => nil
  | n :: tops => cons 0 n kids (copies kids tops)

theorem copies_append (kids : Forest) (tops tops' : List Node) :
    copies kids (tops ++ tops') = copies kids tops ++ copies kids tops' := by
  induction tops with
  | nil => rfl
  | cons n tops ih => rw [List.cons_append, copies, ih, copies, cons_append]

theorem map_snd_topNodes_copies (kids : Forest) (tops : List Node) :
    (copies kids tops).topNodes.map Prod.snd = tops := by
  induction tops with
  | nil => rfl
  | cons n tops ih => rw [copies, topNodes, List.map_cons, ih]

/-- Numbers go on from one run to the next. -/
theorem renumber_append (f g : Forest) (next : Nat) : (f ++ g).renumber next =
    ((f.renumber next).1 ++ (g.renumber (f.renumber next).2).1, (g.renumber (f.renumber next).2).2) := by
  induction f generalizing next with
  | nil => rfl
  | cons i n k r _ ih =>
    rw [cons_append, renumber, renumber]
    dsimp only
    rw [ih]
    rfl

theorem map_snd_topNodes_renumber (f : Forest) (next : Nat) :
    (f.renumber next).1.topNodes.map Prod.snd = f.topNodes.map Prod.snd := by
  induction f generalizing next with
  | nil => rfl
  | cons i n k r _ ih =>
    rw [renumber]
    dsimp only
    rw [topNodes, topNodes, List.map_cons, List.map_cons, ih]

end Forest

namespace Sheet

variable {s : Sheet} {id i : Nat} {n : Node} {k : Forest}

/-- The copies of a node and its descendants that are put before it, numbered, and the first number after them. -/
def copiesOf (s : Sheet) (n : Node) (k : Forest) (edits : List (Node → Node)) : Forest × Nat :=
  (Forest.copies k (edits.map fun edit => edit n)).renumber s.next

/-- The sheet with copies of a node and its descendants directly before it, the top of each changed by an edit of its
own; a removed node has none. -/
def copiesBefore (s : Sheet) (id : Nat) (edits : List (Node → Node)) : Sheet :=
  match s.find? id with
  | some (n, k) => s.putBefore id (s.copiesOf n k edits).1 (s.copiesOf n k edits).2
  | none => s

theorem isFresh_copiesOf (s : Sheet) (n : Node) (k : Forest) (edits : List (Node → Node)) :
    s.IsFresh (s.copiesOf n k edits).1 (s.copiesOf n k edits).2 := s.isFresh_renumber _

theorem map_snd_topNodes_copiesOf (s : Sheet) (n : Node) (k : Forest) (edits : List (Node → Node)) :
    (s.copiesOf n k edits).1.topNodes.map Prod.snd = edits.map fun edit => edit n := by
  rw [copiesOf, Forest.map_snd_topNodes_renumber, Forest.map_snd_topNodes_copies]

theorem copiesBefore_eq (h : s.find? id = some (n, k)) (edits : List (Node → Node)) :
    s.copiesBefore id edits = s.putBefore id (s.copiesOf n k edits).1 (s.copiesOf n k edits).2 := by
  rw [copiesBefore, h]

theorem copiesBefore_nil (s : Sheet) (id : Nat) : s.copiesBefore id [] = s := by
  rw [copiesBefore]
  split
  · exact s.front_nil id
  · rfl

/-- What was there before is what it was. -/
theorem node?_copiesBefore (hi : i < s.next) (id : Nat) (edits : List (Node → Node)) :
    (s.copiesBefore id edits).node? i = s.node? i := by
  rw [copiesBefore]
  split
  · exact node?_putBefore (s.isFresh_copiesOf _ _ edits) hi id
  · rfl

section

variable (hs : s.IsNumbered) (edits : List (Node → Node))

include hs

theorem IsNumbered.copiesBefore (id : Nat) : (s.copiesBefore id edits).IsNumbered := by
  rw [Sheet.copiesBefore]
  split
  · exact hs.putBefore (s.isFresh_copiesOf _ _ edits) id
  · exact hs

variable (h : s.find? id = some (n, k))

include h

theorem find?_copiesBefore : (s.copiesBefore id edits).find? id = some (n, k) := by
  rw [copiesBefore_eq h]
  exact find?_putBefore hs (s.isFresh_copiesOf n k edits) h

theorem ancestors_copiesBefore : (s.copiesBefore id edits).ancestors id = s.ancestors id := by
  rw [copiesBefore_eq h]
  exact ancestors_putBefore hs (s.isFresh_copiesOf n k edits) h

theorem nextSiblings_copiesBefore : (s.copiesBefore id edits).nextSiblings id = s.nextSiblings id := by
  rw [copiesBefore_eq h]
  exact nextSiblings_putBefore hs (s.isFresh_copiesOf n k edits) h

/-- The copies are the closest nodes before, the last one first. -/
theorem map_prevSiblings_copiesBefore :
    ((s.copiesBefore id edits).prevSiblings id).map (s.copiesBefore id edits).node? =
      (edits.map fun edit => some (edit n)).reverse ++ (s.prevSiblings id).map s.node? := by
  have hfresh := s.isFresh_copiesOf n k edits
  have hstays : (s.prevSiblings id).map (s.copiesBefore id edits).node? = (s.prevSiblings id).map s.node? :=
    List.map_congr_left fun i hi => node?_copiesBefore (hs.lt_next i (mem_ids_of_mem_prevSiblings hi)) id edits
  have htexts : (edits.map fun edit => some (edit n)) = (edits.map fun edit => edit n).map some := by
    rw [List.map_map]
    rfl
  have hcopies : (s.copiesOf n k edits).1.tops.map (s.copiesBefore id edits).node? =
      edits.map fun edit => some (edit n) := by
    rw [htexts, ← s.map_snd_topNodes_copiesOf n k edits, ← Forest.map_fst_topNodes, List.map_map, List.map_map,
      copiesBefore_eq h]
    exact List.map_congr_left fun x hx =>
      node?_putBefore_of_mem hs hfresh h (Forest.topNodes_subset_nodes _ hx)
  rw [← hstays, ← hcopies, ← List.map_reverse, ← List.map_append, copiesBefore_eq h, prevSiblings_putBefore hs hfresh h]

/-- One more copy comes after those that are there. -/
theorem cloneBefore_copiesBefore (edit : Node → Node) :
    (s.copiesBefore id edits).cloneBefore id edit = s.copiesBefore id (edits ++ [edit]) := by
  have hold : id < s.next := hs.lt_of_node? (n := n) (by rw [node?, h]; rfl)
  have hnot : id ∉ (s.copiesOf n k edits).1.ids := fun hmem =>
    Nat.not_le.2 hold ((s.isFresh_copiesOf n k edits).le id hmem)
  rw [cloneBefore_eq (find?_copiesBefore hs edits h), copiesBefore_eq h, copiesBefore_eq h, copiesOf, copiesOf,
    List.map_append, Forest.copies_append, Forest.renumber_append]
  refine congrArg₂ Sheet.mk ?_ rfl
  simp only [putBefore, splice, Place.splice, List.map_map]
  exact List.map_congr_left fun f _ => Forest.insertBefore_insertBefore hnot f

end

end Sheet

end VendorCss
