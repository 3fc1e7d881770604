import VendorCss.Proofs.Sheet.Focus
import VendorCss.Proofs.Sheet.Growth
import VendorCss.Proofs.Sheet.Mapping

/-!
# What stands around a node after an edit at it

Trees put directly before a node in a row are the closest of what stands before it; what stands farther before, after
and above stays (`prevSiblings_putBefore`, `nextSiblings_putBefore`, `ancestors_putBefore`). One new node is such a row.
Nodes put there one after the other are a row of leaves put there at once, in the order in which they came
(`insertBefore_front`). Other white space before a node moves nothing.
-/

namespace VendorCss

theorem Forest.insertBefore_insertBefore {id : Nat} {new new' : Forest} (h : id ∉ new.ids) (f : Forest) :
    insertBefore id new' (insertBefore id new f) = insertBefore id (new ++ new') f := by
  induction f with
  | nil => rfl
  | cons i n k r ihk ihr =>
    by_cases hi : i = id
    · rw [insertBefore, if_pos hi, (editsAt_insertBefore id new').append_right h, insertBefore, if_pos hi,
        insertBefore, if_pos hi, append_assoc]
    · rw [insertBefore, if_neg hi, insertBefore, if_neg hi, ihk, ihr, insertBefore, if_neg hi]

/-- A lookup finds the node that has the number. -/
theorem Forest.node_of_mem_nodes {f : Forest} {x : Nat × Node} (hnodup : f.ids.Nodup) (hx : x ∈ f.nodes) :
    (f.find? x.1).map Prod.fst = some x.2 := by
  obtain ⟨⟨m, k⟩, hfind⟩ := Option.isSome_iff_exists.1 (find?_isSome (mem_ids_of_mem_nodes hx))
  rw [← map_fst_nodes] at hnodup
  have heq : (x.1, m) = (x.1, x.2) := List.inj_on_of_nodup_map hnodup (nodes_of_find? hfind).1 hx rfl
  rw [hfind, ← (Prod.mk.inj heq).2]
  rfl

namespace Sheet

variable {s : Sheet} {id i next : Nat} {n : Node} {k row : Forest}

/-- The nodes that were there are what they were. -/
theorem node?_splice (hrow : s.IsFresh row next) (hi : i < s.next) (place : Place) :
    Sheet.node? { s.splice place row with next } i = s.node? i := by
  have hgrows : s.Grows Eq { s.splice place row with next } := grows_splice (fun _ => rfl) hrow place
  have hrel := hgrows.node?_rel hi
  generalize s.node? i = old, Sheet.node? { s.splice place row with next } i = new at hrel
  cases hrel with
  | none => rfl
  | some h => rw [h]

/-- A row put at a place beside a node: both sheets are the same around a gap that holds the node, and the row too. -/
theorem exists_focus_splice (hs : s.IsNumbered) (hrow : s.IsFresh row next) (h : s.find? id = some (n, k))
    (place : Place) (hplace : Forest.EditsAt id (place.splice row)) : ∃ F : Focus, s = F.sheet (.tree id n k) s.next ∧
      Sheet.mk (s.runs.map (place.splice row)) next = F.sheet (place.splice row (.tree id n k)) next ∧
      id ∉ F.ids ∧ id ∉ row.ids ∧ ∀ i ∈ row.ids, i ∉ F.ids := by
  obtain ⟨F, hsheet, hid, -, hlt, -⟩ := exists_focus hs h
  have hold : id < s.next := hs.lt_of_node? (n := n) (by rw [node?, h]; rfl)
  refine ⟨F, hsheet, ?_, hid, fun hmem => Nat.not_le.2 hold (hrow.le id hmem),
    fun i hi hiF => Nat.not_le.2 (hlt i hiF) (hrow.le i hi)⟩
  have hmap : (F.sheet (.tree id n k) s.next).runs.map (place.splice row) = _ := F.map_sheet hplace hid
  rw [← hsheet] at hmap
  exact congrArg₂ Sheet.mk hmap rfl

/-! ## A row of trees put before a node -/

/-- The sheet with a row of trees directly before a node, where `next` is the first number after the row. -/
def putBefore (s : Sheet) (id : Nat) (row : Forest) (next : Nat) : Sheet := { s.splice (.before id) row with next }

theorem IsNumbered.putBefore (hs : s.IsNumbered) (hrow : s.IsFresh row next) (id : Nat) :
    (s.putBefore id row next).IsNumbered := hs.splice hrow (.before id)

theorem node?_putBefore (hrow : s.IsFresh row next) (hi : i < s.next) (id : Nat) :
    (s.putBefore id row next).node? i = s.node? i := node?_splice hrow hi (.before id)

section

variable (hs : s.IsNumbered) (hrow : s.IsFresh row next) (h : s.find? id = some (n, k))

include hs hrow h

/-- Both sheets are the same around a gap that holds the node, with the row before it. -/
theorem exists_focus_putBefore : ∃ F : Focus, s = F.sheet (.tree id n k) s.next ∧
    s.putBefore id row next = F.sheet (row ++ .tree id n k) next ∧ id ∉ F.ids ∧ id ∉ row.ids ∧
    ∀ i ∈ row.ids, i ∉ F.ids := by
  have hgap : Forest.insertBefore id row (.tree id n k) = row ++ .tree id n k := by
    simp [Forest.tree, Forest.insertBefore]
  rw [← hgap]
  exact exists_focus_splice hs hrow h (.before id) (Forest.editsAt_insertBefore id row)

theorem find?_putBefore : (s.putBefore id row next).find? id = some (n, k) := by
  obtain ⟨F, -, hput, hid, hnot, -⟩ := exists_focus_putBefore hs hrow h
  rw [hput, Focus.find?_sheet hid, Forest.find?_append, Forest.find?_eq_none hnot, Option.none_or, Forest.tree,
    Forest.find?, if_pos rfl]

/-- Each new node is found by its number. -/
theorem node?_putBefore_of_mem {x : Nat × Node} (hx : x ∈ row.nodes) :
    (s.putBefore id row next).node? x.1 = some x.2 := by
  obtain ⟨F, -, hput, -, -, hnew⟩ := exists_focus_putBefore hs hrow h
  have hmem := Forest.mem_ids_of_mem_nodes hx
  obtain ⟨y, hy⟩ := Option.isSome_iff_exists.1 (Forest.find?_isSome hmem)
  have hfound := Forest.node_of_mem_nodes hrow.nodup hx
  rw [hy] at hfound
  rw [node?, hput, Focus.find?_sheet (hnew x.1 hmem), Forest.find?_append, hy, Option.some_or, hfound]

theorem ancestors_putBefore : (s.putBefore id row next).ancestors id = s.ancestors id := by
  obtain ⟨F, hsheet, hput, hid, hnot, -⟩ := exists_focus_putBefore hs hrow h
  have hself : (Forest.tree id n k).ancestors? id = some [] := by rw [Forest.tree, Forest.ancestors?, if_pos rfl]
  have hafter : (row ++ Forest.tree id n k).ancestors? id = some [] := by
    rw [Forest.ancestors?_append, Forest.ancestors?_eq_none hnot, Option.none_or, hself]
  have hold : (F.sheet (.tree id n k) s.next).ancestors id = F.context.path := Focus.ancestors_sheet hself hid
  rw [← hsheet] at hold
  rw [hput, Focus.ancestors_sheet hafter hid, hold]

/-- The siblings of the node before and after. -/
theorem exists_cut_putBefore : ∃ before after, id ∉ before ∧ id ∉ row.tops ∧ s.siblings id = before ++ id :: after ∧
    (s.putBefore id row next).siblings id = before ++ row.tops ++ id :: after := by
  obtain ⟨F, hsheet, hput, hid, hnot, -⟩ := exists_focus_putBefore hs hrow h
  have hold : (F.sheet (.tree id n k) s.next).siblings id = F.context.left.tops ++ id :: F.context.right.tops :=
    Focus.siblings_sheet (by simp [Forest.tree, Forest.tops]) hid
  rw [← hsheet] at hold
  refine ⟨F.context.left.tops, F.context.right.tops, fun hmem => ?_, fun hmem => hnot (Forest.mem_ids_of_mem_tops hmem),
    hold, ?_⟩
  · exact Focus.notMem_context hid (Forest.Context.mem_ids_of_mem_left (Forest.mem_ids_of_mem_tops hmem))
  · rw [hput, Focus.siblings_sheet (by simp [Forest.tree, Forest.tops]) hid]
    simp [Forest.tree, Forest.tops]

/-- The new trees are the closest before, the last one first. -/
theorem prevSiblings_putBefore :
    (s.putBefore id row next).prevSiblings id = row.tops.reverse ++ s.prevSiblings id := by
  obtain ⟨before, after, hbefore, hnot, hold, hnew⟩ := exists_cut_putBefore hs hrow h
  rw [(siblings_of_cut hold hbefore).1, (siblings_of_cut hnew (by simp [hbefore, hnot])).1, List.reverse_append]

theorem nextSiblings_putBefore : (s.putBefore id row next).nextSiblings id = s.nextSiblings id := by
  obtain ⟨before, after, hbefore, hnot, hold, hnew⟩ := exists_cut_putBefore hs hrow h
  rw [(siblings_of_cut hold hbefore).2, (siblings_of_cut hnew (by simp [hbefore, hnot])).2]

end

/-! ## A node put before another one -/

theorem leaves_append (next : Nat) (ns ms : List Node) :
    leaves next (ns ++ ms) = leaves next ns ++ leaves (next + ns.length) ms := by
  induction ns generalizing next with
  | nil => rfl
  | cons n ns ih =>
    rw [List.cons_append, leaves, ih, leaves, Forest.cons_append, List.length_cons, Nat.add_right_comm, Nat.add_assoc]

/-- The sheet with new leaves directly before a node. -/
def front (s : Sheet) (id : Nat) (ns : List Node) : Sheet :=
  { s.splice (.before id) (leaves s.next ns) with next := s.next + ns.length }

/-- One more leaf comes after those that are there. -/
theorem insertBefore_front (hid : id < s.next) (ns : List Node) (m : Node) :
    (s.front id ns).insertBefore id m = s.front id (ns ++ [m]) := by
  have hnot : id ∉ (leaves s.next ns).ids := by
    rw [ids_leaves, List.mem_range'_1]
    omega
  have hruns : (s.runs.map (Forest.insertBefore id (leaves s.next ns))).map
      (Forest.insertBefore id (.tree (s.next + ns.length) m .nil)) =
        s.runs.map (Forest.insertBefore id (leaves s.next (ns ++ [m]))) := by
    rw [List.map_map]
    refine List.map_congr_left fun f _ => ?_
    rw [Function.comp_apply, Forest.insertBefore_insertBefore hnot, leaves_append]
    rfl
  rw [front, front, List.length_append]
  exact congrArg₂ Sheet.mk hruns rfl

theorem front_nil (s : Sheet) (id : Nat) : s.front id [] = s := by
  have hrun : ∀ f : Forest, Forest.insertBefore id .nil f = f := by
    intro f
    induction f with
    | nil => rfl
    | cons i n k r ihk ihr =>
      rw [Forest.insertBefore, ihk, ihr, Forest.nil_append]
      exact ite_self _
  have hruns : s.runs.map (Forest.insertBefore id .nil) = s.runs := by
    rw [List.map_congr_left fun f _ => hrun f]
    exact List.map_id _
  exact congrArg₂ Sheet.mk hruns rfl

theorem IsNumbered.insertBefore (hs : s.IsNumbered) (id : Nat) (m : Node) : (s.insertBefore id m).IsNumbered :=
  hs.putBefore (s.isFresh_tree m) id

theorem node?_insertBefore (hi : i < s.next) (id : Nat) (m : Node) : (s.insertBefore id m).node? i = s.node? i :=
  node?_putBefore (s.isFresh_tree m) hi id

section

variable (hs : s.IsNumbered) (h : s.node? id = some n) (m : Node)

include hs h

theorem node?_insertBefore_next : (s.insertBefore id m).node? s.next = some m := by
  obtain ⟨k, hfind⟩ := find?_of_node? h
  exact node?_putBefore_of_mem hs (s.isFresh_tree m) hfind (x := (s.next, m)) List.mem_cons_self

theorem ancestors_insertBefore : (s.insertBefore id m).ancestors id = s.ancestors id := by
  obtain ⟨k, hfind⟩ := find?_of_node? h
  exact ancestors_putBefore hs (s.isFresh_tree m) hfind

/-- The new node is the closest one before. -/
theorem prevSiblings_insertBefore : (s.insertBefore id m).prevSiblings id = s.next :: s.prevSiblings id := by
  obtain ⟨k, hfind⟩ := find?_of_node? h
  exact prevSiblings_putBefore hs (s.isFresh_tree m) hfind

theorem nextSiblings_insertBefore : (s.insertBefore id m).nextSiblings id = s.nextSiblings id := by
  obtain ⟨k, hfind⟩ := find?_of_node? h
  exact nextSiblings_putBefore hs (s.isFresh_tree m) hfind

end

/-! ## White space before a node -/

theorem IsNumbered.setBefore (hs : s.IsNumbered) (id : Nat) (before : Text) : (s.setBefore id before).IsNumbered :=
  hs.modify id _

theorem setBefore_eq_mapAt (hs : s.IsNumbered) (id : Nat) (before : Text) :
    s.setBefore id before = s.mapAt [id] fun n => n.withBefore before := by
  rw [← modify_mapAt hs List.not_mem_nil, mapAt_nil]
  rfl

theorem setBefore_setBefore (s : Sheet) (id : Nat) (before after : Text) :
    (s.setBefore id before).setBefore id after = s.setBefore id after := modify_modify _ _

/-- The white space that is there already. -/
theorem setBefore_before (hs : s.IsNumbered) (h : s.node? id = some n) : s.setBefore id n.raws.before = s := by
  refine modify_eq_self hs fun n' hn' => ?_
  obtain rfl := Option.some.inj (h.symm.trans hn')
  rfl

/-- Everything but the white space is what it was. -/
theorem node?_setBefore (hs : s.IsNumbered) (id : Nat) (before : Text) (i : Nat) :
    (s.setBefore id before).node? i = (s.node? i).map fun n => if i = id then n.withBefore before else n := by
  rw [setBefore_eq_mapAt hs, node?_mapAt]
  simp only [List.mem_singleton]

theorem ancestors_setBefore (hs : s.IsNumbered) (id : Nat) (before : Text) (i : Nat) :
    (s.setBefore id before).ancestors i = s.ancestors i := by
  rw [setBefore_eq_mapAt hs, ancestors_mapAt]

theorem siblings_setBefore (hs : s.IsNumbered) (id : Nat) (before : Text) (i : Nat) :
    (s.setBefore id before).siblings i = s.siblings i := by
  rw [setBefore_eq_mapAt hs, siblings_mapAt]

end Sheet

end VendorCss
