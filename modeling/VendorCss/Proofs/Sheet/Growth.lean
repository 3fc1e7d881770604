import VendorCss.Proofs.Sheet.Whole

/-!
# Sheets that grow

A sheet grows when nodes with new numbers are put in beside the old ones and old nodes are changed as far as a relation
allows. What was there before is still there, in its order and under its parents (`Grows.descendants_filter`,
`Grows.parent?_eq`, `Grows.node?_rel`).

Every edit that puts in a copy or changes a node in place is such a step, and a numbered sheet stays numbered.
-/

namespace VendorCss.Sheet

variable {R : Node → Node → Prop} {P : Node → Prop} {s s' s'' : Sheet} {id : Nat}

/-- The second sheet is the first one with new nodes, its old nodes changed as `R` allows. -/
structure Grows (R : Node → Node → Prop) (s s' : Sheet) : Prop where
  next_le : s.next ≤ s'.next
  whole : Forest.Embeds (fun _ => R) (s.next ≤ ·) s.whole s'.whole

namespace Grows

theorem refl (hR : ∀ n, R n n) (s : Sheet) : s.Grows R s := ⟨Nat.le_refl _, Forest.Embeds.refl (fun _ => hR) _⟩

theorem trans (hR : ∀ a b c, R a b → R b c → R a c) (h : s.Grows R s') (h' : s'.Grows R s'') : s.Grows R s'' where
  next_le := Nat.le_trans h.next_le h'.next_le
  whole := h.whole.trans (fun _ => hR) (fun _ hi => Nat.le_trans h.next_le hi) h'.whole

/-! ## What was there before -/

variable (h : s.Grows R s') (hid : id < s.next)

include h hid

theorem find?_rel : Forest.Embeds.SameFind (fun _ => R) (s.next ≤ ·) id (s.find? id) (s'.find? id) := by
  rw [find?_eq, find?_eq]
  exact h.whole.find?_rel (Nat.not_le.2 hid)

/-- An old node has its old parent. -/
theorem parent?_eq : s'.parent? id = s.parent? id := by
  rw [Sheet.parent?_eq, Sheet.parent?_eq, h.whole.parentUnder_eq (Nat.not_le.2 hid)]

/-- An old node is there as it was, up to `R`; what was removed stays so. -/
theorem node?_rel : Option.Rel R (s.node? id) (s'.node? id) := by
  have hrel := h.find?_rel hid
  rw [Sheet.node?, Sheet.node?]
  generalize s.find? id = old, s'.find? id = new at hrel
  cases hrel with
  | none => exact .none
  | some hxy => exact .some hxy.1

/-- The old nodes below an old node are those below it before, in their order. -/
theorem descendants_filter (hs : s.IsNumbered) :
    (s'.descendants id).filter (· < s.next) = s.descendants id := by
  have hrel := h.find?_rel hid
  have hold : ∀ x ∈ s.find? id, ∀ j ∈ x.2.ids, j < s.next := by
    rintro ⟨n, k⟩ hf j hj
    rw [← Forest.map_fst_nodes] at hj
    obtain ⟨y, hy, rfl⟩ := List.mem_map.1 hj
    exact hs.lt_next y.1 (Forest.mem_ids_of_mem_nodes ((nodes_of_find? hf).2.mem hy))
  rw [Sheet.descendants, Sheet.descendants, kids, kids]
  generalize s.find? id = old, s'.find? id = new at hrel hold
  cases hrel with
  | none => rfl
  | @some x _ hxy =>
    exact hxy.2.ids_filter (fun j hj => decide_eq_false (Nat.not_lt.2 hj)) fun j hj => decide_eq_true (hold x rfl j hj)

end Grows

/-! ## A node changed in place -/

theorem ids_joinRuns_map {edit : Forest → Forest} (h : ∀ f, (edit f).ids = f.ids) (runs : List Forest) :
    (joinRuns (runs.map edit)).ids = (joinRuns runs).ids := by
  induction runs with
  | nil => rfl
  | cons f runs ih => rw [List.map_cons, joinRuns, joinRuns, Forest.ids_append, Forest.ids_append, h, ih]

theorem ids_modify (s : Sheet) (id : Nat) (edit : Node → Node) : (s.modify id edit).ids = s.ids :=
  ids_joinRuns_map (fun f => f.ids_modify id edit) s.runs

theorem IsNumbered.modify (hs : s.IsNumbered) (id : Nat) (edit : Node → Node) : (s.modify id edit).IsNumbered where
  nodup := by
    rw [ids_modify]
    exact hs.nodup
  lt_next := by
    rw [ids_modify]
    exact hs.lt_next

theorem grows_modify (hR : ∀ n, R n n) (hs : s.IsNumbered) {edit : Node → Node}
    (h : ∀ n, s.node? id = some n → R n (edit n)) : s.Grows R (s.modify id edit) where
  next_le := Nat.le_refl _
  whole := embeds_map fun _ hf =>
    Forest.Embeds.modify (fun _ => hR) fun n hn => h n (hs.node?_eq (mem_nodes_of_mem_runs hf hn))

/-- A property of all nodes holds after a change that keeps it. -/
theorem forall_nodes_modify (hs : s.IsNumbered) {edit : Node → Node} (h : ∀ x ∈ s.nodes, P x.2)
    (hedit : ∀ n, s.node? id = some n → P (edit n)) : ∀ x ∈ (s.modify id edit).nodes, P x.2 := by
  intro x hx
  rw [nodes, Sheet.whole, nodes_joinRuns] at hx
  obtain ⟨_, hmem, hx⟩ := List.mem_flatMap.1 hx
  obtain ⟨f, hf, rfl⟩ := List.mem_map.1 hmem
  rcases Forest.mem_nodes_modify hx with hx | ⟨n, hn, rfl⟩
  · exact h x (mem_nodes_of_mem_runs hf hx)
  · exact hedit n (hs.node?_eq (mem_nodes_of_mem_runs hf hn))

/-! ## A run put at a place -/

/-- The node that a place is told by. -/
def Place.anchor : Place → Nat
  | before a | after a | appended a | prepended a => a

theorem Place.puts (place : Place) (new : Forest) : Forest.Puts place.anchor new (place.splice new) := by
  cases place with
  | before a => exact Forest.puts_insertBefore a new
  | after a => exact Forest.puts_insertAfter a new
  | appended a => exact Forest.puts_appendTo a new
  | prepended a => exact Forest.puts_prependTo a new

theorem count_ids_splice (runs : List Forest) (place : Place) (new : Forest) (j : Nat) :
    (joinRuns (runs.map (place.splice new))).ids.count j ≤
      (joinRuns runs).ids.count j + (joinRuns runs).ids.count place.anchor * new.ids.count j := by
  induction runs with
  | nil => exact Nat.zero_le _
  | cons f runs ih =>
    have hf := (place.puts new).count_ids f j
    simp only [List.map_cons, joinRuns, Forest.ids_append, List.count_append, Nat.add_mul]
    omega

variable {new : Forest} {next : Nat}

/-- New numbers stand in one place each, those from the next one on. -/
structure IsFresh (s : Sheet) (new : Forest) (next : Nat) : Prop where
  nodup : new.ids.Nodup
  le : ∀ j ∈ new.ids, s.next ≤ j
  lt : ∀ j ∈ new.ids, j < next
  next_le : s.next ≤ next

theorem grows_splice (hR : ∀ n, R n n) (hnew : s.IsFresh new next) (place : Place) :
    s.Grows R { s.splice place new with next } where
  next_le := hnew.next_le
  whole := embeds_map fun f _ => by
    cases place with
    | before a => exact .insertBefore (fun _ => hR) hnew.le a f
    | after a => exact .insertAfter (fun _ => hR) hnew.le a f
    | appended a => exact .appendTo (fun _ => hR) hnew.le a f
    | prepended a => exact .prependTo (fun _ => hR) hnew.le a f

/-- A run goes in whose numbers are given and stand nowhere in the sheet. -/
theorem IsNumbered.splice_of_notMem (hs : s.IsNumbered) (hnodup : new.ids.Nodup)
    (hnew : ∀ j ∈ new.ids, j ∉ s.ids ∧ j < next) (hnext : s.next ≤ next) (place : Place) :
    IsNumbered { s.splice place new with next } := by
  have hcount := count_ids_splice s.runs place new
  have hid : s.ids.count place.anchor ≤ 1 := List.nodup_iff_count_le_one.1 hs.nodup place.anchor
  constructor
  · refine List.nodup_iff_count_le_one.2 fun j => Nat.le_trans (hcount j) ?_
    have hnew' : new.ids.count j ≤ 1 := List.nodup_iff_count_le_one.1 hnodup j
    have hmul : s.ids.count place.anchor * new.ids.count j ≤ new.ids.count j :=
      Nat.le_trans (Nat.mul_le_mul_right _ hid) (Nat.le_of_eq (Nat.one_mul _))
    show s.ids.count j + s.ids.count place.anchor * new.ids.count j ≤ 1
    by_cases hj : j ∈ s.ids
    · -- an old number is not a new one
      have hzero : new.ids.count j = 0 := List.count_eq_zero.2 fun hmem => (hnew j hmem).1 hj
      have hold : s.ids.count j ≤ 1 := List.nodup_iff_count_le_one.1 hs.nodup j
      omega
    · have hzero : s.ids.count j = 0 := List.count_eq_zero.2 hj
      omega
  · intro j hj
    have hpos : 0 < s.ids.count j + s.ids.count place.anchor * new.ids.count j :=
      Nat.lt_of_lt_of_le (List.count_pos_iff.2 hj) (hcount j)
    by_cases hold : j ∈ s.ids
    · exact Nat.lt_of_lt_of_le (hs.lt_next j hold) hnext
    · have hzero : s.ids.count j = 0 := List.count_eq_zero.2 hold
      refine (hnew j (List.count_pos_iff.1 (Nat.pos_of_ne_zero fun hnone => ?_))).2
      rw [hzero, hnone] at hpos
      exact Nat.lt_irrefl _ hpos

theorem IsNumbered.splice (hs : s.IsNumbered) (hnew : s.IsFresh new next) (place : Place) :
    IsNumbered { s.splice place new with next } :=
  hs.splice_of_notMem hnew.nodup (fun j hj => ⟨fun hold => Nat.not_le.2 (hs.lt_next j hold) (hnew.le j hj),
    hnew.lt j hj⟩) hnew.next_le place

theorem mem_nodes_splice {place : Place} {x : Nat × Node}
    (hx : x ∈ Sheet.nodes { s.splice place new with next }) : x ∈ s.nodes ∨ x ∈ new.nodes := by
  rw [nodes, Sheet.whole, nodes_joinRuns] at hx
  obtain ⟨_, hmem, hx⟩ := List.mem_flatMap.1 hx
  obtain ⟨f, hf, rfl⟩ := List.mem_map.1 hmem
  exact ((place.puts new).mem_nodes hx).imp_left (mem_nodes_of_mem_runs hf)

theorem forall_nodes_splice (h : ∀ x ∈ s.nodes, P x.2) (hnew : ∀ x ∈ new.nodes, P x.2) (place : Place) (next : Nat) :
    ∀ x ∈ Sheet.nodes { s.splice place new with next }, P x.2 := fun x hx =>
  (mem_nodes_splice hx).elim (h x) (hnew x)

/-! ## New nodes and copies -/

theorem isFresh_tree (s : Sheet) (n : Node) : s.IsFresh (.tree s.next n .nil) (s.next + 1) where
  nodup := List.nodup_singleton _
  le := fun _ hj => Nat.le_of_eq (List.mem_singleton.1 hj).symm
  lt := fun _ hj => Nat.lt_succ_of_le (Nat.le_of_eq (List.mem_singleton.1 hj))
  next_le := Nat.le_succ _

theorem ids_leaves (next : Nat) (ns : List Node) : (leaves next ns).ids = List.range' next ns.length := by
  induction ns generalizing next with
  | nil => rfl
  | cons n ns ih => simp [leaves, Forest.ids, ih, List.range'_succ]

theorem isFresh_renumber (s : Sheet) (f : Forest) : s.IsFresh (f.renumber s.next).1 (f.renumber s.next).2 := by
  have hids := f.ids_renumber s.next
  have hnext := f.renumber_snd s.next
  refine ⟨?_, fun j hj => ?_, fun j hj => ?_, ?_⟩
  · rw [hids]
    exact List.nodup_range'
  · rw [hids, List.mem_range'_1] at hj
    exact hj.1
  · rw [hids, List.mem_range'_1] at hj
    rw [hnext]
    exact hj.2
  · rw [hnext]
    exact Nat.le_add_right _ _

/-- A copy before a node, where there is one. -/
theorem cloneBefore_eq {n : Node} {k : Forest} (h : s.find? id = some (n, k)) (edit : Node → Node) :
    s.cloneBefore id edit =
      { s.splice (.before id) ((Forest.tree id (edit n) k).renumber s.next).1 with
        next := ((Forest.tree id (edit n) k).renumber s.next).2 } := by
  rw [cloneBefore, cloneBefore?, copyOf?, h]
  rfl

theorem cloneBefore_none (h : s.find? id = none) (edit : Node → Node) : s.cloneBefore id edit = s := by
  rw [cloneBefore, cloneBefore?, copyOf?, h]
  rfl

theorem grows_cloneBefore (hR : ∀ n, R n n) (s : Sheet) (id : Nat) (edit : Node → Node) :
    s.Grows R (s.cloneBefore id edit) := by
  cases h : s.find? id with
  | none =>
    rw [cloneBefore_none h]
    exact Grows.refl hR s
  | some x =>
    rw [cloneBefore_eq h]
    exact grows_splice hR (isFresh_renumber s _) (.before id)

theorem IsNumbered.cloneBefore (hs : s.IsNumbered) (id : Nat) (edit : Node → Node) :
    (s.cloneBefore id edit).IsNumbered := by
  cases h : s.find? id with
  | none =>
    rw [cloneBefore_none h]
    exact hs
  | some x =>
    rw [cloneBefore_eq h]
    exact hs.splice (isFresh_renumber s _) (.before id)

theorem forall_nodes_cloneBefore (h : ∀ x ∈ s.nodes, P x.2) {edit : Node → Node}
    (hedit : ∀ n, s.node? id = some n → P (edit n)) : ∀ x ∈ (s.cloneBefore id edit).nodes, P x.2 := by
  cases hf : s.find? id with
  | none =>
    rw [cloneBefore_none hf]
    exact h
  | some y =>
    obtain ⟨n, k⟩ := y
    rw [cloneBefore_eq hf]
    refine forall_nodes_splice h (fun x hx => ?_) (.before id) _
    obtain ⟨j, hj⟩ := Forest.mem_nodes_renumber hx
    simp only [Forest.tree, Forest.nodes, List.append_nil, List.mem_cons] at hj
    rcases hj with hj | hj
    · rw [(Prod.mk.inj hj).2]
      exact hedit n (by rw [node?, hf]; rfl)
    · exact h (j, x.2) ((nodes_of_find? hf).2.mem hj)

end VendorCss.Sheet
