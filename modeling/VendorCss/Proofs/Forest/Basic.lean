import Mathlib.Data.List.Nodup
import VendorCss.Css.Forest

/-!
# Laws of forests

The numbers and nodes of a forest after an edit, and what lookups find. A lookup finds nothing where the number does not
stand, and the node it finds is one of the forest. An edit keeps the nodes that it does not name; a copy has the nodes
of its original, numbered one after the other.
-/

namespace VendorCss.Forest

variable {id i : Nat} {f g new : Forest} {x : Nat × Node}

/-! ## Runs one after the other -/

@[simp] theorem nil_append (f : Forest) : nil ++ f = f := rfl

@[simp] theorem cons_append (i : Nat) (n : Node) (k r f : Forest) : cons i n k r ++ f = cons i n k (r ++ f) := rfl

@[simp] theorem append_nil (f : Forest) : f ++ nil = f := by
  induction f with
  | nil => rfl
  | cons i n k r _ ih => simp [ih]

@[simp] theorem ids_append (f g : Forest) : (f ++ g).ids = f.ids ++ g.ids := by
  induction f with
  | nil => rfl
  | cons i n k r _ ih => simp [ids, ih]

@[simp] theorem nodes_append (f g : Forest) : (f ++ g).nodes = f.nodes ++ g.nodes := by
  induction f with
  | nil => rfl
  | cons i n k r _ ih => simp [nodes, ih]

/-! ## Numbers and nodes -/

theorem map_fst_nodes (f : Forest) : f.nodes.map Prod.fst = f.ids := by
  induction f with
  | nil => rfl
  | cons i n k r ihk ihr => simp [nodes, ids, ihk, ihr]

theorem mem_ids_of_mem_nodes (h : x ∈ f.nodes) : x.1 ∈ f.ids := by
  rw [← map_fst_nodes]
  exact List.mem_map_of_mem h

/-! ## Looking up -/

theorem find?_eq_none (h : id ∉ f.ids) : f.find? id = none := by
  induction f with
  | nil => rfl
  | cons i n k r ihk ihr =>
    simp only [ids, List.mem_cons, List.mem_append, not_or] at h
    obtain ⟨hi, hk, hr⟩ := h
    simp [find?, Ne.symm hi, ihk hk, ihr hr]

theorem parentUnder_eq_none (h : id ∉ f.ids) (above : Option Nat) : f.parentUnder id above = none := by
  induction f generalizing above with
  | nil => rfl
  | cons i n k r ihk ihr =>
    simp only [ids, List.mem_cons, List.mem_append, not_or] at h
    obtain ⟨hi, hk, hr⟩ := h
    simp [parentUnder, Ne.symm hi, ihk hk, ihr hr]

theorem find?_append (f g : Forest) (id : Nat) : (f ++ g).find? id = (f.find? id).or (g.find? id) := by
  induction f with
  | nil => rfl
  | cons i n k r _ ih =>
    simp only [cons_append, find?, ih]
    split
    · rfl
    · rw [Option.or_assoc]

theorem parentUnder_append (f g : Forest) (id : Nat) (above : Option Nat) :
    (f ++ g).parentUnder id above = (f.parentUnder id above).or (g.parentUnder id above) := by
  induction f with
  | nil => rfl
  | cons i n k r _ ih =>
    simp only [cons_append, parentUnder, ih]
    split
    · rfl
    · rw [Option.or_assoc]

theorem topNodes_append (f g : Forest) : (f ++ g).topNodes = f.topNodes ++ g.topNodes := by
  induction f with
  | nil => rfl
  | cons i n k r _ ih => simp [topNodes, ih]

theorem map_fst_topNodes (f : Forest) : f.topNodes.map Prod.fst = f.tops := by
  induction f with
  | nil => rfl
  | cons i n k r _ ih => rw [topNodes, List.map_cons, ih, tops]

theorem topNodes_subset_nodes (f : Forest) : f.topNodes ⊆ f.nodes := by
  induction f with
  | nil => exact List.nil_subset _
  | cons i n k r _ ih =>
    exact List.cons_subset_cons _ (List.Subset.trans ih (List.subset_append_right k.nodes _))

/-- A node that is found stands in the forest, and so do the nodes below it. -/
theorem nodes_of_find? {n : Node} {k : Forest} (h : f.find? id = some (n, k)) :
    (id, n) ∈ f.nodes ∧ k.nodes.Sublist f.nodes := by
  induction f with
  | nil => cases h
  | cons i m k' r ihk ihr =>
    rw [find?] at h
    split at h
    · rename_i hi
      obtain ⟨rfl, rfl⟩ : m = n ∧ k' = k := by simpa using h
      subst hi
      exact ⟨List.mem_cons_self, (List.sublist_append_left _ _).cons _⟩
    · rcases Option.or_eq_some_iff.1 h with h | ⟨_, h⟩
      · obtain ⟨hn, hk⟩ := ihk h
        exact ⟨List.mem_cons_of_mem _ (List.mem_append_left _ hn), (hk.trans (List.sublist_append_left _ _)).cons _⟩
      · obtain ⟨hn, hk⟩ := ihr h
        exact ⟨List.mem_cons_of_mem _ (List.mem_append_right _ hn), (hk.trans (List.sublist_append_right _ _)).cons _⟩

/-- Every number that stands in a forest is found there. -/
theorem find?_isSome (h : id ∈ f.ids) : (f.find? id).isSome = true := by
  induction f with
  | nil => cases h
  | cons i n k r ihk ihr =>
    rw [find?]
    split
    · rfl
    · rename_i hi
      rw [Option.isSome_or]
      rcases List.mem_cons.1 h with rfl | h
      · exact absurd rfl hi
      · rcases List.mem_append.1 h with h | h
        · rw [ihk h, Bool.true_or]
        · rw [ihr h, Bool.or_true]

/-- What stands around a node stands in the forest. -/
theorem mem_ids_of_mem_ancestors {is : List Nat} (h : f.ancestors? id = some is) (hi : i ∈ is) : i ∈ f.ids := by
  induction f generalizing is with
  | nil => cases h
  | cons j n k r ihk ihr =>
    rw [ancestors?] at h
    rw [ids, List.mem_cons, List.mem_append]
    split at h
    · cases h
      cases hi
    · rcases Option.or_eq_some_iff.1 h with h | ⟨_, h⟩
      · obtain ⟨js, hjs, rfl⟩ := Option.map_eq_some_iff.1 h
        rcases List.mem_append.1 hi with hi | hi
        · exact .inr (.inl (ihk hjs hi))
        · exact .inl (List.mem_singleton.1 hi)
      · exact .inr (.inr (ihr h hi))

/-- Every number that stands in a forest has something around it, be it nothing. -/
theorem ancestors?_isSome (h : id ∈ f.ids) : (f.ancestors? id).isSome = true := by
  induction f with
  | nil => cases h
  | cons i n k r ihk ihr =>
    rw [ancestors?]
    split
    · rfl
    · rename_i hi
      rw [Option.isSome_or, Option.isSome_map]
      rcases List.mem_cons.1 h with rfl | h
      · exact absurd rfl hi
      · rcases List.mem_append.1 h with h | h
        · rw [ihk h, Bool.true_or]
        · rw [ihr h, Bool.or_true]

/-! ## Edits -/

theorem ids_modify (f : Forest) (id : Nat) (edit : Node → Node) : (f.modify id edit).ids = f.ids := by
  induction f with
  | nil => rfl
  | cons i n k r ihk ihr =>
    rw [modify]
    split
    · rfl
    · simp [ids, ihk, ihr]

theorem mem_nodes_modify {edit : Node → Node} (h : x ∈ (f.modify id edit).nodes) :
    x ∈ f.nodes ∨ ∃ n, (id, n) ∈ f.nodes ∧ x = (id, edit n) := by
  induction f with
  | nil => cases h
  | cons i n k r ihk ihr =>
    rw [modify] at h
    split at h
    · rename_i hi
      rcases List.mem_cons.1 h with rfl | h
      · exact .inr ⟨n, by rw [hi]; exact List.mem_cons_self, by rw [hi]⟩
      · exact .inl (List.mem_cons_of_mem _ h)
    · simp only [nodes, List.mem_cons, List.mem_append] at h ⊢
      rcases h with h | h | h
      · exact .inl (.inl h)
      · rcases ihk h with h | ⟨m, hm, hx⟩
        · exact .inl (.inr (.inl h))
        · exact .inr ⟨m, .inr (.inl hm), hx⟩
      · rcases ihr h with h | ⟨m, hm, hx⟩
        · exact .inl (.inr (.inr h))
        · exact .inr ⟨m, .inr (.inr hm), hx⟩

theorem mem_nodes_erase (h : x ∈ (f.erase id).nodes) : x ∈ f.nodes := by
  induction f with
  | nil => cases h
  | cons i n k r ihk ihr =>
    rw [erase] at h
    simp only [nodes, List.mem_cons, List.mem_append]
    split at h
    · exact .inr (.inr h)
    · simp only [nodes, List.mem_cons, List.mem_append] at h
      exact h.imp_right fun h => h.imp ihk ihr

/-- The edit puts a run in at each place of a number, before, after or below the node there. -/
structure Puts (id : Nat) (new : Forest) (edit : Forest → Forest) : Prop where
  nil : edit nil = nil
  here : ∀ n k r, (edit (cons id n k r)).nodes.Perm (new.nodes ++ (cons id n k r).nodes)
  there : ∀ i n k r, i ≠ id → edit (cons i n k r) = cons i n (edit k) (edit r)

theorem puts_insertBefore (id : Nat) (new : Forest) : Puts id new (insertBefore id new) where
  nil := rfl
  here := fun n k r => by rw [insertBefore, if_pos rfl, nodes_append]
  there := fun i n k r hi => by rw [insertBefore, if_neg hi]

theorem puts_insertAfter (id : Nat) (new : Forest) : Puts id new (insertAfter id new) where
  nil := rfl
  here := fun n k r => by
    rw [insertAfter, if_pos rfl, nodes, nodes, nodes_append]
    exact ((List.perm_append_comm_assoc _ _ _).cons _).trans List.perm_middle.symm
  there := fun i n k r hi => by rw [insertAfter, if_neg hi]

theorem puts_appendTo (id : Nat) (new : Forest) : Puts id new (appendTo id new) where
  nil := rfl
  here := fun n k r => by
    rw [appendTo, if_pos rfl, nodes, nodes, nodes_append, List.append_assoc]
    exact ((List.perm_append_comm_assoc _ _ _).cons _).trans List.perm_middle.symm
  there := fun i n k r hi => by rw [appendTo, if_neg hi]

theorem puts_prependTo (id : Nat) (new : Forest) : Puts id new (prependTo id new) where
  nil := rfl
  here := fun n k r => by
    rw [prependTo, if_pos rfl, nodes, nodes, nodes_append, List.append_assoc]
    exact List.perm_middle.symm
  there := fun i n k r hi => by rw [prependTo, if_neg hi]

variable {edit : Forest → Forest}

theorem Puts.of_notMem (hput : Puts id new edit) (hid : id ∉ f.ids) : edit f = f := by
  induction f with
  | nil => exact hput.nil
  | cons i n k r ihk ihr =>
    simp only [ids, List.mem_cons, List.mem_append, not_or] at hid
    obtain ⟨hi, hk, hr⟩ := hid
    rw [hput.there i n k r (Ne.symm hi), ihk hk, ihr hr]

theorem Puts.mem_nodes (hput : Puts id new edit) (h : x ∈ (edit f).nodes) : x ∈ f.nodes ∨ x ∈ new.nodes := by
  induction f with
  | nil =>
    rw [hput.nil] at h
    cases h
  | cons i n k r ihk ihr =>
    by_cases hi : i = id
    · rw [hi] at h ⊢
      exact (List.mem_append.1 ((hput.here n k r).mem_iff.1 h)).symm
    · rw [hput.there i n k r hi] at h
      simp only [nodes, List.mem_cons, List.mem_append] at h ⊢
      rcases h with h | h | h
      · exact .inl (.inl h)
      · exact (ihk h).imp_left fun h => .inr (.inl h)
      · exact (ihr h).imp_left fun h => .inr (.inr h)

/-- The new run goes in once for each place of the number, at most. -/
theorem Puts.count_ids (hput : Puts id new edit) (f : Forest) (j : Nat) :
    (edit f).ids.count j ≤ f.ids.count j + f.ids.count id * new.ids.count j := by
  induction f with
  | nil =>
    rw [hput.nil]
    exact Nat.zero_le _
  | cons i n k r ihk ihr =>
    by_cases hi : i = id
    · rw [hi]
      have hids : (edit (cons id n k r)).ids.Perm (new.ids ++ (cons id n k r).ids) := by
        rw [← map_fst_nodes, ← map_fst_nodes, ← map_fst_nodes, ← List.map_append]
        exact (hput.here n k r).map _
      have hid : 1 ≤ (cons id n k r).ids.count id := List.count_pos_iff.2 List.mem_cons_self
      have hle := Nat.mul_le_mul_right (new.ids.count j) hid
      rw [hids.count_eq, List.count_append]
      omega
    · have hid : (cons i n k r).ids.count id = k.ids.count id + r.ids.count id := by
        simp [ids, hi]
      rw [hput.there i n k r hi, hid, Nat.add_mul]
      simp only [ids, List.count_cons, List.count_append]
      omega

/-! ## Copies -/

theorem renumber_snd (f : Forest) (next : Nat) : (f.renumber next).2 = next + f.size := by
  induction f generalizing next with
  | nil => rfl
  | cons i n k r ihk ihr =>
    simp only [renumber, ihk, ihr, size]
    omega

/-- The numbers of a copy follow each other. -/
theorem ids_renumber (f : Forest) (next : Nat) : (f.renumber next).1.ids = List.range' next f.size := by
  induction f generalizing next with
  | nil => rfl
  | cons i n k r ihk ihr =>
    have h : k.size + r.size + 1 = (k.size + r.size) + 1 := rfl
    simp only [renumber, ids, ihk, ihr, renumber_snd, size, List.range'_succ, ← List.range'_append_1]

theorem mem_nodes_renumber {next : Nat} (h : x ∈ (f.renumber next).1.nodes) : ∃ j, (j, x.2) ∈ f.nodes := by
  induction f generalizing next with
  | nil => cases h
  | cons i n k r ihk ihr =>
    simp only [renumber, nodes, List.mem_cons, List.mem_append] at h ⊢
    rcases h with rfl | h | h
    · exact ⟨i, .inl rfl⟩
    · obtain ⟨j, hj⟩ := ihk h
      exact ⟨j, .inr (.inl hj)⟩
    · obtain ⟨j, hj⟩ := ihr h
      exact ⟨j, .inr (.inr hj)⟩

end VendorCss.Forest
