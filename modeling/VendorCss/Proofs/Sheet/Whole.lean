import VendorCss.Css.Sheet
import VendorCss.Proofs.Forest.Embedding

/-!
# The whole of a sheet

The runs of a sheet one after the other are one forest, in which lookups find what they find in the sheet. A sheet is
numbered if every number in it was given, and given once; then the node of a number is the one that a lookup finds.
-/

namespace VendorCss.Sheet

/-- The runs one after the other. -/
def joinRuns : (runs : List Forest) → Forest
  | [] => .nil
  | f :: runs => f ++ joinRuns runs

/-- All that a sheet holds, as one run. -/
def whole (s : Sheet) : Forest := joinRuns s.runs

/-- All numbers of a sheet. -/
def ids (s : Sheet) : List Nat := s.whole.ids

/-- All nodes of a sheet with their numbers. -/
def nodes (s : Sheet) : List (Nat × Node) := s.whole.nodes

variable {s : Sheet} {id : Nat} {n : Node}

/-! ## Looking up -/

theorem findSome?_find? (runs : List Forest) (id : Nat) :
    runs.findSome? (·.find? id) = (joinRuns runs).find? id := by
  induction runs with
  | nil => rfl
  | cons f runs ih => rw [List.findSome?_cons, joinRuns, Forest.find?_append, ih]; cases f.find? id <;> rfl

theorem findSome?_parentUnder (runs : List Forest) (id : Nat) (above : Option Nat) :
    runs.findSome? (·.parentUnder id above) = (joinRuns runs).parentUnder id above := by
  induction runs with
  | nil => rfl
  | cons f runs ih =>
    rw [List.findSome?_cons, joinRuns, Forest.parentUnder_append, ih]
    cases f.parentUnder id above <;> rfl

theorem find?_eq (s : Sheet) (id : Nat) : s.find? id = s.whole.find? id := findSome?_find? s.runs id

theorem parent?_eq (s : Sheet) (id : Nat) : s.parent? id = (s.whole.parentUnder id none).join := by
  rw [parent?, findSome?_parentUnder, whole]

theorem find?_of_node? (h : s.node? id = some n) : ∃ k, s.find? id = some (n, k) := by
  obtain ⟨⟨m, k⟩, hf, hm⟩ := Option.map_eq_some_iff.1 h
  exact ⟨k, by rw [hf, ← hm]⟩

theorem nodes_of_find? {k : Forest} (h : s.find? id = some (n, k)) :
    (id, n) ∈ s.nodes ∧ k.nodes.Sublist s.nodes := by
  rw [find?_eq] at h
  exact Forest.nodes_of_find? h

theorem mem_nodes_of_node? (h : s.node? id = some n) : (id, n) ∈ s.nodes := by
  obtain ⟨k, hf⟩ := find?_of_node? h
  exact (nodes_of_find? hf).1

theorem nodes_joinRuns (runs : List Forest) : (joinRuns runs).nodes = runs.flatMap Forest.nodes := by
  induction runs with
  | nil => rfl
  | cons f runs ih => rw [joinRuns, Forest.nodes_append, ih, List.flatMap_cons]

theorem mem_nodes_of_mem_runs {f : Forest} (hf : f ∈ s.runs) {x : Nat × Node} (hx : x ∈ f.nodes) : x ∈ s.nodes := by
  rw [nodes, Sheet.whole, nodes_joinRuns]
  exact List.mem_flatMap.2 ⟨f, hf, hx⟩

theorem mem_ids_of_mem_runs {f : Forest} (hf : f ∈ s.runs) {i : Nat} (hi : i ∈ f.ids) : i ∈ s.ids := by
  rw [← Forest.map_fst_nodes] at hi
  obtain ⟨x, hx, rfl⟩ := List.mem_map.1 hi
  exact Forest.mem_ids_of_mem_nodes (mem_nodes_of_mem_runs hf hx)

theorem mem_ids_of_mem_ancestors {i : Nat} (h : i ∈ s.ancestors id) : i ∈ s.ids := by
  rw [ancestors] at h
  cases hf : s.runs.findSome? (·.ancestors? id) with
  | none =>
    rw [hf] at h
    cases h
  | some is =>
    rw [hf] at h
    obtain ⟨f, hmem, hfound⟩ := List.exists_of_findSome?_eq_some hf
    exact mem_ids_of_mem_runs hmem (Forest.mem_ids_of_mem_ancestors hfound h)

/-! ## Numbers -/

/-- A number names one node, and is one of those given so far. -/
structure IsNumbered (s : Sheet) : Prop where
  nodup : s.ids.Nodup
  lt_next : ∀ i ∈ s.ids, i < s.next

theorem IsNumbered.lt_of_node? (hs : s.IsNumbered) (h : s.node? id = some n) : id < s.next :=
  hs.lt_next id (Forest.mem_ids_of_mem_nodes (mem_nodes_of_node? h))

/-- The node of a number is the one that a lookup finds. -/
theorem IsNumbered.node?_eq (hs : s.IsNumbered) (h : (id, n) ∈ s.nodes) : s.node? id = some n := by
  have hsome : (s.find? id).isSome = true := by
    rw [find?_eq]
    exact Forest.find?_isSome (Forest.mem_ids_of_mem_nodes h)
  obtain ⟨⟨m, k⟩, hfind⟩ := Option.isSome_iff_exists.1 hsome
  have hnode : s.node? id = some m := by rw [node?, hfind]; rfl
  have hnodup : (s.nodes.map Prod.fst).Nodup := by
    rw [nodes, Forest.map_fst_nodes]
    exact hs.nodup
  have heq : (id, m) = (id, n) := List.inj_on_of_nodup_map hnodup (mem_nodes_of_node? hnode) h rfl
  rw [hnode, (Prod.mk.inj heq).2]

theorem IsNumbered.nodup_of_mem_runs (hs : s.IsNumbered) {f : Forest} (hf : f ∈ s.runs) : f.ids.Nodup := by
  have hsub : f.nodes.Sublist s.nodes := by
    rw [nodes, Sheet.whole, nodes_joinRuns, List.flatMap_def]
    exact List.sublist_flatten_of_mem (List.mem_map_of_mem hf)
  have hids : s.ids.Nodup := hs.nodup
  rw [ids, ← Forest.map_fst_nodes] at hids
  rw [← Forest.map_fst_nodes]
  exact (hsub.map Prod.fst).nodup hids

/-! ## Edits of every run -/

theorem embeds_map {R : Nat → Node → Node → Prop} {extra : Nat → Prop} {edit : Forest → Forest} {runs : List Forest}
    (h : ∀ f ∈ runs, Forest.Embeds R extra f (edit f)) :
    Forest.Embeds R extra (joinRuns runs) (joinRuns (runs.map edit)) := by
  induction runs with
  | nil => exact .nil
  | cons f runs ih => exact (h f List.mem_cons_self).append (ih fun g hg => h g (List.mem_cons_of_mem _ hg))

theorem map_embeds {R : Nat → Node → Node → Prop} {extra : Nat → Prop} {edit : Forest → Forest} {runs : List Forest}
    (h : ∀ f ∈ runs, Forest.Embeds R extra (edit f) f) :
    Forest.Embeds R extra (joinRuns (runs.map edit)) (joinRuns runs) := by
  induction runs with
  | nil => exact .nil
  | cons f runs ih => exact (h f List.mem_cons_self).append (ih fun g hg => h g (List.mem_cons_of_mem _ hg))

/-- Runs without a node do not count. -/
theorem joinRuns_filter (runs : List Forest) : joinRuns (runs.filter fun r => !r.isNil) = joinRuns runs := by
  induction runs with
  | nil => rfl
  | cons f runs ih =>
    cases f with
    | nil => exact ih
    | cons i n k r => exact congrArg (Forest.cons i n k r ++ ·) ih

/-- The nodes below a node are nodes of the sheet. -/
theorem nodes_kids_sublist (s : Sheet) (id : Nat) : (s.kids id).nodes.Sublist s.nodes := by
  unfold kids
  split
  · exact (nodes_of_find? ‹_›).2
  · exact List.nil_sublist _

theorem exists_of_mem_childDeclarationsOf {i : Nat} {d : Declaration} (h : (i, d) ∈ s.childDeclarationsOf id) :
    ∃ n, (i, n) ∈ s.nodes ∧ n.declaration? = some d := by
  obtain ⟨⟨j, n⟩, hmem, hd⟩ := List.mem_filterMap.1 h
  obtain ⟨d', hd', heq⟩ := Option.map_eq_some_iff.1 hd
  obtain ⟨rfl, rfl⟩ := Prod.mk.inj heq
  exact ⟨n, (s.nodes_kids_sublist id).mem (Forest.topNodes_subset_nodes _ hmem), hd'⟩

/-- The nodes below a node are listed once each. -/
theorem IsNumbered.nodup_descendantsWhere (hs : s.IsNumbered) (id : Nat) (keep : Node → Bool) :
    (s.descendantsWhere id keep).Nodup := by
  have hkids : (s.kids id).nodes.Sublist s.nodes := s.nodes_kids_sublist id
  have hnodup : (s.nodes.map Prod.fst).Nodup := by
    rw [nodes, Forest.map_fst_nodes]
    exact hs.nodup
  exact ((List.filter_sublist.trans hkids).map Prod.fst).nodup hnodup

end VendorCss.Sheet
