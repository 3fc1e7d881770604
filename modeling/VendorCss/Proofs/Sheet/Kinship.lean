import VendorCss.Proofs.Forest.Kinship
import VendorCss.Proofs.Sheet.Whole

/-!
# Parents, children and siblings in a sheet

What a sheet tells about a node is told by the run that holds it (`findSome?_run`). In a numbered sheet the answers
agree with each other: the parent is the first of the ancestors, a node is a child of its parent and of nothing else
(`IsNumbered.mem_children`), and the descendants are the nodes that have the node among their ancestors, in the order in
which the children are read (`IsNumbered.descendants_eq`).

A sheet is tidy if moreover each of its runs is one tree, so that a node without a parent stands alone. Then the siblings
agree with the children of the parent, and all the answers make up one order (`IsTidy.isConsistent`).
-/

namespace VendorCss.Sheet

variable {s : Sheet} {id i j p a b : Nat} {f k : Forest} {n : Node}

/-! ## The run of a node -/

theorem isRemoved_eq_false : s.isRemoved id = false ↔ id ∈ s.ids := by
  rw [isRemoved, find?_eq, ids]
  constructor
  · intro h
    by_contra hnot
    rw [Forest.find?_eq_none hnot] at h
    cases h
  · intro h
    rw [← Option.not_isSome, Forest.find?_isSome h]
    rfl

theorem exists_run (h : id ∈ s.ids) : ∃ f ∈ s.runs, id ∈ f.ids := by
  rw [ids, ← Forest.map_fst_nodes, Sheet.whole, nodes_joinRuns] at h
  obtain ⟨x, hx, rfl⟩ := List.mem_map.1 h
  obtain ⟨f, hf, hxf⟩ := List.mem_flatMap.1 hx
  exact ⟨f, hf, Forest.mem_ids_of_mem_nodes hxf⟩

/-- A lookup of a number that one of the runs holds is a lookup in that run. -/
theorem findSome?_run {α : Type} {look : Forest → Option α} {runs : List Forest} (hnodup : (joinRuns runs).ids.Nodup)
    (hf : f ∈ runs) (hid : id ∈ f.ids) (hlook : ∀ g : Forest, id ∉ g.ids → look g = none) :
    runs.findSome? look = look f := by
  induction runs with
  | nil => cases hf
  | cons g runs ih =>
    rw [joinRuns, Forest.ids_append, List.nodup_append] at hnodup
    obtain ⟨-, hrest, hdisj⟩ := hnodup
    rw [List.findSome?_cons]
    rcases List.mem_cons.1 hf with rfl | hf
    · cases hfound : look f with
      | some found => rfl
      | none =>
        refine List.findSome?_eq_none_iff.2 fun g hg => hlook g fun hidg => ?_
        exact hdisj id hid id (mem_ids_of_mem_runs (s := ⟨runs, 0⟩) hg hidg) rfl
    · have hidg : id ∉ g.ids := fun hidg =>
        hdisj id hidg id (mem_ids_of_mem_runs (s := ⟨runs, 0⟩) hf hid) rfl
      rw [hlook g hidg, ih hrest hf]

theorem IsNumbered.find?_run (hs : s.IsNumbered) (hf : f ∈ s.runs) (hid : id ∈ f.ids) : s.find? id = f.find? id :=
  findSome?_run hs.nodup hf hid fun _ => Forest.find?_eq_none

theorem IsNumbered.siblings_run (hs : s.IsNumbered) (hf : f ∈ s.runs) (hid : id ∈ f.ids) :
    s.siblings id = (f.runOf? id).getD [] := by
  rw [siblings, findSome?_run hs.nodup hf hid fun _ => Forest.runOf?_eq_none]

theorem IsNumbered.ancestors_run (hs : s.IsNumbered) (hf : f ∈ s.runs) (hid : id ∈ f.ids) :
    s.ancestors id = (f.ancestors? id).getD [] := by
  rw [ancestors, findSome?_run hs.nodup hf hid fun _ => Forest.ancestors?_eq_none]

/-! ## Siblings -/

theorem mem_ids_of_mem_siblings (h : i ∈ s.siblings id) : i ∈ s.ids := by
  rw [siblings] at h
  cases hfound : s.runs.findSome? (·.runOf? id) with
  | none =>
    rw [hfound] at h
    cases h
  | some run =>
    rw [hfound] at h
    obtain ⟨f, hf, hrun⟩ := List.exists_of_findSome?_eq_some hfound
    exact mem_ids_of_mem_runs hf (Forest.mem_ids_of_runOf? hrun h)

theorem mem_ids_of_mem_prevSiblings (h : i ∈ s.prevSiblings id) : i ∈ s.ids :=
  mem_ids_of_mem_siblings ((List.takeWhile_sublist _).mem (List.mem_reverse.1 h))

theorem mem_ids_of_mem_nextSiblings (h : i ∈ s.nextSiblings id) : i ∈ s.ids :=
  mem_ids_of_mem_siblings ((List.dropWhile_sublist _).mem (List.mem_of_mem_tail h))

/-! ## Ancestors -/

theorem findSome?_ancestors? (runs : List Forest) (id : Nat) :
    runs.findSome? (·.ancestors? id) = (joinRuns runs).ancestors? id := by
  induction runs with
  | nil => rfl
  | cons f runs ih =>
    rw [List.findSome?_cons, joinRuns, Forest.ancestors?_append, ih]
    cases f.ancestors? id <;> rfl

theorem ancestors_eq (s : Sheet) (id : Nat) : s.ancestors id = (s.whole.ancestors? id).getD [] := by
  rw [ancestors, findSome?_ancestors?, whole]

theorem ancestors?_whole (h : j ∈ s.ancestors id) : s.whole.ancestors? id = some (s.ancestors id) := by
  rw [ancestors_eq] at h ⊢
  cases hfound : s.whole.ancestors? id with
  | some is => rfl
  | none =>
    rw [hfound] at h
    cases h

/-- The parent of a node is the first of its ancestors. -/
theorem parent?_eq_head? (s : Sheet) (id : Nat) : s.parent? id = (s.ancestors id).head? := by
  rw [parent?_eq, ancestors_eq, Forest.parentUnder_eq]
  cases s.whole.ancestors? id with
  | none => rfl
  | some is => simp

theorem ancestors_eq_nil (h : s.parent? id = none) : s.ancestors id = [] :=
  List.head?_eq_none_iff.1 ((s.parent?_eq_head? id).symm.trans h)

theorem exists_ancestors (h : s.parent? id = some p) :
    ∃ above, s.ancestors id = p :: above ∧ s.whole.ancestors? id = some (p :: above) := by
  rw [parent?_eq_head?] at h
  obtain ⟨above, habove⟩ := List.head?_eq_some_iff.1 h
  refine ⟨above, habove, ?_⟩
  rw [← habove]
  exact ancestors?_whole (j := p) (by rw [habove]; exact List.mem_cons_self)

theorem find?_of_mem_kids (h : i ∈ (s.kids id).ids) : ∃ n, s.whole.find? id = some (n, s.kids id) := by
  rw [kids, find?_eq] at h ⊢
  cases hfound : s.whole.find? id with
  | some x => exact ⟨x.1, rfl⟩
  | none =>
    rw [hfound] at h
    cases h

theorem kids_eq (h : s.whole.find? id = some (n, k)) : s.kids id = k := by
  rw [kids, find?_eq, h]

namespace IsNumbered

variable (hs : s.IsNumbered)

include hs

/-- A node that one other stands below has it among its children or below them. -/
theorem ancestors_of_mem_kids {is : List Nat} (hj : (s.kids id).ancestors? j = some is) :
    s.ancestors j = is ++ id :: s.ancestors id := by
  obtain ⟨n, hfind⟩ := find?_of_mem_kids (Forest.mem_ids_of_ancestors? hj)
  obtain ⟨above, habove⟩ := Option.isSome_iff_exists.1 (Forest.ancestors?_isSome (Forest.mem_ids_of_find? hfind))
  rw [ancestors_eq, ancestors_eq, Forest.ancestors?_of_mem_kids hs.nodup hfind habove hj, habove]
  rfl

theorem nodup_kids (id : Nat) : (s.kids id).ids.Nodup := by
  have hsub := (s.nodes_kids_sublist id).map Prod.fst
  rw [nodes, Forest.map_fst_nodes, Forest.map_fst_nodes] at hsub
  exact hsub.nodup hs.nodup

/-! ## Children -/

theorem nodup_children (id : Nat) : (s.children id).Nodup := Forest.nodup_tops (hs.nodup_kids id)

/-- A node is a child of its parent, and of nothing else. -/
theorem mem_children : id ∈ s.children p ↔ s.parent? id = some p := by
  constructor
  · intro h
    have hnil : (s.kids p).ancestors? id = some [] := (Forest.ancestors?_eq_nil (hs.nodup_kids p)).2 h
    rw [parent?_eq_head?, hs.ancestors_of_mem_kids hnil]
    rfl
  · intro h
    obtain ⟨above, -, hwhole⟩ := exists_ancestors h
    obtain ⟨n, k, hfind, htop, -⟩ := Forest.runOf?_of_ancestors hs.nodup hwhole
    rw [children, kids_eq hfind]
    exact htop

/-- The ancestors of a node are its parent and those of the parent. -/
theorem ancestors_of_parent? (h : s.parent? id = some p) : s.ancestors id = p :: s.ancestors p := by
  have hnil : (s.kids p).ancestors? id = some [] :=
    (Forest.ancestors?_eq_nil (hs.nodup_kids p)).2 (hs.mem_children.2 h)
  exact hs.ancestors_of_mem_kids hnil

theorem siblings_of_parent? (h : s.parent? id = some p) : s.siblings id = s.children p := by
  obtain ⟨above, -, hwhole⟩ := exists_ancestors h
  have hid : id ∈ s.ids := Forest.mem_ids_of_ancestors? hwhole
  obtain ⟨f, hf, hidf⟩ := exists_run hid
  rw [Sheet.whole, ← findSome?_ancestors?, findSome?_run hs.nodup hf hidf fun _ => Forest.ancestors?_eq_none] at hwhole
  obtain ⟨n, k, hfind, -, hrun⟩ := Forest.runOf?_of_ancestors (hs.nodup_of_mem_runs hf) hwhole
  rw [hs.siblings_run hf hidf, hrun, children, kids, hs.find?_run hf (Forest.mem_ids_of_find? hfind), hfind]
  rfl

/-! ## Descendants -/

theorem nodup_descendants (id : Nat) : (s.descendants id).Nodup := hs.nodup_kids id

theorem mem_descendants : j ∈ s.descendants id ↔ id ∈ s.ancestors j := by
  constructor
  · intro h
    obtain ⟨is, his⟩ := Option.isSome_iff_exists.1 (Forest.ancestors?_isSome h)
    rw [hs.ancestors_of_mem_kids his]
    exact List.mem_append_right _ List.mem_cons_self
  · intro h
    obtain ⟨n, k, hfind, hj⟩ := Forest.mem_kids_of_mem_ancestors hs.nodup (ancestors?_whole h) h
    rw [descendants, kids_eq hfind]
    exact hj

/-- No node stands above itself. -/
theorem notMem_ancestors (id : Nat) : id ∉ s.ancestors id := fun h => by
  -- it would stand in its own children
  have hkids : id ∈ (s.kids id).ids := hs.mem_descendants.2 h
  obtain ⟨n, hfind⟩ := find?_of_mem_kids hkids
  have hperm := Forest.ids_perm_erase hs.nodup hfind
  have hnodup := hperm.nodup_iff.1 hs.nodup
  rw [List.cons_append, List.nodup_cons] at hnodup
  exact hnodup.1 (List.mem_append_left _ hkids)

/-- The descendants are the children in order, each with its own descendants after it. -/
theorem descendants_eq (id : Nat) : s.descendants id = (s.children id).flatMap fun c => c :: s.descendants c := by
  refine Forest.ids_eq_flatMap (hs.nodup_kids id) fun i m l hfind => ?_
  have hi : i ∈ (s.kids id).ids := Forest.mem_ids_of_find? hfind
  obtain ⟨n, hwhole⟩ := find?_of_mem_kids hi
  rw [descendants, kids_eq ((Forest.find?_of_mem_kids hs.nodup hwhole hi).trans hfind)]

end IsNumbered

/-! ## Tidy sheets -/

/-- Every run of the sheet is one tree, and one of them is that of the root. -/
structure IsTidy (s : Sheet) : Prop where
  numbered : s.IsNumbered
  tree : ∀ f ∈ s.runs, ∃ i n k, f = .tree i n k
  root : ∃ n k, .tree rootId n k ∈ s.runs

/-- The order of all nodes as parents, children, siblings, ancestors and descendants tell it. -/
structure IsConsistent (s : Sheet) : Prop where
  /-- A node has one parent at most, and is a child of that one only. -/
  mem_children : ∀ id p, id ∈ s.children p ↔ s.parent? id = some p
  /-- It stands there once. -/
  nodup_children : ∀ p, (s.children p).Nodup
  /-- Its siblings are the children of its parent. -/
  siblings_of_parent? : ∀ id p, s.parent? id = some p → s.siblings id = s.children p
  siblings_of_parentless : ∀ id, s.isRemoved id = false → s.parent? id = none → s.siblings id = [id]
  /-- The siblings of a node are those before it, the node, and those after it. -/
  siblings_eq : ∀ id, s.isRemoved id = false → s.siblings id = (s.prevSiblings id).reverse ++ id :: s.nextSiblings id
  index_eq : ∀ id, s.isRemoved id = false → s.index id = (s.prevSiblings id).length
  prev?_eq : ∀ id, s.prev? id = (s.prevSiblings id).head?
  next?_eq : ∀ id, s.next? id = (s.nextSiblings id).head?
  next?_iff_prev? : ∀ a b, s.next? a = some b ↔ s.prev? b = some a
  /-- The ancestors of a node are its parent and those of the parent, and the node is none of them. -/
  ancestors_of_parent? : ∀ id p, s.parent? id = some p → s.ancestors id = p :: s.ancestors p
  ancestors_of_parentless : ∀ id, s.parent? id = none → s.ancestors id = []
  notMem_ancestors : ∀ id, id ∉ s.ancestors id
  /-- Descendants are listed once each, a node before its own descendants and these before its next sibling. -/
  descendants_eq : ∀ id, s.descendants id = (s.children id).flatMap fun c => c :: s.descendants c
  nodup_descendants : ∀ id, (s.descendants id).Nodup
  mem_descendants : ∀ id j, j ∈ s.descendants id ↔ id ∈ s.ancestors j
  /-- The root is there and has nothing above it. -/
  root : s.isRemoved rootId = false ∧ s.parent? rootId = none

/-- The siblings before and after a node, where it cuts them in two. -/
theorem siblings_of_cut {before after : List Nat} (h : s.siblings id = before ++ id :: after) (hbefore : id ∉ before) :
    s.prevSiblings id = before.reverse ∧ s.nextSiblings id = after := by
  have hne : ∀ i ∈ before, (i != id) = true := fun i hi => by simpa using ne_of_mem_of_not_mem hi hbefore
  constructor
  · rw [prevSiblings, h, List.takeWhile_append_of_pos hne, List.takeWhile_cons_of_neg (by simp), List.append_nil]
  · rw [nextSiblings, h, List.dropWhile_append_of_pos hne, List.dropWhile_cons_of_neg (by simp), List.tail_cons]

/-- A node cuts its siblings in two. -/
theorem exists_cut (h : id ∈ s.siblings id) : ∃ before after, s.siblings id = before ++ id :: after ∧ id ∉ before ∧
    s.prevSiblings id = before.reverse ∧ s.nextSiblings id = after := by
  obtain ⟨before, after, hcut, hbefore⟩ := List.eq_append_cons_of_mem h
  exact ⟨before, after, hcut, hbefore, siblings_of_cut hcut hbefore⟩

theorem prev?_eq (s : Sheet) (id : Nat) : s.prev? id = (s.prevSiblings id).head? := List.head?_reverse.symm

theorem next?_eq (s : Sheet) (id : Nat) : s.next? id = (s.nextSiblings id).head? := rfl

theorem siblings_of_notMem (h : id ∉ s.ids) : s.siblings id = [] := by
  have hnone : s.runs.findSome? (·.runOf? id) = none :=
    List.findSome?_eq_none_iff.2 fun f hf => Forest.runOf?_eq_none fun hid => h (mem_ids_of_mem_runs hf hid)
  rw [siblings, hnone]
  rfl

namespace IsTidy

variable (hs : s.IsTidy)

include hs

theorem siblings_of_parentless (hid : id ∈ s.ids) (h : s.parent? id = none) : s.siblings id = [id] := by
  obtain ⟨f, hf, hidf⟩ := exists_run hid
  obtain ⟨i, n, k, rfl⟩ := hs.tree f hf
  rw [parent?_eq_head?, List.head?_eq_none_iff, hs.numbered.ancestors_run hf hidf] at h
  obtain ⟨is, his⟩ := Option.isSome_iff_exists.1 (Forest.ancestors?_isSome hidf)
  rw [his] at h
  obtain rfl : is = [] := h
  have htop := (Forest.ancestors?_eq_nil (hs.numbered.nodup_of_mem_runs hf)).1 his
  rw [hs.numbered.siblings_run hf hidf, Forest.runOf?_of_mem_tops htop]
  obtain rfl : id = i := by simpa [Forest.tree, Forest.tops] using htop
  rfl

/-- A node is one of its siblings, which are distinct and have the same siblings. -/
theorem siblings_spec (hid : id ∈ s.ids) :
    id ∈ s.siblings id ∧ (s.siblings id).Nodup ∧ ∀ j ∈ s.siblings id, s.siblings j = s.siblings id := by
  cases hparent : s.parent? id with
  | none =>
    rw [hs.siblings_of_parentless hid hparent]
    refine ⟨List.mem_singleton_self id, List.nodup_singleton id, fun j hj => ?_⟩
    rw [List.mem_singleton.1 hj, hs.siblings_of_parentless hid hparent]
  | some p =>
    rw [hs.numbered.siblings_of_parent? hparent]
    refine ⟨hs.numbered.mem_children.2 hparent, hs.numbered.nodup_children p, fun j hj => ?_⟩
    exact hs.numbered.siblings_of_parent? (hs.numbered.mem_children.1 hj)

theorem exists_cut (hid : id ∈ s.ids) : ∃ before after, s.siblings id = before ++ id :: after ∧ id ∉ before ∧
    s.prevSiblings id = before.reverse ∧ s.nextSiblings id = after :=
  Sheet.exists_cut (hs.siblings_spec hid).1

theorem prev?_of_next? (h : s.next? a = some b) : s.prev? b = some a := by
  have ha : a ∈ s.ids := by
    by_contra hnot
    rw [next?, siblings_of_notMem hnot] at h
    cases h
  obtain ⟨before, after, hcut, -, -, hnext⟩ := hs.exists_cut ha
  rw [next?_eq, hnext] at h
  obtain ⟨rest, rfl⟩ := List.head?_eq_some_iff.1 h
  have hnodup := (hs.siblings_spec ha).2.1
  have hb : s.siblings b = before ++ [a] ++ b :: rest := by
    rw [(hs.siblings_spec ha).2.2 b (by rw [hcut]; simp), hcut]
    simp
  rw [hcut, List.append_cons, List.nodup_append] at hnodup
  have hne : ∀ i ∈ before ++ [a], (i != b) = true := fun i hi => by
    simpa using hnodup.2.2 i hi b List.mem_cons_self
  rw [prev?, hb, List.takeWhile_append_of_pos hne, List.takeWhile_cons_of_neg (by simp)]
  simp

theorem next?_of_prev? (h : s.prev? b = some a) : s.next? a = some b := by
  have hb : b ∈ s.ids := by
    by_contra hnot
    rw [prev?, siblings_of_notMem hnot] at h
    cases h
  obtain ⟨before, after, hcut, -, hprev, -⟩ := hs.exists_cut hb
  rw [prev?_eq, hprev, List.head?_reverse] at h
  obtain ⟨rest, rfl⟩ := List.getLast?_eq_some_iff.1 h
  have hnodup := (hs.siblings_spec hb).2.1
  have ha : s.siblings a = rest ++ a :: b :: after := by
    rw [(hs.siblings_spec hb).2.2 a (by rw [hcut]; simp), hcut]
    simp
  rw [hcut, List.append_assoc, List.nodup_append] at hnodup
  have hne : ∀ i ∈ rest, (i != a) = true := fun i hi => by
    simpa using hnodup.2.2 i hi a List.mem_cons_self
  rw [next?, ha, List.dropWhile_append_of_pos hne, List.dropWhile_cons_of_neg (by simp)]
  rfl

theorem root_mem_ids : rootId ∈ s.ids := by
  obtain ⟨n, k, hf⟩ := hs.root
  exact mem_ids_of_mem_runs hf List.mem_cons_self

theorem parent?_root : s.parent? rootId = none := by
  obtain ⟨n, k, hf⟩ := hs.root
  rw [parent?_eq_head?, hs.numbered.ancestors_run hf List.mem_cons_self, Forest.tree, Forest.ancestors?, if_pos rfl]
  rfl

theorem index_eq (hid : id ∈ s.ids) : s.index id = (s.prevSiblings id).length := by
  obtain ⟨before, after, hcut, hbefore, hprev, -⟩ := hs.exists_cut hid
  rw [index, isRemoved_eq_false.2 hid, if_neg Bool.false_ne_true, hcut, hprev, List.idxOf_append_of_notMem hbefore]
  simp

theorem siblings_eq (hid : id ∈ s.ids) : s.siblings id = (s.prevSiblings id).reverse ++ id :: s.nextSiblings id := by
  obtain ⟨before, after, hcut, -, hprev, hnext⟩ := hs.exists_cut hid
  rw [hprev, hnext, List.reverse_reverse]
  exact hcut

/-- In a tidy sheet all answers about the order of nodes agree. -/
theorem isConsistent : s.IsConsistent where
  mem_children _ _ := hs.numbered.mem_children
  nodup_children := hs.numbered.nodup_children
  siblings_of_parent? _ _ := hs.numbered.siblings_of_parent?
  siblings_of_parentless _ hid := hs.siblings_of_parentless (isRemoved_eq_false.1 hid)
  siblings_eq _ hid := hs.siblings_eq (isRemoved_eq_false.1 hid)
  index_eq _ hid := hs.index_eq (isRemoved_eq_false.1 hid)
  prev?_eq := s.prev?_eq
  next?_eq := s.next?_eq
  next?_iff_prev? _ _ := ⟨hs.prev?_of_next?, hs.next?_of_prev?⟩
  ancestors_of_parent? _ _ := hs.numbered.ancestors_of_parent?
  ancestors_of_parentless _ h := ancestors_eq_nil h
  notMem_ancestors := hs.numbered.notMem_ancestors
  descendants_eq := hs.numbered.descendants_eq
  nodup_descendants := hs.numbered.nodup_descendants
  mem_descendants _ _ := hs.numbered.mem_descendants
  root := ⟨isRemoved_eq_false.2 hs.root_mem_ids, hs.parent?_root⟩

end IsTidy

end VendorCss.Sheet
