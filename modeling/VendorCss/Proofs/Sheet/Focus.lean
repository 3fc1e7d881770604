import VendorCss.Proofs.Forest.Context
import VendorCss.Proofs.Sheet.Kinship

/-!
# Sheets with a gap

A focus is a sheet with a gap in one of its runs; `Focus.sheet` fills the gap with a run. A numbered sheet is split in
this way at each of its nodes (`Sheet.exists_focus`). Lookups and edits at the nodes in the gap see the run there and the
siblings beside it, and the nodes around the gap stay what they are.
-/

namespace VendorCss

/-- A sheet with a gap in one of its runs. -/
structure Focus where
  /-- The runs before the one with the gap. -/
  first : List Forest
  context : Forest.Context
  /-- The runs after it. -/
  last : List Forest

namespace Focus

/-- The sheet with a run in the gap. -/
def sheet (F : Focus) (g : Forest) (next : Nat) : Sheet := ⟨F.first ++ F.context.plug g :: F.last, next⟩

/-- All numbers around the gap. -/
def ids (F : Focus) : List Nat := (Sheet.joinRuns F.first).ids ++ (F.context.ids ++ (Sheet.joinRuns F.last).ids)

variable {F : Focus} {g g' : Forest} {id i next next' : Nat}

/-! ## Numbers -/

theorem mem_ids_joinRuns {runs : List Forest} {f : Forest} (hf : f ∈ runs) (hi : i ∈ f.ids) :
    i ∈ (Sheet.joinRuns runs).ids :=
  Sheet.mem_ids_of_mem_runs (s := ⟨runs, 0⟩) hf hi

theorem notMem_first (h : id ∉ F.ids) {f : Forest} (hf : f ∈ F.first) : id ∉ f.ids := fun hi =>
  h (List.mem_append_left _ (mem_ids_joinRuns hf hi))

theorem notMem_context (h : id ∉ F.ids) : id ∉ F.context.ids := fun hi =>
  h (List.mem_append_right _ (List.mem_append_left _ hi))

theorem notMem_last (h : id ∉ F.ids) {f : Forest} (hf : f ∈ F.last) : id ∉ f.ids := fun hi =>
  h (List.mem_append_right _ (List.mem_append_right _ (mem_ids_joinRuns hf hi)))

theorem ids_joinRuns_append (runs runs' : List Forest) :
    (Sheet.joinRuns (runs ++ runs')).ids = (Sheet.joinRuns runs).ids ++ (Sheet.joinRuns runs').ids := by
  induction runs with
  | nil => rfl
  | cons f runs ih =>
    rw [List.cons_append, Sheet.joinRuns, Forest.ids_append, ih, Sheet.joinRuns, Forest.ids_append, List.append_assoc]

/-- The numbers in the gap stand together among those around it. -/
theorem exists_ids_sheet (F : Focus) :
    ∃ before after, F.ids = before ++ after ∧ ∀ g next, (F.sheet g next).ids = before ++ (g.ids ++ after) := by
  obtain ⟨before, after, hids, hplug⟩ := F.context.exists_ids_plug
  refine ⟨(Sheet.joinRuns F.first).ids ++ before, after ++ (Sheet.joinRuns F.last).ids, ?_, fun g next => ?_⟩
  · rw [Focus.ids, hids]
    simp
  · rw [Sheet.ids, Sheet.whole, sheet, ids_joinRuns_append, Sheet.joinRuns, Forest.ids_append, hplug]
    simp

/-! ## Looking up in the gap -/

theorem findSome?_sheet {α : Type} {look : Forest → Option α} (hfirst : ∀ f ∈ F.first, look f = none)
    (hlast : ∀ f ∈ F.last, look f = none) : (F.sheet g next).runs.findSome? look = look (F.context.plug g) := by
  rw [sheet, List.findSome?_append, List.findSome?_eq_none_iff.2 hfirst, Option.none_or, List.findSome?_cons]
  cases look (F.context.plug g) with
  | some a => rfl
  | none => exact List.findSome?_eq_none_iff.2 hlast

theorem find?_sheet (hid : id ∉ F.ids) : (F.sheet g next).find? id = g.find? id := by
  rw [Sheet.find?, findSome?_sheet (fun f hf => Forest.find?_eq_none (notMem_first hid hf))
    (fun f hf => Forest.find?_eq_none (notMem_last hid hf)), Forest.Context.find?_plug (notMem_context hid)]

/-- The siblings of a node in the gap are the run there with what stands beside it. -/
theorem siblings_sheet (h : id ∈ g.tops) (hid : id ∉ F.ids) :
    (F.sheet g next).siblings id = F.context.left.tops ++ (g.tops ++ F.context.right.tops) := by
  rw [Sheet.siblings, findSome?_sheet (fun f hf => Forest.runOf?_eq_none (notMem_first hid hf))
    (fun f hf => Forest.runOf?_eq_none (notMem_last hid hf)), Forest.Context.runOf?_plug h (notMem_context hid)]
  rfl

theorem ancestors_sheet (h : g.ancestors? id = some []) (hid : id ∉ F.ids) :
    (F.sheet g next).ancestors id = F.context.path := by
  rw [Sheet.ancestors, findSome?_sheet (fun f hf => Forest.ancestors?_eq_none (notMem_first hid hf))
    (fun f hf => Forest.ancestors?_eq_none (notMem_last hid hf)), Forest.Context.ancestors?_plug h (notMem_context hid)]
  rfl

/-! ## Looking up around the gap -/

/-- The nodes around the gap are the same whatever is in it. -/
theorem node?_sheet (hg : id ∉ g.ids) (hg' : id ∉ g'.ids) :
    (F.sheet g next).node? id = (F.sheet g' next').node? id := by
  simp only [Sheet.node?, Sheet.find?, sheet, List.findSome?_append, List.findSome?_cons]
  cases F.first.findSome? (·.find? id) with
  | some found => rfl
  | none =>
    have hplug := F.context.node_plug hg hg'
    simp only [Option.none_or]
    revert hplug
    cases (F.context.plug g).find? id <;> cases (F.context.plug g').find? id <;> simp

theorem path_of_nodup (hnodup : F.ids.Nodup) (hi : i ∈ F.context.path) :
    F.context.ids.Nodup ∧ ∀ f ∈ F.first, i ∉ f.ids := by
  rw [Focus.ids, List.nodup_append] at hnodup
  obtain ⟨-, hrest, hfirst⟩ := hnodup
  refine ⟨(List.nodup_append.1 hrest).1, fun f hf hif => ?_⟩
  exact hfirst i (mem_ids_joinRuns hf hif) i
    (List.mem_append_left _ (Forest.Context.mem_ids_of_mem_path hi)) rfl

/-- A node above the gap has siblings around the gap only. -/
theorem siblings_path (hnodup : F.ids.Nodup) (hi : i ∈ F.context.path) :
    ∃ run, (∀ j ∈ run, j ∈ F.ids) ∧ ∀ g next, (F.sheet g next).siblings i = run := by
  obtain ⟨hcontext, hfirst⟩ := path_of_nodup hnodup hi
  obtain ⟨run, hrun, hfound⟩ := Forest.Context.runOf?_path hcontext hi
  refine ⟨run, fun j hj => List.mem_append_right _ (List.mem_append_left _ (hrun j hj)), fun g next => ?_⟩
  have hnone : F.first.findSome? (·.runOf? i) = none :=
    List.findSome?_eq_none_iff.2 fun f hf => Forest.runOf?_eq_none (hfirst f hf)
  rw [Sheet.siblings, sheet, List.findSome?_append, hnone, Option.none_or, List.findSome?_cons, hfound]
  rfl

/-- The children of a node above the gap are around the gap, or the run in the gap stands among them. -/
theorem children_path (hnodup : F.ids.Nodup) (hi : i ∈ F.context.path) :
    ∃ before after, (∀ j ∈ before ++ after, j ∈ F.ids) ∧
      ((∀ g next, (F.sheet g next).children i = before ++ after) ∨
        ∀ g next, (F.sheet g next).children i = before ++ (g.tops ++ after)) := by
  obtain ⟨hcontext, hfirst⟩ := path_of_nodup hnodup hi
  obtain ⟨n, c, hsub, hfound⟩ := Forest.Context.find?_path hcontext hi
  have hchildren : ∀ g next, (F.sheet g next).children i = (c.plug g).tops := by
    intro g next
    have hnone : F.first.findSome? (·.find? i) = none :=
      List.findSome?_eq_none_iff.2 fun f hf => Forest.find?_eq_none (hfirst f hf)
    have hfind : (F.sheet g next).find? i = some (n, c.plug g) := by
      rw [Sheet.find?, sheet, List.findSome?_append, hnone, Option.none_or, List.findSome?_cons, hfound]
    rw [Sheet.children, Sheet.kids, hfind]
  have hmem : ∀ j ∈ c.ids, j ∈ F.ids := fun j hj =>
    List.mem_append_right _ (List.mem_append_left _ (hsub j hj))
  cases c with
  | here l r =>
    refine ⟨l.tops, r.tops, fun j hj => hmem j ?_, .inr fun g next => ?_⟩
    · rcases List.mem_append.1 hj with hj | hj
      · exact List.mem_append_left _ (Forest.mem_ids_of_mem_tops hj)
      · exact List.mem_append_right _ (Forest.mem_ids_of_mem_tops hj)
    · rw [hchildren, Forest.Context.plug, Forest.tops_append, Forest.tops_append]
  | inside l j n c r =>
    refine ⟨l.tops, j :: r.tops, fun k hk => hmem k ?_, .inl fun g next => ?_⟩
    · rcases List.mem_append.1 hk with hk | hk
      · exact List.mem_append_left _ (Forest.mem_ids_of_mem_tops hk)
      · refine List.mem_append_right _ ?_
        rcases List.mem_cons.1 hk with rfl | hk
        · exact List.mem_cons_self
        · exact .tail _ (List.mem_append_right _ (Forest.mem_ids_of_mem_tops hk))
    · rw [hchildren, Forest.Context.plug, Forest.tops_append]
      rfl

/-! ## Edits in the gap -/

/-- An edit of every run at a node in the gap is an edit of the run there. -/
theorem map_sheet {edit : Forest → Forest} (h : Forest.EditsAt id edit) (hid : id ∉ F.ids) :
    (F.sheet g next).runs.map edit = (F.sheet (edit g) next).runs := by
  have hsame : ∀ runs : List Forest, (∀ f ∈ runs, id ∉ f.ids) → runs.map edit = runs := fun runs hruns =>
    (List.map_congr_left fun f hf => h.of_notMem (hruns f hf)).trans (List.map_id runs)
  rw [sheet, List.map_append, List.map_cons, hsame _ fun f hf => notMem_first hid hf,
    hsame _ fun f hf => notMem_last hid hf, Forest.Context.edit_plug h (notMem_context hid)]
  rfl

theorem modify_sheet (hid : id ∉ F.ids) (f : Node → Node) :
    (F.sheet g next).modify id f = F.sheet (g.modify id f) next := by
  rw [Sheet.modify, map_sheet (Forest.editsAt_modify id f) hid]
  rfl

theorem insertBefore_sheet (hid : id ∉ F.ids) (n : Node) :
    (F.sheet g next).insertBefore id n = F.sheet (Forest.insertBefore id (.tree next n .nil) g) (next + 1) := by
  rw [Sheet.insertBefore, Sheet.insert, Sheet.splice]
  simp only [Sheet.Place.splice]
  rw [map_sheet (Forest.editsAt_insertBefore id _) hid]
  rfl

/-- No run is empty. -/
def IsFilled (F : Focus) : Prop := ∀ f ∈ F.first ++ F.last, f.isNil = false

theorem isNil_plug (C : Forest.Context) (h : g.isNil = false) : (C.plug g).isNil = false := by
  have happend : ∀ l f : Forest, f.isNil = false → (l ++ f).isNil = false := by
    intro l f hf
    cases l with
    | nil => exact hf
    | cons i n k r => rfl
  cases C with
  | here l r =>
    refine happend l _ ?_
    cases g with
    | nil => cases h
    | cons i n k r' => rfl
  | inside l j n c r => exact happend l _ rfl

theorem remove_sheet (hF : F.IsFilled) (hid : id ∉ F.ids) (hroot : id ≠ Sheet.rootId)
    (hleft : (g.erase id).isNil = false) : (F.sheet g next).remove id = F.sheet (g.erase id) next := by
  rw [Sheet.remove, if_neg hroot, Sheet.mapRuns, map_sheet (Forest.editsAt_erase id) hid]
  have hall : ∀ f ∈ (F.sheet (g.erase id) next).runs, (!f.isNil) = true := by
    intro f hf
    rw [sheet, List.mem_append, List.mem_cons] at hf
    rcases hf with hf | rfl | hf
    · rw [hF f (List.mem_append_left _ hf)]
      rfl
    · rw [isNil_plug F.context hleft]
      rfl
    · rw [hF f (List.mem_append_right _ hf)]
      rfl
  rw [List.filter_eq_self.2 hall]
  rfl

end Focus

/-! ## Rows of leaves -/

namespace Forest

variable {xs ys : List (Nat × Node)} {i j : Nat} {m n : Node}

/-- A run of nodes without children. -/
def row : List (Nat × Node) → Forest
  | [] => nil
  | (i, n) :: xs => cons i n nil (row xs)

@[simp] theorem ids_row (xs : List (Nat × Node)) : (row xs).ids = xs.map Prod.fst := by
  induction xs with
  | nil => rfl
  | cons x xs ih => simp [row, ids, ih]

@[simp] theorem tops_row (xs : List (Nat × Node)) : (row xs).tops = xs.map Prod.fst := by
  induction xs with
  | nil => rfl
  | cons x xs ih => simp [row, tops, ih]

theorem find?_row (hnodup : (xs.map Prod.fst).Nodup) (h : (i, n) ∈ xs) : (row xs).find? i = some (n, nil) := by
  induction xs with
  | nil => cases h
  | cons x xs ih =>
    obtain ⟨j, m⟩ := x
    obtain ⟨hj, hnodup⟩ := List.nodup_cons.1 hnodup
    rw [row, find?]
    rcases List.mem_cons.1 h with heq | h
    · obtain ⟨rfl, rfl⟩ := Prod.mk.inj heq
      rw [if_pos rfl]
    · have hne : j ≠ i := by
        rintro rfl
        exact hj (List.mem_map.2 ⟨_, h, rfl⟩)
      rw [if_neg hne, ih hnodup h]
      rfl

theorem ancestors?_row (h : i ∈ xs.map Prod.fst) : (row xs).ancestors? i = some [] := by
  induction xs with
  | nil => cases h
  | cons x xs ih =>
    rw [row, ancestors?]
    split
    · rfl
    · rename_i hne
      rw [List.map_cons, List.mem_cons] at h
      rw [ih (h.resolve_left (Ne.symm hne))]
      rfl

theorem modify_row (hi : i ∉ xs.map Prod.fst) (f : Node → Node) :
    modify i f (row (xs ++ (i, n) :: ys)) = row (xs ++ (i, f n) :: ys) := by
  induction xs with
  | nil => simp [row, modify]
  | cons x xs ih =>
    rw [List.map_cons, List.mem_cons, not_or] at hi
    rw [List.cons_append, row, modify, if_neg (Ne.symm hi.1), ih hi.2]
    rfl

theorem insertBefore_row (hi : i ∉ xs.map Prod.fst) :
    insertBefore i (tree j m nil) (row (xs ++ (i, n) :: ys)) = row (xs ++ (j, m) :: (i, n) :: ys) := by
  induction xs with
  | nil => simp [row, insertBefore, tree]
  | cons x xs ih =>
    rw [List.map_cons, List.mem_cons, not_or] at hi
    rw [List.cons_append, row, insertBefore, if_neg (Ne.symm hi.1), ih hi.2]
    rfl

theorem erase_row : erase i (row ((i, n) :: xs)) = row xs := by
  rw [row, erase, if_pos rfl]

end Forest

namespace Focus

variable {F : Focus} {xs ys : List (Nat × Node)} {i next next' : Nat} {m n : Node}

/-- The sheet with a run of leaves in the gap. -/
def leaves (F : Focus) (xs : List (Nat × Node)) (next : Nat) : Sheet := F.sheet (.row xs) next

/-- The numbers of leaves are different ones, and none of them stands around the gap. -/
structure Fits (F : Focus) (xs : List (Nat × Node)) : Prop where
  nodup : (xs.map Prod.fst).Nodup
  notMem : ∀ i ∈ xs.map Prod.fst, i ∉ F.ids

theorem Fits.tail (h : F.Fits ((i, n) :: xs)) : F.Fits xs where
  nodup := (List.nodup_cons.1 h.nodup).2
  notMem := fun j hj => h.notMem j (.tail _ hj)

theorem Fits.mid (h : F.Fits (xs ++ (i, n) :: ys)) : i ∉ xs.map Prod.fst ∧ i ∉ F.ids := by
  have hnodup := h.nodup
  rw [List.map_append, List.map_cons, List.nodup_append] at hnodup
  exact ⟨fun hi => hnodup.2.2 i hi i List.mem_cons_self rfl, h.notMem i (by simp)⟩

theorem node?_leaves (h : F.Fits xs) (hi : (i, n) ∈ xs) : (F.leaves xs next).node? i = some n := by
  rw [leaves, Sheet.node?, find?_sheet (h.notMem i (List.mem_map_of_mem hi)), Forest.find?_row h.nodup hi]
  rfl

theorem siblings_leaves (h : F.Fits xs) (hi : i ∈ xs.map Prod.fst) : (F.leaves xs next).siblings i =
    F.context.left.tops ++ (xs.map Prod.fst ++ F.context.right.tops) := by
  rw [leaves, siblings_sheet (by rwa [Forest.tops_row]) (h.notMem i hi), Forest.tops_row]

theorem ancestors_leaves (h : F.Fits xs) (hi : i ∈ xs.map Prod.fst) :
    (F.leaves xs next).ancestors i = F.context.path :=
  ancestors_sheet (Forest.ancestors?_row hi) (h.notMem i hi)

/-- The siblings of a leaf, cut at it. -/
theorem siblings_leaves_cut (next : Nat) (xs : List (Nat × Node)) (h : F.Fits (xs ++ (i, n) :: ys)) :
    (F.leaves (xs ++ (i, n) :: ys) next).siblings i =
        (F.context.left.tops ++ xs.map Prod.fst) ++ i :: (ys.map Prod.fst ++ F.context.right.tops) ∧
      i ∉ F.context.left.tops ++ xs.map Prod.fst := by
  constructor
  · rw [siblings_leaves h (by simp)]
    simp
  · intro hi
    rcases List.mem_append.1 hi with hi | hi
    · exact notMem_context h.mid.2 (Forest.Context.mem_ids_of_mem_left (Forest.mem_ids_of_mem_tops hi))
    · exact h.mid.1 hi

/-- The siblings before a leaf, closest first. -/
theorem prevSiblings_leaves (h : F.Fits (xs ++ (i, n) :: ys)) :
    (F.leaves (xs ++ (i, n) :: ys) next).prevSiblings i =
      (xs.map Prod.fst).reverse ++ F.context.left.tops.reverse := by
  obtain ⟨hsiblings, hleft⟩ := siblings_leaves_cut next xs h
  rw [(Sheet.siblings_of_cut hsiblings hleft).1, List.reverse_append]

/-- The siblings after a leaf, closest first. -/
theorem nextSiblings_leaves (h : F.Fits (xs ++ (i, n) :: ys)) :
    (F.leaves (xs ++ (i, n) :: ys) next).nextSiblings i = ys.map Prod.fst ++ F.context.right.tops := by
  obtain ⟨hsiblings, hleft⟩ := siblings_leaves_cut next xs h
  exact (Sheet.siblings_of_cut hsiblings hleft).2

/-- Before the first leaf stands what stands before the gap. -/
theorem prev?_leaves (h : F.Fits ((i, n) :: ys)) :
    (F.leaves ((i, n) :: ys) next).prev? i = F.context.left.tops.getLast? := by
  have hfits : F.Fits ([] ++ (i, n) :: ys) := h
  have hprev : (F.leaves ((i, n) :: ys) next).prevSiblings i = F.context.left.tops.reverse := prevSiblings_leaves hfits
  rw [Sheet.prev?_eq, hprev, List.head?_reverse]

theorem modify_leaves (h : F.Fits (xs ++ (i, n) :: ys)) (f : Node → Node) :
    (F.leaves (xs ++ (i, n) :: ys) next).modify i f = F.leaves (xs ++ (i, f n) :: ys) next := by
  rw [leaves, modify_sheet h.mid.2, Forest.modify_row h.mid.1, leaves]

theorem insertBefore_leaves (h : F.Fits (xs ++ (i, n) :: ys)) (m : Node) :
    (F.leaves (xs ++ (i, n) :: ys) next).insertBefore i m =
      F.leaves (xs ++ (next, m) :: (i, n) :: ys) (next + 1) := by
  rw [leaves, insertBefore_sheet h.mid.2, Forest.insertBefore_row h.mid.1, leaves]

/-- The first leaf goes, and one is left. -/
theorem remove_leaves (hF : F.IsFilled) (h : F.Fits ((i, n) :: xs)) (hroot : i ≠ Sheet.rootId) (hxs : xs ≠ []) :
    (F.leaves ((i, n) :: xs) next).remove i = F.leaves xs next := by
  have hleft : ((Forest.row ((i, n) :: xs)).erase i).isNil = false := by
    rw [Forest.erase_row]
    cases xs with
    | nil => exact absurd rfl hxs
    | cons x xs => rfl
  rw [leaves, remove_sheet hF (h.notMem i List.mem_cons_self) hroot hleft, Forest.erase_row, leaves]

end Focus

namespace Sheet

variable {s : Sheet} {id : Nat} {n : Node} {k : Forest}

/-- A numbered sheet is split at each of its nodes. -/
theorem exists_focus (hs : s.IsNumbered) (h : s.find? id = some (n, k)) :
    ∃ F : Focus, s = F.sheet (.tree id n k) s.next ∧ id ∉ F.ids ∧ F.ids.Nodup ∧ (∀ i ∈ F.ids, i < s.next) ∧
      ∀ f ∈ F.first ++ F.last, f ∈ s.runs := by
  obtain ⟨f, hf, hfound⟩ := List.exists_of_findSome?_eq_some h
  obtain ⟨first, last, hruns⟩ := List.append_of_mem hf
  have hid : id ∈ f.ids := by
    by_contra hnot
    rw [Forest.find?_eq_none hnot] at hfound
    cases hfound
  obtain ⟨C, m, k', hplug⟩ := Forest.Context.exists_plug hid
  have hsheet : s = Focus.sheet ⟨first, C, last⟩ (.tree id m k') s.next := by
    rw [Focus.sheet, ← hplug, ← hruns]
  obtain ⟨before, after, hids, hgap⟩ := Focus.exists_ids_sheet ⟨first, C, last⟩
  have hall : s.ids = before ++ ((Forest.tree id m k').ids ++ after) := by
    rw [← hgap _ s.next, ← hsheet]
  have hsub : (before ++ after).Sublist s.ids := by
    rw [hall]
    exact (List.Sublist.refl _).append (List.sublist_append_right _ _)
  have hnot : id ∉ (⟨first, C, last⟩ : Focus).ids := by
    have hnodup := hs.nodup
    rw [hall, List.nodup_append] at hnodup
    rw [hids, List.mem_append]
    rintro (hbefore | hafter)
    · exact hnodup.2.2 id hbefore id (by simp [Forest.tree, Forest.ids]) rfl
    · exact (List.nodup_append.1 hnodup.2.1).2.2 id (by simp [Forest.tree, Forest.ids]) id hafter rfl
  have hfind : s.find? id = some (m, k') := by
    rw [hsheet, Focus.find?_sheet hnot, Forest.tree, Forest.find?, if_pos rfl]
  obtain ⟨rfl, rfl⟩ := Prod.mk.inj (Option.some.inj (h.symm.trans hfind))
  refine ⟨⟨first, C, last⟩, hsheet, hnot, ?_, fun i hi => hs.lt_next i (hsub.mem (hids ▸ hi)), fun f hf => ?_⟩
  · rw [hids]
    exact hsub.nodup hs.nodup
  · rw [hruns]
    rcases List.mem_append.1 hf with hf | hf
    · exact List.mem_append_left _ hf
    · exact List.mem_append_right _ (.tail _ hf)

end Sheet

end VendorCss
