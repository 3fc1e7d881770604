import Mathlib.Logic.Relation
import VendorCss.Css.Sheet.Parser
import VendorCss.Proofs.Sheet.Growth
import VendorCss.Proofs.Sheet.Kinship
import VendorCss.Proofs.Sheet.Numbering
import VendorCss.Proofs.Sheet.Shrinking

/-!
# Sequences of edits

An edit makes a node, puts a new one or a copy somewhere, moves a subtree, takes subtrees away, or changes a node in
place. `Edit.outcome` says what each of them does to the runs of a sheet; that a numbered sheet stays numbered, that a
tidy one stays tidy and that no number comes back are read off it.

Whatever sequence of edits a parsed sheet goes through, all answers about the order of its nodes agree, and a number that
was removed is in none of them (`parse_edited_isConsistent`).
-/

namespace VendorCss

namespace Forest

theorem ids_tree (id : Nat) (n : Node) (k : Forest) : (tree id n k).ids = id :: k.ids := by
  rw [tree, ids, ids, List.append_nil]

theorem renumber_tree (id : Nat) (n : Node) (k : Forest) (next : Nat) :
    (tree id n k).renumber next = (tree next n (k.renumber (next + 1)).1, (k.renumber (next + 1)).2) := rfl

end Forest

namespace Sheet

/-! ## Edits -/

/-- The node beside which a place is, if any. -/
def Place.neighbour? : Place → Option Nat
  | before a | after a => some a
  | appended _ | prepended _ => none

/-- What can be asked of a sheet. -/
inductive Edit
  | create (node : Node)
  | insert (place : Place) (node : Node)
  | move (place : Place) (id : Nat)
  | clone (id : Nat)
  | cloneBefore (id : Nat) (change : Node → Node)
  | cloneAfter (id : Nat) (change : Node → Node)
  | remove (id : Nat)
  | removeChildren (id : Nat)
  | modify (id : Nat) (change : Node → Node)

namespace Edit

/-- An answer with the sheet after it; without one the sheet stays. -/
def answerOr (s : Sheet) : Option (Nat × Sheet) → Option Nat × Sheet
  | some (id, s') => (some id, s')
  | none => (none, s)

/-- The number of the node that an edit makes, and the sheet after it. -/
def run (s : Sheet) : Edit → Option Nat × Sheet
  | create n => answerOr s (s.create n)
  | insert place n => answerOr s (s.insert place n)
  | move place id => (none, s.move place id)
  | clone id => answerOr s (s.clone? id)
  | cloneBefore id change => answerOr s (s.cloneBefore? id change)
  | cloneAfter id change => answerOr s (s.cloneAfter? id change)
  | remove id => (none, s.remove id)
  | removeChildren id => (none, s.removeChildren id)
  | modify id change => (none, s.modify id change)

/-- The numbers that an edit names. -/
def names : Edit → List Nat
  | create _ => []
  | insert place _ => [place.anchor]
  | move place id => [place.anchor, id]
  | clone id | cloneBefore id _ | cloneAfter id _ | remove id | removeChildren id | modify id _ => [id]

/-- The node that gets a new sibling, if the edit names it. -/
def neighbour? : Edit → Option Nat
  | insert place _ | move place _ => place.neighbour?
  | cloneBefore id _ | cloneAfter id _ => some id
  | create _ | clone _ | remove _ | removeChildren _ | modify _ _ => none

/-- What the edit moves is not the root, and its new place is outside of it. -/
def movesOut (s : Sheet) : Edit → Bool
  | move place id => id != rootId && place.anchor != id && !(s.descendants id).contains place.anchor
  | _ => true

/-- The nodes named are there, a node goes beside one that has a parent, the root stays where it is, and no subtree goes
into itself. -/
structure IsAllowed (s : Sheet) (e : Edit) : Prop where
  live : ∀ i ∈ e.names, s.isRemoved i = false
  parent : ∀ a ∈ e.neighbour?, (s.parent? a).isSome = true
  outside : e.movesOut s = true

instance (s : Sheet) (e : Edit) : Decidable (e.IsAllowed s) :=
  decidable_of_iff ((∀ i ∈ e.names, s.isRemoved i = false) ∧ (∀ a ∈ e.neighbour?, (s.parent? a).isSome = true) ∧
      e.movesOut s = true)
    ⟨fun ⟨live, parent, outside⟩ => ⟨live, parent, outside⟩, fun h => ⟨h.live, h.parent, h.outside⟩⟩

/-- What an edit does: nothing, a new tree of its own, a new tree at a place, a subtree at another place, some subtrees
taken away, or a node changed. -/
inductive Outcome (s : Sheet) (e : Edit) : Option Nat × Sheet → Prop
  | kept : Outcome s e (none, s)
  | added {n : Node} {k : Forest} {next : Nat} (hnew : s.IsFresh (.tree s.next n k) next) :
      Outcome s e (some s.next, ⟨s.runs ++ [.tree s.next n k], next⟩)
  | put {place : Place} {n : Node} {k : Forest} {next : Nat} (hnew : s.IsFresh (.tree s.next n k) next)
      (hanchor : place.anchor ∈ e.names) (hbeside : ∀ a ∈ place.neighbour?, a ∈ e.neighbour?) :
      Outcome s e (some s.next, { s.splice place (.tree s.next n k) with next })
  | moved {place : Place} {id : Nat} {n : Node} {k : Forest} (he : e = .move place id)
      (hfind : s.find? id = some (n, k)) :
      Outcome s e (none, (s.mapRuns (·.erase id)).splice place (.tree id n k))
  | removed {is : List Nat} (his : ∀ i ∈ is, i ∈ e.names ∨ ∃ p ∈ e.names, i ∈ s.children p) :
      Outcome s e (none, is.foldl Sheet.remove s)
  | modified {id : Nat} (hid : id ∈ e.names) (change : Node → Node) : Outcome s e (none, s.modify id change)

theorem outcome (s : Sheet) (e : Edit) : e.Outcome s (e.run s) := by
  have hcopy (id : Nat) (change : Node → Node) : s.copyOf? id change = none ∨ ∃ n k next,
      s.copyOf? id change = some (.tree s.next n k, next) ∧ s.IsFresh (.tree s.next n k) next := by
    rw [copyOf?]
    cases s.find? id with
    | none => exact .inl rfl
    | some x => exact .inr ⟨_, _, _, rfl, s.isFresh_renumber (.tree id (change x.1) x.2)⟩
  cases e with
  | create n => exact .added (s.isFresh_tree n)
  | insert place n => exact .put (s.isFresh_tree n) (List.mem_singleton_self _) fun _ ha => ha
  | move place id =>
    rw [run, Sheet.move]
    cases hfind : s.find? id with
    | none => exact .kept
    | some x => exact .moved rfl hfind
  | clone id =>
    rw [run, clone?]
    rcases hcopy id fun n => n with hnone | ⟨n, k, next, hsome, hnew⟩
    · rw [hnone]
      exact .kept
    · rw [hsome]
      exact .added hnew
  | cloneBefore id change =>
    rw [run, cloneBefore?]
    rcases hcopy id change with hnone | ⟨n, k, next, hsome, hnew⟩
    · rw [hnone]
      exact .kept
    · rw [hsome]
      have hput : Outcome s (.cloneBefore id change)
          (some s.next, { s.splice (.before id) (.tree s.next n k) with next }) :=
        .put hnew (List.mem_singleton_self id) fun _ ha => ha
      exact hput
  | cloneAfter id change =>
    rw [run, cloneAfter?]
    rcases hcopy id change with hnone | ⟨n, k, next, hsome, hnew⟩
    · rw [hnone]
      exact .kept
    · rw [hsome]
      have hput : Outcome s (.cloneAfter id change)
          (some s.next, { s.splice (.after id) (.tree s.next n k) with next }) :=
        .put hnew (List.mem_singleton_self id) fun _ ha => ha
      exact hput
  | remove id =>
    have his : ∀ i ∈ [id], i ∈ (remove id).names := fun i hi => hi
    exact .removed fun i hi => .inl (his i hi)
  | removeChildren id =>
    have hid : id ∈ (removeChildren id).names := List.mem_singleton_self id
    exact .removed fun i hi => .inr ⟨id, hid, hi⟩
  | modify id change => exact .modified (List.mem_singleton_self id) change

end Edit

variable {s s' s'' : Sheet} {id i p next : Nat} {f k new : Forest} {n : Node} {e : Edit} {place : Place}

/-! ## Numbers -/

theorem ids_addRun (s : Sheet) (new : Forest) (next : Nat) :
    ids ⟨s.runs ++ [new], next⟩ = s.ids ++ new.ids := by
  have happend : ∀ runs : List Forest, joinRuns (runs ++ [new]) = joinRuns runs ++ new := fun runs => by
    induction runs with
    | nil => exact Forest.append_nil new
    | cons f runs ih => rw [List.cons_append, joinRuns, ih, joinRuns, Forest.append_assoc]
  rw [ids, Sheet.whole, happend, Forest.ids_append]
  rfl

theorem IsNumbered.addRun (hs : s.IsNumbered) (hnew : s.IsFresh new next) :
    IsNumbered ⟨s.runs ++ [new], next⟩ where
  nodup := by
    rw [ids_addRun]
    exact hs.nodup.append hnew.nodup fun i hold hi => Nat.not_le.2 (hs.lt_next i hold) (hnew.le i hi)
  lt_next := fun i hi => by
    rw [ids_addRun] at hi
    rcases List.mem_append.1 hi with hi | hi
    · exact Nat.lt_of_lt_of_le (hs.lt_next i hi) hnew.next_le
    · exact hnew.lt i hi

/-- An edit at a number is the same in a run and in all runs together. -/
theorem joinRuns_map {edit : Forest → Forest} (h : Forest.EditsAt id edit) {runs : List Forest}
    (hnodup : (joinRuns runs).ids.Nodup) : joinRuns (runs.map edit) = edit (joinRuns runs) := by
  induction runs with
  | nil => exact h.nil.symm
  | cons f runs ih =>
    rw [joinRuns, Forest.ids_append, List.nodup_append] at hnodup
    obtain ⟨-, hrest, hdisj⟩ := hnodup
    rw [List.map_cons, joinRuns, joinRuns, ih hrest]
    by_cases hid : id ∈ f.ids
    · have hnot : id ∉ (joinRuns runs).ids := fun hmem => hdisj id hid id hmem rfl
      rw [h.append_left hnot, h.of_notMem hnot]
    · rw [h.append_right hid, h.of_notMem hid]

theorem IsNumbered.erase (hs : s.IsNumbered) (id : Nat) : (s.mapRuns (·.erase id)).IsNumbered :=
  (shrinks_erase (R := fun _ => Eq) (fun _ _ => rfl) s id).isNumbered hs

/-- The numbers of a sheet are those of a subtree and those that are left without it. -/
theorem IsNumbered.ids_perm_erase (hs : s.IsNumbered) (h : s.find? id = some (n, k)) :
    s.ids.Perm ((Forest.tree id n k).ids ++ (s.mapRuns (·.erase id)).ids) := by
  rw [find?_eq] at h
  have hwhole : (s.mapRuns (·.erase id)).ids = (s.whole.erase id).ids := by
    rw [ids, Sheet.whole, mapRuns, joinRuns_filter, joinRuns_map (Forest.editsAt_erase id) hs.nodup]
    rfl
  rw [hwhole, Forest.ids_tree]
  exact Forest.ids_perm_erase hs.nodup h

/-- A subtree that is taken out has none of the numbers that are left. -/
theorem IsNumbered.moved_spec (hs : s.IsNumbered) (h : s.find? id = some (n, k)) :
    (Forest.tree id n k).ids.Nodup ∧
      ∀ j ∈ (Forest.tree id n k).ids, j ∉ (s.mapRuns (·.erase id)).ids ∧ j ∈ s.ids := by
  have hperm := hs.ids_perm_erase h
  obtain ⟨htree, -, hdisj⟩ := List.nodup_append.1 (hperm.nodup_iff.1 hs.nodup)
  exact ⟨htree, fun j hj => ⟨fun hleft => hdisj j hj j hleft rfl, hperm.mem_iff.2 (List.mem_append_left _ hj)⟩⟩

theorem IsNumbered.moved (hs : s.IsNumbered) (h : s.find? id = some (n, k)) (place : Place) :
    ((s.mapRuns (·.erase id)).splice place (.tree id n k)).IsNumbered := by
  obtain ⟨hnodup, hnew⟩ := hs.moved_spec h
  exact (hs.erase id).splice_of_notMem hnodup (fun j hj => ⟨(hnew j hj).1, hs.lt_next j (hnew j hj).2⟩)
    (Nat.le_refl _) place

theorem IsNumbered.foldl_remove (hs : s.IsNumbered) (is : List Nat) : (is.foldl remove s).IsNumbered := by
  induction is generalizing s with
  | nil => exact hs
  | cons i is ih =>
    exact ih ((shrinks_remove (R := fun _ => Eq) (fun _ _ => rfl) s i).isNumbered hs)

/-- A numbered sheet stays numbered. -/
theorem IsNumbered.run (hs : s.IsNumbered) (e : Edit) : (e.run s).2.IsNumbered := by
  generalize hresult : e.run s = result
  cases hresult ▸ e.outcome s with
  | kept => exact hs
  | added hnew => exact hs.addRun hnew
  | @put place n k next hnew => exact hs.splice hnew place
  | @moved place id n k he hfind => exact hs.moved hfind place
  | removed => exact hs.foldl_remove _
  | @modified id hid change => exact hs.modify id change

/-- Numbers go up, and one that is not there is not used again. -/
structure Follows (s s' : Sheet) : Prop where
  next_le : s.next ≤ s'.next
  mem_ids : ∀ i ∈ s'.ids, i ∈ s.ids ∨ s.next ≤ i

theorem Follows.refl (s : Sheet) : s.Follows s := ⟨Nat.le_refl _, fun _ hi => .inl hi⟩

theorem Follows.trans (h : s.Follows s') (h' : s'.Follows s'') : s.Follows s'' where
  next_le := Nat.le_trans h.next_le h'.next_le
  mem_ids i hi := (h'.mem_ids i hi).elim (h.mem_ids i) fun hle => .inr (Nat.le_trans h.next_le hle)

theorem Shrinks.follows {R : Nat → Node → Node → Prop} (h : s.Shrinks R s') : s.Follows s' where
  next_le := Nat.le_of_eq h.next_eq.symm
  mem_ids _ hi := .inl (h.whole.ids_sublist.mem hi)

theorem mem_ids_splice (h : i ∈ ids { s.splice place new with next }) : i ∈ s.ids ∨ i ∈ new.ids := by
  rw [ids, ← Forest.map_fst_nodes] at h
  obtain ⟨x, hx, rfl⟩ := List.mem_map.1 h
  have hnode : x ∈ nodes { s.splice place new with next } := hx
  exact (mem_nodes_splice hnode).imp Forest.mem_ids_of_mem_nodes Forest.mem_ids_of_mem_nodes

theorem follows_foldl_remove (s : Sheet) (is : List Nat) : s.Follows (is.foldl remove s) := by
  induction is generalizing s with
  | nil => exact .refl s
  | cons i is ih =>
    have hshrinks : s.Shrinks (fun _ => Eq) (s.remove i) := shrinks_remove (fun _ _ => rfl) s i
    exact hshrinks.follows.trans (ih _)

/-- No edit brings a number back, and one that makes a node answers with a new number. -/
theorem IsNumbered.follows_run (hs : s.IsNumbered) (e : Edit) :
    s.Follows (e.run s).2 ∧ ∀ i ∈ (e.run s).1, s.next ≤ i := by
  generalize hresult : e.run s = result
  cases hresult ▸ e.outcome s with
  | kept => exact ⟨.refl s, nofun⟩
  | @added n k next hnew =>
    refine ⟨⟨hnew.next_le, fun i hi => ?_⟩, fun i hi => Nat.le_of_eq (Option.mem_some.1 hi)⟩
    rw [ids_addRun, List.mem_append] at hi
    exact hi.imp_right (hnew.le i)
  | put hnew =>
    refine ⟨⟨hnew.next_le, fun i hi => ?_⟩, fun i hi => Nat.le_of_eq (Option.mem_some.1 hi)⟩
    exact (mem_ids_splice hi).imp_right (hnew.le i)
  | @moved place id n k he hfind =>
    refine ⟨⟨Nat.le_refl _, fun i hi => .inl ?_⟩, nofun⟩
    have hshrinks : s.Shrinks (fun _ => Eq) (s.mapRuns (·.erase id)) := shrinks_erase (fun _ _ => rfl) s id
    have hmem : i ∈ ids { (s.mapRuns (·.erase id)).splice place (.tree id n k) with next := s.next } := hi
    rcases mem_ids_splice hmem with hi | hi
    · exact hshrinks.whole.ids_sublist.mem hi
    · exact ((hs.moved_spec hfind).2 i hi).2
  | removed => exact ⟨follows_foldl_remove s _, nofun⟩
  | @modified id hid change =>
    refine ⟨⟨Nat.le_refl _, fun i hi => .inl ?_⟩, nofun⟩
    rwa [ids_modify] at hi

/-! ## Tidy sheets -/

/-- An edit of every run that keeps each of them one tree keeps the sheet tidy. -/
theorem IsTidy.map (hs : s.IsTidy) {edit : Forest → Forest} (hnumbered : IsNumbered ⟨s.runs.map edit, next⟩)
    (hedit : ∀ i n k, .tree i n k ∈ s.runs → ∃ n' k', edit (.tree i n k) = .tree i n' k') :
    IsTidy ⟨s.runs.map edit, next⟩ where
  numbered := hnumbered
  tree f hf := by
    obtain ⟨g, hg, rfl⟩ := List.mem_map.1 hf
    obtain ⟨i, n, k, rfl⟩ := hs.tree g hg
    exact ⟨i, hedit i n k hg⟩
  root := by
    obtain ⟨n, k, hroot⟩ := hs.root
    obtain ⟨n', k', heq⟩ := hedit rootId n k hroot
    exact ⟨n', k', heq ▸ List.mem_map_of_mem hroot⟩

theorem IsTidy.addRun (hs : s.IsTidy) (hnew : s.IsFresh (.tree i n k) next) :
    IsTidy ⟨s.runs ++ [.tree i n k], next⟩ where
  numbered := hs.numbered.addRun hnew
  tree f hf := by
    rcases List.mem_append.1 hf with hf | hf
    · exact hs.tree f hf
    · exact ⟨i, n, k, List.mem_singleton.1 hf⟩
  root := by
    obtain ⟨m, l, hroot⟩ := hs.root
    exact ⟨m, l, List.mem_append_left _ hroot⟩

/-- What goes into a tree, and not beside its top, leaves one tree. -/
theorem splice_tree (h : ∀ a ∈ place.neighbour?, a ≠ i) (new : Forest) (n : Node) (k : Forest) :
    ∃ k', place.splice new (.tree i n k) = .tree i n k' := by
  cases place with
  | before a =>
    have hne : i ≠ a := (h a rfl).symm
    exact ⟨Forest.insertBefore a new k, by rw [Place.splice, Forest.tree, Forest.insertBefore, if_neg hne]; rfl⟩
  | after a =>
    have hne : i ≠ a := (h a rfl).symm
    exact ⟨Forest.insertAfter a new k, by rw [Place.splice, Forest.tree, Forest.insertAfter, if_neg hne]; rfl⟩
  | appended p =>
    rw [Place.splice, Forest.tree, Forest.appendTo]
    split
    · exact ⟨_, rfl⟩
    · exact ⟨_, rfl⟩
  | prepended p =>
    rw [Place.splice, Forest.tree, Forest.prependTo]
    split
    · exact ⟨_, rfl⟩
    · exact ⟨_, rfl⟩

theorem IsTidy.splice (hs : s.IsTidy) (hnumbered : IsNumbered { s.splice place new with next })
    (hbeside : ∀ a ∈ place.neighbour?, ∀ i n k, .tree i n k ∈ s.runs → a ≠ i) :
    IsTidy { s.splice place new with next } :=
  hs.map hnumbered fun i n k hf =>
    ⟨n, splice_tree (fun a ha => hbeside a ha i n k hf) new n k⟩

/-- The top of a tree has no parent. -/
theorem IsTidy.ne_top (hs : s.IsTidy) (h : (s.parent? p).isSome = true) (hf : .tree i n k ∈ s.runs) : p ≠ i := by
  rintro rfl
  have hmem : p ∈ (Forest.tree p n k).ids := List.mem_cons_self
  rw [parent?_eq_head?, hs.numbered.ancestors_run hf hmem, Forest.tree, Forest.ancestors?, if_pos rfl] at h
  cases h

/-- A tree is left without a subtree, as far as it is left. -/
theorem mem_runs_erase (hs : s.IsTidy) (hf : f ∈ (s.mapRuns (·.erase id)).runs) :
    ∃ i n k, f = .tree i n k ∧ ∃ k', .tree i n k' ∈ s.runs := by
  obtain ⟨hmem, hleft⟩ := List.mem_filter.1 hf
  obtain ⟨g, hg, rfl⟩ := List.mem_map.1 hmem
  obtain ⟨i, n, k, rfl⟩ := hs.tree g hg
  rw [Forest.tree, Forest.erase] at hleft ⊢
  split at hleft
  · cases hleft
  · rename_i hne
    rw [if_neg hne]
    exact ⟨i, n, k.erase id, rfl, k, hg⟩

theorem IsTidy.erase (hs : s.IsTidy) (hid : id ≠ rootId) : (s.mapRuns (·.erase id)).IsTidy where
  numbered := hs.numbered.erase id
  tree f hf := by
    obtain ⟨i, n, k, rfl, -⟩ := mem_runs_erase hs hf
    exact ⟨i, n, k, rfl⟩
  root := by
    obtain ⟨n, k, hroot⟩ := hs.root
    refine ⟨n, k.erase id, List.mem_filter.2 ⟨List.mem_map.2 ⟨_, hroot, ?_⟩, rfl⟩⟩
    rw [Forest.tree, Forest.erase, if_neg hid.symm]
    rfl

theorem IsTidy.foldl_remove (hs : s.IsTidy) (is : List Nat) : (is.foldl remove s).IsTidy := by
  induction is generalizing s with
  | nil => exact hs
  | cons i is ih =>
    refine ih ?_
    rw [remove]
    split
    · exact hs
    · exact hs.erase ‹_›

theorem IsTidy.modify (hs : s.IsTidy) (id : Nat) (change : Node → Node) : (s.modify id change).IsTidy :=
  hs.map (hs.numbered.modify id change) fun i n k _ => by
    rw [Forest.tree, Forest.modify]
    split
    · exact ⟨_, _, rfl⟩
    · exact ⟨_, _, rfl⟩

/-- A tidy sheet stays tidy. -/
theorem IsTidy.run (hs : s.IsTidy) (h : e.IsAllowed s) : (e.run s).2.IsTidy := by
  generalize hresult : e.run s = result
  cases hresult ▸ e.outcome s with
  | kept => exact hs
  | added hnew => exact hs.addRun hnew
  | @put place n k next hnew _ hbeside =>
    exact hs.splice (hs.numbered.splice hnew place) fun a ha i n k hf => hs.ne_top (h.parent a (hbeside a ha)) hf
  | @moved place id n k he hfind =>
    have hroot : id ≠ rootId := by
      have houtside := h.outside
      rw [he, Edit.movesOut, Bool.and_eq_true, Bool.and_eq_true, bne_iff_ne] at houtside
      exact houtside.1.1
    have hmoved : IsNumbered { (s.mapRuns (·.erase id)).splice place (.tree id n k) with next := s.next } :=
      hs.numbered.moved hfind place
    refine (hs.erase hroot).splice hmoved fun a ha i m l hf => ?_
    obtain ⟨j, m', l', heq, l'', hrun⟩ := mem_runs_erase hs hf
    obtain ⟨rfl, rfl, -⟩ := Forest.cons.inj heq
    exact hs.ne_top (h.parent a (by rw [he]; exact ha)) hrun
  | removed => exact hs.foldl_remove _
  | @modified id hid change => exact hs.modify id change

theorem isTidy_parse (t : Text) : (parse t).IsTidy where
  numbered := isNumbered_parse t
  tree _ hf := ⟨rootId, _, _, List.mem_singleton.1 hf⟩
  root := ⟨_, _, List.mem_singleton_self _⟩

/-! ## Answers -/

/-- Some answer of the sheet has a number in it. -/
inductive Mentions (s : Sheet) (id : Nat) : Prop
  | parent? (of : Nat) (h : s.parent? of = some id)
  | firstChild? (of : Nat) (h : s.firstChild? of = some id)
  | prev? (of : Nat) (h : s.prev? of = some id)
  | next? (of : Nat) (h : s.next? of = some id)
  | children (of : Nat) (h : id ∈ s.children of)
  | siblings (of : Nat) (h : id ∈ s.siblings of)
  | prevSiblings (of : Nat) (h : id ∈ s.prevSiblings of)
  | nextSiblings (of : Nat) (h : id ∈ s.nextSiblings of)
  | ancestors (of : Nat) (h : id ∈ s.ancestors of)
  | descendants (of : Nat) (h : id ∈ s.descendants of)
  | descendantsWhere (of : Nat) (keep : Node → Bool) (h : id ∈ s.descendantsWhere of keep)
  | childDeclarations (of : Nat) (h : id ∈ s.childDeclarations of)
  | findDeclaration? (of : Nat) (prop : Text) (h : s.findDeclaration? of prop = some id)

theorem mem_ids_of_mem_kids (h : i ∈ (s.kids id).ids) : i ∈ s.ids := by
  have hsub := (s.nodes_kids_sublist id).map Prod.fst
  rw [nodes, Forest.map_fst_nodes, Forest.map_fst_nodes] at hsub
  exact hsub.mem h

theorem mem_ids_of_mem_childDeclarations (h : i ∈ s.childDeclarations id) : i ∈ s.ids := by
  obtain ⟨⟨j, d⟩, hmem, rfl⟩ := List.mem_map.1 h
  obtain ⟨n, hn, -⟩ := exists_of_mem_childDeclarationsOf hmem
  exact Forest.mem_ids_of_mem_nodes hn

/-- Answers speak of what is there. -/
theorem Mentions.mem_ids (h : s.Mentions id) : id ∈ s.ids := by
  cases h with
  | parent? of h =>
    rw [parent?_eq_head?] at h
    exact mem_ids_of_mem_ancestors (List.mem_of_mem_head? h)
  | firstChild? of h => exact mem_ids_of_mem_kids (Forest.mem_ids_of_mem_tops (List.mem_of_mem_head? h))
  | prev? of h =>
    rw [prev?_eq] at h
    exact mem_ids_of_mem_prevSiblings (List.mem_of_mem_head? h)
  | next? of h => exact mem_ids_of_mem_nextSiblings (List.mem_of_mem_head? h)
  | children of h => exact mem_ids_of_mem_kids (Forest.mem_ids_of_mem_tops h)
  | siblings of h => exact mem_ids_of_mem_siblings h
  | prevSiblings of h => exact mem_ids_of_mem_prevSiblings h
  | nextSiblings of h => exact mem_ids_of_mem_nextSiblings h
  | ancestors of h => exact mem_ids_of_mem_ancestors h
  | descendants of h => exact mem_ids_of_mem_kids h
  | descendantsWhere of keep h =>
    obtain ⟨x, hx, rfl⟩ := List.mem_map.1 h
    exact mem_ids_of_mem_kids (Forest.mem_ids_of_mem_nodes (List.mem_filter.1 hx).1)
  | childDeclarations of h => exact mem_ids_of_mem_childDeclarations h
  | findDeclaration? of prop h =>
    obtain ⟨x, hx, rfl⟩ := Option.map_eq_some_iff.1 h
    exact mem_ids_of_mem_childDeclarations (List.mem_map_of_mem (List.mem_of_find?_eq_some hx))

/-! ## Sequences of edits -/

/-- The second sheet comes from the first one by edits that are allowed, one after the other. -/
def Edited : Sheet → Sheet → Prop := Relation.ReflTransGen fun s s' => ∃ e : Edit, e.IsAllowed s ∧ (e.run s).2 = s'

theorem IsTidy.edited (hs : s.IsTidy) (h : s.Edited s') : s'.IsTidy := by
  induction h with
  | refl => exact hs
  | tail _ hstep ih =>
    obtain ⟨e, hallowed, rfl⟩ := hstep
    exact ih.run hallowed

theorem IsTidy.follows_edited (hs : s.IsTidy) (h : s.Edited s') : s.Follows s' := by
  induction h with
  | refl => exact .refl s
  | tail hsteps hstep ih =>
    obtain ⟨e, -, rfl⟩ := hstep
    exact ih.trans ((hs.edited hsteps).numbered.follows_run e).1

end Sheet

end VendorCss
