import Mathlib.Data.List.Nodup
import VendorCss.Proofs.Forest.Basic

/-!
# Forests with a gap

A context is a forest with a gap in one of its runs, and `plug` fills the gap with a run. Every node that stands in a
forest stands in a gap of it (`exists_plug`). Once a forest is split in this way, what happens to the nodes in the gap is
told by the run in it alone: an edit at such a node (`edit_plug`), and what a lookup finds (`find?_plug`). What stands
around the gap is told by the context alone: the siblings beside it, the nodes above it, and what is beside those.
-/

namespace VendorCss.Forest

variable {id i : Nat} {f g : Forest}

/-! ## Numbers of a run -/

@[simp] theorem tops_append (f g : Forest) : (f ++ g).tops = f.tops ++ g.tops := by
  induction f with
  | nil => rfl
  | cons i n k r _ ih => simp [tops, ih]

theorem mem_ids_of_mem_tops (h : i ∈ f.tops) : i ∈ f.ids := by
  induction f with
  | nil => cases h
  | cons j n k r _ ih =>
    rw [tops, List.mem_cons] at h
    rw [ids, List.mem_cons, List.mem_append]
    exact h.imp_right fun h => .inr (ih h)

theorem append_assoc (f g h : Forest) : f ++ g ++ h = f ++ (g ++ h) := by
  induction f with
  | nil => rfl
  | cons i n k r _ ih => simp [ih]

/-! ## Siblings -/

/-- The run of a node is the run itself or stands below it. -/
theorem runOf?_eq (f : Forest) (id : Nat) :
    f.runOf? id = if id ∈ f.tops then some f.tops else runOf?.below id f := by
  induction f with
  | nil => rfl
  | cons i n k r ihk _ =>
    by_cases h : id ∈ (cons i n k r).tops
    · rw [runOf?, if_pos (by simpa using h), if_pos h]
    · rw [runOf?, if_neg (by simpa using h), if_neg h, runOf?.below, ihk]
      simp only [List.contains_eq_mem, decide_eq_true_eq]

theorem below_append (f g : Forest) (id : Nat) :
    runOf?.below id (f ++ g) = (runOf?.below id f).or (runOf?.below id g) := by
  induction f with
  | nil => rfl
  | cons i n k r _ ih => simp only [cons_append, runOf?.below, ih, Option.or_assoc]

theorem below_cons (i : Nat) (n : Node) (k r : Forest) (id : Nat) :
    runOf?.below id (cons i n k r) = (k.runOf? id).or (runOf?.below id r) := by
  rw [runOf?.below, runOf?_eq]
  simp only [List.contains_eq_mem, decide_eq_true_eq]

theorem below_eq_none (h : id ∉ f.ids) : runOf?.below id f = none := by
  induction f with
  | nil => rfl
  | cons i n k r ihk ihr =>
    simp only [ids, List.mem_cons, List.mem_append, not_or] at h
    obtain ⟨-, hk, hr⟩ := h
    rw [below_cons, runOf?_eq, if_neg fun htop => hk (mem_ids_of_mem_tops htop), ihk hk, ihr hr, Option.or_none]

theorem runOf?_eq_none (h : id ∉ f.ids) : f.runOf? id = none := by
  rw [runOf?_eq, if_neg fun htop => h (mem_ids_of_mem_tops htop), below_eq_none h]

/-! ## Nodes above -/

theorem ancestors?_eq_none (h : id ∉ f.ids) : f.ancestors? id = none := by
  induction f with
  | nil => rfl
  | cons i n k r ihk ihr =>
    simp only [ids, List.mem_cons, List.mem_append, not_or] at h
    obtain ⟨hi, hk, hr⟩ := h
    simp [ancestors?, Ne.symm hi, ihk hk, ihr hr]

theorem ancestors?_append (f g : Forest) (id : Nat) :
    (f ++ g).ancestors? id = (f.ancestors? id).or (g.ancestors? id) := by
  induction f with
  | nil => rfl
  | cons i n k r _ ih =>
    simp only [cons_append, ancestors?, ih]
    split
    · rfl
    · rw [Option.or_assoc]

/-! ## Edits at a number -/

/-- The edit changes a forest at the nodes of a number only, and there nothing of what follows in the run. -/
structure EditsAt (id : Nat) (edit : Forest → Forest) : Prop where
  nil : edit nil = nil
  here : ∀ n k r r', edit (cons id n k (r ++ r')) = edit (cons id n k r) ++ r'
  there : ∀ i n k r, i ≠ id → edit (cons i n k r) = cons i n (edit k) (edit r)

theorem editsAt_modify (id : Nat) (f : Node → Node) : EditsAt id (modify id f) where
  nil := rfl
  here := fun n k r r' => by simp [modify]
  there := fun i n k r hi => by rw [modify, if_neg hi]

theorem editsAt_insertBefore (id : Nat) (new : Forest) : EditsAt id (insertBefore id new) where
  nil := rfl
  here := fun n k r r' => by
    rw [insertBefore, insertBefore, if_pos rfl, if_pos rfl, append_assoc, cons_append]
  there := fun i n k r hi => by rw [insertBefore, if_neg hi]

theorem editsAt_insertAfter (id : Nat) (new : Forest) : EditsAt id (insertAfter id new) where
  nil := rfl
  here := fun n k r r' => by
    rw [insertAfter, insertAfter, if_pos rfl, if_pos rfl, cons_append, append_assoc]
  there := fun i n k r hi => by rw [insertAfter, if_neg hi]

theorem editsAt_erase (id : Nat) : EditsAt id (erase id) where
  nil := rfl
  here := fun n k r r' => by simp [erase]
  there := fun i n k r hi => by rw [erase, if_neg hi]

namespace EditsAt

variable {edit : Forest → Forest}

theorem of_notMem (h : EditsAt id edit) (hid : id ∉ f.ids) : edit f = f := by
  induction f with
  | nil => exact h.nil
  | cons i n k r ihk ihr =>
    simp only [ids, List.mem_cons, List.mem_append, not_or] at hid
    obtain ⟨hi, hk, hr⟩ := hid
    rw [h.there i n k r (Ne.symm hi), ihk hk, ihr hr]

theorem append_right (h : EditsAt id edit) (hid : id ∉ f.ids) : edit (f ++ g) = f ++ edit g := by
  induction f with
  | nil => rfl
  | cons i n k r _ ih =>
    simp only [ids, List.mem_cons, List.mem_append, not_or] at hid
    obtain ⟨hi, hk, hr⟩ := hid
    rw [cons_append, h.there i n k _ (Ne.symm hi), h.of_notMem hk, ih hr, cons_append]

theorem append_left (h : EditsAt id edit) (hid : id ∉ g.ids) : edit (f ++ g) = edit f ++ g := by
  induction f with
  | nil => rw [nil_append, h.of_notMem hid, h.nil, nil_append]
  | cons i n k r _ ih =>
    by_cases hi : i = id
    · subst hi
      rw [cons_append, h.here]
    · rw [cons_append, h.there i n k _ hi, ih, h.there i n k r hi, cons_append]

end EditsAt

/-! ## Contexts -/

/-- A forest with a gap in one of its runs. -/
inductive Context
  /-- The gap between two parts of the run itself. -/
  | here (left right : Forest)
  /-- The gap below a node of the run. -/
  | inside (left : Forest) (id : Nat) (node : Node) (kids : Context) (right : Forest)

namespace Context

/-- The forest with a run in the gap. -/
def plug (g : Forest) : Context → Forest
  | here l r => l ++ (g ++ r)
  | inside l i n c r => l ++ cons i n (c.plug g) r

/-- All numbers around the gap. -/
def ids : Context → List Nat
  | here l r => l.ids ++ r.ids
  | inside l i _ c r => l.ids ++ i :: (c.ids ++ r.ids)

/-- The part of the run before the gap. -/
def left : Context → Forest
  | here l _ => l
  | inside _ _ _ c _ => c.left

/-- The part of the run after the gap. -/
def right : Context → Forest
  | here _ r => r
  | inside _ _ _ c _ => c.right

/-- The numbers from the node around the gap upwards. -/
def path : Context → List Nat
  | here _ _ => []
  | inside _ i _ c _ => c.path ++ [i]

variable {C : Context}

theorem mem_ids_of_mem_left (h : i ∈ C.left.ids) : i ∈ C.ids := by
  induction C with
  | here l r => exact List.mem_append_left _ h
  | inside l j n c r ih => exact List.mem_append_right _ (.tail _ (List.mem_append_left _ (ih h)))

theorem mem_ids_of_mem_path (h : i ∈ C.path) : i ∈ C.ids := by
  induction C with
  | here l r => cases h
  | inside l j n c r ih =>
    rw [path, List.mem_append, List.mem_singleton] at h
    refine List.mem_append_right _ ?_
    rcases h with h | rfl
    · exact .tail _ (List.mem_append_left _ (ih h))
    · exact List.mem_cons_self

/-- The numbers of the run in the gap stand together among those around it. -/
theorem exists_ids_plug (C : Context) :
    ∃ before after, C.ids = before ++ after ∧ ∀ g, (C.plug g).ids = before ++ (g.ids ++ after) := by
  induction C with
  | here l r => exact ⟨l.ids, r.ids, rfl, fun g => by simp [plug]⟩
  | inside l j n c r ih =>
    obtain ⟨before, after, hids, hplug⟩ := ih
    refine ⟨l.ids ++ j :: before, after ++ r.ids, ?_, fun g => ?_⟩
    · simp [ids, hids]
    · simp [plug, Forest.ids, hplug]

/-- Every node of a forest stands in a gap of it. -/
theorem exists_plug (h : id ∈ f.ids) : ∃ C n k, f = plug (tree id n k) C := by
  induction f with
  | nil => cases h
  | cons i n k r ihk ihr =>
    rw [Forest.ids, List.mem_cons, List.mem_append] at h
    rcases h with rfl | h | h
    · exact ⟨here nil r, n, k, rfl⟩
    · obtain ⟨C, m, k', hk⟩ := ihk h
      exact ⟨inside nil i n C r, m, k', by rw [hk]; rfl⟩
    · obtain ⟨C, m, k', hr⟩ := ihr h
      cases C with
      | here l r' => exact ⟨here (cons i n k l) r', m, k', by rw [hr]; rfl⟩
      | inside l j n' c r' => exact ⟨inside (cons i n k l) j n' c r', m, k', by rw [hr]; rfl⟩

/-! ### What is in the gap -/

/-- An edit at a node in the gap is an edit of the run in it. -/
theorem edit_plug {edit : Forest → Forest} (h : EditsAt id edit) (hid : id ∉ C.ids) :
    edit (C.plug g) = C.plug (edit g) := by
  induction C with
  | here l r =>
    rw [ids, List.mem_append, not_or] at hid
    rw [Context.plug, h.append_right hid.1, h.append_left hid.2, Context.plug]
  | inside l j n c r ih =>
    simp only [ids, List.mem_append, List.mem_cons, not_or] at hid
    obtain ⟨hl, hj, hc, hr⟩ := hid
    rw [Context.plug, h.append_right hl, h.there j n _ r (Ne.symm hj), ih hc, h.of_notMem hr, Context.plug]

theorem find?_plug (hid : id ∉ C.ids) : (C.plug g).find? id = g.find? id := by
  induction C with
  | here l r =>
    rw [ids, List.mem_append, not_or] at hid
    rw [plug, find?_append, find?_append, find?_eq_none hid.1, find?_eq_none hid.2, Option.none_or, Option.or_none]
  | inside l j n c r ih =>
    simp only [ids, List.mem_append, List.mem_cons, not_or] at hid
    obtain ⟨hl, hj, hc, hr⟩ := hid
    rw [plug, find?_append, find?_eq_none hl, Option.none_or, find?, if_neg (Ne.symm hj), ih hc, find?_eq_none hr,
      Option.or_none]

theorem runOf?_plug (h : id ∈ g.tops) (hid : id ∉ C.ids) :
    (C.plug g).runOf? id = some (C.left.tops ++ (g.tops ++ C.right.tops)) := by
  induction C with
  | here l r =>
    rw [plug, runOf?_eq, if_pos (by simp [h]), tops_append, tops_append]
    rfl
  | inside l j n c r ih =>
    simp only [ids, List.mem_append, List.mem_cons, not_or] at hid
    obtain ⟨hl, hj, hc, hr⟩ := hid
    have htops : id ∉ (l ++ cons j n (c.plug g) r).tops := by
      simp only [tops_append, tops, List.mem_append, List.mem_cons, not_or]
      exact ⟨fun hm => hl (mem_ids_of_mem_tops hm), hj, fun hm => hr (mem_ids_of_mem_tops hm)⟩
    rw [plug, runOf?_eq, if_neg htops, below_append, below_eq_none hl, Option.none_or, below_cons, ih hc, Option.some_or]
    rfl

/-- The nodes above the gap are those of the path. -/
theorem ancestors?_plug (h : g.ancestors? id = some []) (hid : id ∉ C.ids) :
    (C.plug g).ancestors? id = some C.path := by
  induction C with
  | here l r =>
    rw [ids, List.mem_append, not_or] at hid
    rw [plug, ancestors?_append, ancestors?_eq_none hid.1, Option.none_or, ancestors?_append, h, Option.some_or]
    rfl
  | inside l j n c r ih =>
    simp only [ids, List.mem_append, List.mem_cons, not_or] at hid
    obtain ⟨hl, hj, hc, hr⟩ := hid
    rw [plug, ancestors?_append, ancestors?_eq_none hl, Option.none_or, ancestors?, if_neg (Ne.symm hj), ih hc]
    rfl

/-! ### What stands around the gap -/

/-- The nodes around the gap are the same whatever is in it. -/
theorem node_plug {g' : Forest} (hg : id ∉ g.ids) (hg' : id ∉ g'.ids) :
    ((C.plug g).find? id).map Prod.fst = ((C.plug g').find? id).map Prod.fst := by
  induction C with
  | here l r =>
    rw [plug, plug, find?_append, find?_append, find?_append, find?_append, find?_eq_none hg, find?_eq_none hg']
  | inside l j n c r ih =>
    rw [plug, plug, find?_append, find?_append]
    cases l.find? id with
    | some found => rfl
    | none =>
      rw [Option.none_or, Option.none_or, find?, find?]
      split
      · rfl
      · revert ih
        cases (c.plug g).find? id <;> cases (c.plug g').find? id <;> simp

theorem notMem_of_mem_path {l r c} {j : Nat} {n : Node} (hnodup : (inside l j n c r).ids.Nodup) (hi : i ∈ c.path) :
    i ∉ l.ids ∧ i ≠ j ∧ i ∉ r.ids ∧ c.ids.Nodup := by
  have hmem := mem_ids_of_mem_path hi
  rw [ids, List.nodup_append] at hnodup
  obtain ⟨-, hrest, hleft⟩ := hnodup
  obtain ⟨hj, hrest⟩ := List.nodup_cons.1 hrest
  rw [List.nodup_append] at hrest
  obtain ⟨hc, -, hright⟩ := hrest
  refine ⟨fun hl => hleft i hl i (.tail _ (List.mem_append_left _ hmem)) rfl, ?_, fun hr => hright i hmem i hr rfl, hc⟩
  rintro rfl
  exact hj (List.mem_append_left _ hmem)

theorem notMem_of_nodup {l r c} {j : Nat} {n : Node} (hnodup : (inside l j n c r).ids.Nodup) : j ∉ l.ids := by
  rw [ids, List.nodup_append] at hnodup
  exact fun hl => hnodup.2.2 j hl j List.mem_cons_self rfl

/-- A node above the gap stands in a run that is the same whatever is in the gap. -/
theorem runOf?_path (hnodup : C.ids.Nodup) (hi : i ∈ C.path) :
    ∃ run, (∀ j ∈ run, j ∈ C.ids) ∧ ∀ g, (C.plug g).runOf? i = some run := by
  induction C with
  | here l r => cases hi
  | inside l j n c r ih =>
    rw [path, List.mem_append, List.mem_singleton] at hi
    rcases hi with hi | rfl
    · obtain ⟨hl, hj, hr, hc⟩ := notMem_of_mem_path hnodup hi
      obtain ⟨run, hrun, hfound⟩ := ih hc hi
      refine ⟨run, fun k hk => List.mem_append_right _ (.tail _ (List.mem_append_left _ (hrun k hk))), fun g => ?_⟩
      have htops : i ∉ (l ++ cons j n (c.plug g) r).tops := by
        simp only [tops_append, tops, List.mem_append, List.mem_cons, not_or]
        exact ⟨fun hm => hl (mem_ids_of_mem_tops hm), hj, fun hm => hr (mem_ids_of_mem_tops hm)⟩
      rw [plug, runOf?_eq, if_neg htops, below_append, below_eq_none hl, Option.none_or, below_cons, hfound,
        Option.some_or]
    · refine ⟨l.tops ++ i :: r.tops, fun k hk => ?_, fun g => ?_⟩
      · rw [List.mem_append, List.mem_cons] at hk
        simp only [ids, List.mem_append, List.mem_cons]
        rcases hk with hk | rfl | hk
        · exact .inl (mem_ids_of_mem_tops hk)
        · exact .inr (.inl rfl)
        · exact .inr (.inr (.inr (mem_ids_of_mem_tops hk)))
      · rw [plug, runOf?_eq, if_pos (by simp [tops]), tops_append]
        rfl

/-- A node above the gap has a part of the context around the gap below it. -/
theorem find?_path (hnodup : C.ids.Nodup) (hi : i ∈ C.path) :
    ∃ (n : Node) (c : Context), (∀ j ∈ c.ids, j ∈ C.ids) ∧ ∀ g, (C.plug g).find? i = some (n, c.plug g) := by
  induction C with
  | here l r => cases hi
  | inside l j n c r ih =>
    have hbelow : ∀ k ∈ c.ids, k ∈ (inside l j n c r).ids := fun k hk =>
      List.mem_append_right _ (.tail _ (List.mem_append_left _ hk))
    rw [path, List.mem_append, List.mem_singleton] at hi
    rcases hi with hi | rfl
    · obtain ⟨hl, hj, hr, hc⟩ := notMem_of_mem_path hnodup hi
      obtain ⟨m, c', hsub, hfound⟩ := ih hc hi
      refine ⟨m, c', fun k hk => hbelow k (hsub k hk), fun g => ?_⟩
      rw [plug, find?_append, find?_eq_none hl, Option.none_or, find?, if_neg (Ne.symm hj), hfound, Option.some_or]
    · refine ⟨n, c, hbelow, fun g => ?_⟩
      rw [plug, find?_append, find?_eq_none (notMem_of_nodup hnodup), Option.none_or, find?, if_pos rfl]

end Context

end VendorCss.Forest
