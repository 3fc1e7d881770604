import VendorCss.Proofs.Forest.Context

/-!
# Parents and children in a forest

Where numbers are distinct, the lookups of a forest agree with each other. The parent of a node is the first of the
nodes above it (`parentUnder_eq`); what stands below a node is looked up in its children (`find?_of_mem_kids`,
`ancestors?_of_mem_kids`), and a node stands below each node above it (`mem_kids_of_mem_ancestors`). The run of a node is
the outermost one or that of its parent's children (`runOf?_of_ancestors`). Taking a subtree out leaves all other numbers
(`ids_perm_erase`).
-/

namespace VendorCss.Forest

variable {id i j : Nat} {f k l r : Forest} {n : Node} {is above run : List Nat} {x : Node × Forest}

/-! ## Distinct numbers -/

/-- The numbers of a run are distinct: that of the first node, those below it and those after it. -/
theorem nodup_cons (hnodup : (cons i n k r).ids.Nodup) :
    i ∉ k.ids ∧ i ∉ r.ids ∧ k.ids.Nodup ∧ r.ids.Nodup ∧ ∀ j ∈ k.ids, j ∉ r.ids := by
  simp only [ids, List.nodup_cons, List.mem_append, not_or, List.nodup_append] at hnodup
  obtain ⟨⟨hik, hir⟩, hk, hr, hdisj⟩ := hnodup
  exact ⟨hik, hir, hk, hr, fun j hjk hjr => hdisj j hjk j hjr rfl⟩

theorem mem_ids_of_find? (h : f.find? id = some x) : id ∈ f.ids := by
  by_contra hnot
  rw [find?_eq_none hnot] at h
  cases h

theorem mem_ids_of_ancestors? (h : f.ancestors? id = some is) : id ∈ f.ids := by
  by_contra hnot
  rw [ancestors?_eq_none hnot] at h
  cases h

theorem ids_sublist_of_find? (h : f.find? id = some (n, k)) : k.ids.Sublist f.ids := by
  have hsub := (nodes_of_find? h).2.map Prod.fst
  rwa [map_fst_nodes, map_fst_nodes] at hsub

theorem nodup_tops (hnodup : f.ids.Nodup) : f.tops.Nodup := by
  induction f with
  | nil => exact List.nodup_nil
  | cons i n k r _ ih =>
    obtain ⟨-, hir, -, hr, -⟩ := nodup_cons hnodup
    exact List.nodup_cons.2 ⟨fun hi => hir (mem_ids_of_mem_tops hi), ih hr⟩

/-! ## Parents -/

/-- The parent of a node is the first of the nodes above it. -/
theorem parentUnder_eq (f : Forest) (id : Nat) (above : Option Nat) :
    f.parentUnder id above = (f.ancestors? id).map fun is => is.head?.or above := by
  induction f generalizing above with
  | nil => rfl
  | cons i n k r ihk ihr =>
    rw [parentUnder, ancestors?, ihk, ihr]
    split
    · rfl
    · cases k.ancestors? id with
      | none => rfl
      | some is => simp

/-- Nothing stands above the nodes of the run itself, and above no others. -/
theorem ancestors?_eq_nil (hnodup : f.ids.Nodup) : f.ancestors? id = some [] ↔ id ∈ f.tops := by
  induction f with
  | nil => simp [ancestors?, tops]
  | cons i n k r _ ih =>
    obtain ⟨hik, hir, -, hr, hdisj⟩ := nodup_cons hnodup
    rw [ancestors?, tops, List.mem_cons, ← ih hr]
    split
    · rename_i hi
      simp [hi]
    · rename_i hi
      rw [or_iff_right (Ne.symm hi)]
      cases hk : k.ancestors? id with
      | none => rfl
      | some is =>
        have hnone : r.ancestors? id = none := ancestors?_eq_none (hdisj id (mem_ids_of_ancestors? hk))
        simp [hnone]

/-! ## What stands below a node -/

/-- What stands below a node is the same in its children and in the forest. -/
theorem find?_of_mem_kids (hnodup : f.ids.Nodup) (h : f.find? id = some (n, k)) (hj : j ∈ k.ids) :
    f.find? j = k.find? j := by
  induction f with
  | nil => cases h
  | cons i m l r ihl ihr =>
    obtain ⟨hil, hir, hl, hr, hdisj⟩ := nodup_cons hnodup
    rw [find?] at h
    rw [find?]
    split at h
    · obtain ⟨rfl, rfl⟩ : m = n ∧ l = k := by simpa using h
      rw [if_neg (ne_of_mem_of_not_mem hj hil).symm, find?_eq_none (hdisj j hj), Option.or_none]
    · rcases Option.or_eq_some_iff.1 h with h | ⟨-, h⟩
      · have hjl : j ∈ l.ids := (ids_sublist_of_find? h).mem hj
        rw [if_neg (ne_of_mem_of_not_mem hjl hil).symm, ihl hl h, find?_eq_none (hdisj j hjl), Option.or_none]
      · have hjr : j ∈ r.ids := (ids_sublist_of_find? h).mem hj
        rw [if_neg (ne_of_mem_of_not_mem hjr hir).symm, find?_eq_none fun hjl => hdisj j hjl hjr, Option.none_or,
          ihr hr h]

/-- Above what stands below a node are the nodes up to it, then the node, then what stands above it. -/
theorem ancestors?_of_mem_kids (hnodup : f.ids.Nodup) (h : f.find? id = some (n, k))
    (habove : f.ancestors? id = some above) (hj : k.ancestors? j = some is) :
    f.ancestors? j = some (is ++ id :: above) := by
  have hjk : j ∈ k.ids := mem_ids_of_ancestors? hj
  induction f generalizing above with
  | nil => cases h
  | cons i m l r ihl ihr =>
    obtain ⟨hil, hir, hl, hr, hdisj⟩ := nodup_cons hnodup
    rw [find?] at h
    rw [ancestors?] at habove ⊢
    split at h
    · rename_i hi
      obtain ⟨rfl, rfl⟩ : m = n ∧ l = k := by simpa using h
      obtain rfl : [] = above := by simpa [hi] using habove
      rw [if_neg (ne_of_mem_of_not_mem hjk hil).symm, hj, hi]
      rfl
    · rename_i hi
      rw [if_neg hi] at habove
      rcases Option.or_eq_some_iff.1 h with h | ⟨-, h⟩
      · have hjl : j ∈ l.ids := (ids_sublist_of_find? h).mem hjk
        obtain ⟨above', habove'⟩ := Option.isSome_iff_exists.1 (ancestors?_isSome (mem_ids_of_find? h))
        obtain rfl : above' ++ [i] = above := by simpa [habove'] using habove
        rw [if_neg (ne_of_mem_of_not_mem hjl hil).symm, ihl hl h habove']
        simp
      · have hjr : j ∈ r.ids := (ids_sublist_of_find? h).mem hjk
        have hidl : id ∉ l.ids := fun hidl => hdisj id hidl (mem_ids_of_find? h)
        rw [ancestors?_eq_none hidl] at habove
        rw [if_neg (ne_of_mem_of_not_mem hjr hir).symm, ancestors?_eq_none fun hjl => hdisj j hjl hjr,
          ihr hr h (by simpa using habove)]
        rfl

/-- A node stands below each node above it. -/
theorem mem_kids_of_mem_ancestors (hnodup : f.ids.Nodup) (h : f.ancestors? j = some is) (hid : id ∈ is) :
    ∃ n k, f.find? id = some (n, k) ∧ j ∈ k.ids := by
  induction f generalizing is with
  | nil => cases h
  | cons i m l r ihl ihr =>
    obtain ⟨hil, hir, hl, hr, hdisj⟩ := nodup_cons hnodup
    rw [ancestors?] at h
    rw [find?]
    split at h
    · cases h
      cases hid
    · rcases Option.or_eq_some_iff.1 h with h | ⟨-, h⟩
      · obtain ⟨js, hjs, rfl⟩ := Option.map_eq_some_iff.1 h
        rcases List.mem_append.1 hid with hid | hid
        · obtain ⟨n, k, hfind, hjk⟩ := ihl hl hjs hid
          refine ⟨n, k, ?_, hjk⟩
          rw [if_neg (ne_of_mem_of_not_mem (mem_ids_of_find? hfind) hil).symm, hfind, Option.some_or]
        · refine ⟨m, l, ?_, mem_ids_of_ancestors? hjs⟩
          rw [if_pos (List.mem_singleton.1 hid).symm]
      · obtain ⟨n, k, hfind, hjk⟩ := ihr hr h hid
        have hidr : id ∈ r.ids := mem_ids_of_find? hfind
        refine ⟨n, k, ?_, hjk⟩
        rw [if_neg (ne_of_mem_of_not_mem hidr hir).symm, find?_eq_none fun hidl => hdisj id hidl hidr, hfind,
          Option.none_or]

/-- A run in document order: each node, and after it what stands below it. -/
theorem ids_eq_flatMap (hnodup : f.ids.Nodup) {below : Nat → List Nat}
    (hbelow : ∀ i n k, f.find? i = some (n, k) → below i = k.ids) : f.ids = f.tops.flatMap fun i => i :: below i := by
  induction f with
  | nil => rfl
  | cons i n k r _ ih =>
    obtain ⟨hik, hir, -, hr, hdisj⟩ := nodup_cons hnodup
    have hrest : r.ids = r.tops.flatMap fun i => i :: below i := by
      refine ih hr fun j m l hfind => hbelow j m l ?_
      have hjr : j ∈ r.ids := mem_ids_of_find? hfind
      rw [find?, if_neg (ne_of_mem_of_not_mem hjr hir).symm, find?_eq_none fun hjk => hdisj j hjk hjr, hfind,
        Option.none_or]
    have hfirst : below i = k.ids := hbelow i n k (by rw [find?, if_pos rfl])
    rw [ids, tops, List.flatMap_cons, ← hrest, hfirst, List.cons_append]

/-! ## Runs -/

theorem runOf?_of_mem_tops (h : id ∈ f.tops) : f.runOf? id = some f.tops := by
  rw [runOf?_eq, if_pos h]

theorem mem_ids_of_below (h : runOf?.below id f = some run) (hi : i ∈ run) : i ∈ f.ids := by
  induction f with
  | nil => cases h
  | cons j n k r ihk ihr =>
    rw [below_cons, runOf?_eq] at h
    rw [ids, List.mem_cons, List.mem_append]
    rcases Option.or_eq_some_iff.1 h with h | ⟨-, h⟩
    · split at h
      · cases h
        exact .inr (.inl (mem_ids_of_mem_tops hi))
      · exact .inr (.inl (ihk h))
    · exact .inr (.inr (ihr h))

theorem mem_ids_of_runOf? (h : f.runOf? id = some run) (hi : i ∈ run) : i ∈ f.ids := by
  rw [runOf?_eq] at h
  split at h
  · cases h
    exact mem_ids_of_mem_tops hi
  · exact mem_ids_of_below h hi

/-- A node below another one has the run that its parent's children are. -/
theorem runOf?_of_ancestors (hnodup : f.ids.Nodup) (h : f.ancestors? j = some (i :: is)) :
    ∃ n k, f.find? i = some (n, k) ∧ j ∈ k.tops ∧ f.runOf? j = some k.tops := by
  induction f generalizing is with
  | nil => cases h
  | cons p m l r ihl ihr =>
    have hj : j ∉ (cons p m l r).tops := fun hj => by
      rw [(ancestors?_eq_nil hnodup).2 hj] at h
      cases h
    obtain ⟨hpl, hpr, hl, hr, hdisj⟩ := nodup_cons hnodup
    rw [ancestors?] at h
    rw [find?, runOf?_eq, if_neg hj, below_cons]
    split at h
    · cases h
    · rcases Option.or_eq_some_iff.1 h with h | ⟨-, h⟩
      · obtain ⟨js, hjs, heq⟩ := Option.map_eq_some_iff.1 h
        cases js with
        | nil =>
          -- the node is a child of the first one of the run
          obtain ⟨rfl, -⟩ := List.cons.inj heq
          have htop : j ∈ l.tops := (ancestors?_eq_nil hl).1 hjs
          exact ⟨m, l, if_pos rfl, htop, by rw [runOf?_of_mem_tops htop, Option.some_or]⟩
        | cons q js =>
          obtain ⟨rfl, -⟩ := List.cons.inj heq
          obtain ⟨n, k, hfind, htop, hrun⟩ := ihl hl hjs
          refine ⟨n, k, ?_, htop, by rw [hrun, Option.some_or]⟩
          rw [if_neg (ne_of_mem_of_not_mem (mem_ids_of_find? hfind) hpl).symm, hfind, Option.some_or]
      · have hjr : j ∈ r.ids := mem_ids_of_ancestors? h
        obtain ⟨n, k, hfind, htop, hrun⟩ := ihr hr h
        have hir : i ∈ r.ids := mem_ids_of_find? hfind
        refine ⟨n, k, ?_, htop, ?_⟩
        · rw [if_neg (ne_of_mem_of_not_mem hir hpr).symm, find?_eq_none fun hil => hdisj i hil hir, hfind,
            Option.none_or]
        · have hnot : j ∉ r.tops := fun hjt => hj (.tail _ hjt)
          rw [runOf?_eq_none fun hjl => hdisj j hjl hjr, Option.none_or]
          rwa [runOf?_eq, if_neg hnot] at hrun

/-! ## A subtree taken out -/

/-- The numbers of a forest are those of a subtree and those that are left without it. -/
theorem ids_perm_erase (hnodup : f.ids.Nodup) (h : f.find? id = some (n, k)) :
    f.ids.Perm (id :: k.ids ++ (f.erase id).ids) := by
  induction f with
  | nil => cases h
  | cons i m l r ihl ihr =>
    obtain ⟨hil, hir, hl, hr, hdisj⟩ := nodup_cons hnodup
    rw [find?] at h
    rw [erase]
    split at h
    · rename_i hi
      obtain ⟨rfl, rfl⟩ : m = n ∧ l = k := by simpa using h
      rw [if_pos hi, ids, hi]
      exact .refl _
    · rename_i hi
      rw [if_neg hi, ids, ids]
      rcases Option.or_eq_some_iff.1 h with h | ⟨-, h⟩
      · have hidr : id ∉ r.ids := hdisj id (mem_ids_of_find? h)
        rw [(editsAt_erase id).of_notMem hidr]
        have hperm := ((ihl hl h).append_right r.ids).cons i
        rw [List.append_assoc] at hperm
        exact hperm.trans List.perm_middle.symm
      · have hidl : id ∉ l.ids := fun hidl => hdisj id hidl (mem_ids_of_find? h)
        rw [(editsAt_erase id).of_notMem hidl]
        have hperm := (((ihr hr h).append_left l.ids).trans (List.perm_append_comm_assoc _ _ _)).cons i
        exact hperm.trans List.perm_middle.symm

end VendorCss.Forest
