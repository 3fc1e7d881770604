import VendorCss.Proofs.Forest.Context
import VendorCss.Proofs.Sheet.Growth

/-!
# Sheets with nodes changed in place

One edit may be made at some numbers of a sheet (`mapAt`). The tree stays as it is, so what is looked up beside the nodes
stays too. Changing the nodes of some numbers one after the other is changing them at once (`Sheet.modify_mapAt`).
-/

namespace VendorCss

namespace Forest

variable {is js : List Nat} {edit : Node → Node} {f : Forest} {id i : Nat}

/-- The nodes of some numbers changed in place. -/
def mapAt (is : List Nat) (edit : Node → Node) : Forest → Forest
  | nil => nil
  | cons i n k r => cons i (if i ∈ is then edit n else n) (mapAt is edit k) (mapAt is edit r)

theorem mapAt_cons (n : Node) (k r : Forest) : mapAt is edit (cons i n k r) =
    cons i (if i ∈ is then edit n else n) (mapAt is edit k) (mapAt is edit r) := rfl

/-! ## What stays -/

@[simp] theorem ids_mapAt : (f.mapAt is edit).ids = f.ids := by
  induction f with
  | nil => rfl
  | cons i n k r ihk ihr => simp [mapAt_cons, ids, ihk, ihr]

@[simp] theorem tops_mapAt : (f.mapAt is edit).tops = f.tops := by
  induction f with
  | nil => rfl
  | cons i n k r _ ihr => simp [mapAt_cons, tops, ihr]

@[simp] theorem ancestors?_mapAt : (f.mapAt is edit).ancestors? id = f.ancestors? id := by
  induction f with
  | nil => rfl
  | cons i n k r ihk ihr => simp [mapAt_cons, ancestors?, ihk, ihr]

@[simp] theorem runOf?_mapAt : (f.mapAt is edit).runOf? id = f.runOf? id := by
  have hbelow : ∀ f : Forest, runOf?.below id (f.mapAt is edit) = runOf?.below id f := by
    intro f
    induction f with
    | nil => rfl
    | cons i n k r ihk ihr => simp [mapAt_cons, runOf?.below, ihk, ihr]
  rw [runOf?_eq, runOf?_eq, tops_mapAt, hbelow]

theorem find?_mapAt : (f.mapAt is edit).find? id =
    (f.find? id).map fun (n, k) => (if id ∈ is then edit n else n, k.mapAt is edit) := by
  induction f with
  | nil => rfl
  | cons i n k r ihk ihr =>
    rw [mapAt_cons, find?, find?]
    split
    · rename_i hi
      rw [hi]
      rfl
    · rw [ihk, ihr, Option.map_or]

/-! ## Edits one after the other and at once -/

theorem mapAt_nil : f.mapAt [] edit = f := by
  induction f with
  | nil => rfl
  | cons i n k r ihk ihr => simp [mapAt_cons, ihk, ihr]

theorem mapAt_congr (h : ∀ j ∈ f.ids, j ∈ is ↔ j ∈ js) : f.mapAt is edit = f.mapAt js edit := by
  induction f with
  | nil => rfl
  | cons i n k r ihk ihr =>
    simp only [ids, List.mem_cons, List.mem_append] at h
    simp only [mapAt_cons, h i (.inl rfl), ihk fun j hj => h j (.inr (.inl hj)), ihr fun j hj => h j (.inr (.inr hj))]

/-- An edit counts only for the node that it is made at. -/
theorem modify_congr {edit' : Node → Node} (h : ∀ n, (id, n) ∈ f.nodes → edit n = edit' n) :
    f.modify id edit = f.modify id edit' := by
  induction f with
  | nil => rfl
  | cons i n k r ihk ihr =>
    simp only [nodes, List.mem_cons, List.mem_append] at h
    rw [modify, modify, ihk fun m hm => h m (.inr (.inl hm)), ihr fun m hm => h m (.inr (.inr hm))]
    split
    · rename_i hi
      rw [h n (.inl (by rw [hi]))]
    · rfl

/-- Two edits of one node. -/
theorem modify_modify (edit edit' : Node → Node) :
    (f.modify i edit).modify i edit' = f.modify i fun n => edit' (edit n) := by
  induction f with
  | nil => rfl
  | cons j n k r ihk ihr =>
    by_cases hj : j = i
    · simp [modify, hj]
    · simp [modify, hj, ihk, ihr]

/-- The node that is edited is found edited. -/
theorem find?_modify (edit : Node → Node) :
    (f.modify i edit).find? i = (f.find? i).map fun (n, k) => (edit n, k) := by
  induction f with
  | nil => rfl
  | cons j n k r ihk ihr =>
    rw [modify, find?]
    split
    · rename_i hj
      rw [find?, if_pos hj]
      rfl
    · rename_i hj
      rw [find?, if_neg hj, ihk, ihr, Option.map_or]

theorem modify_self : f.modify i (fun n => n) = f := by
  induction f with
  | nil => rfl
  | cons j n k r ihk ihr => simp [modify, ihk, ihr]

/-- One more node changed. -/
theorem modify_mapAt (hnodup : f.ids.Nodup) (hi : i ∉ is) :
    (f.mapAt is edit).modify i edit = f.mapAt (i :: is) edit := by
  induction f with
  | nil => rfl
  | cons j n k r ihk ihr =>
    simp only [ids, List.nodup_cons, List.mem_append, not_or, List.nodup_append] at hnodup
    obtain ⟨⟨hjk, hjr⟩, hk, hr, -⟩ := hnodup
    rw [mapAt_cons, modify, mapAt_cons]
    split
    · rename_i hji
      subst hji
      have hrest : ∀ {g : Forest}, j ∉ g.ids → g.mapAt is edit = g.mapAt (j :: is) edit := fun hj =>
        mapAt_congr fun l hl => by simp [show l ≠ j from fun heq => hj (heq ▸ hl)]
      rw [if_neg hi, if_pos List.mem_cons_self, hrest hjk, hrest hjr]
    · rename_i hji
      rw [ihk hk, ihr hr]
      simp [hji]

/-- Nothing changes only where the edit leaves each of the nodes alone. -/
theorem mapAt_eq_self_iff : f.mapAt is edit = f ↔ ∀ x ∈ f.nodes, x.1 ∈ is → edit x.2 = x.2 := by
  induction f with
  | nil => simp [mapAt, nodes]
  | cons i n k r ihk ihr => simp [mapAt_cons, nodes, ihk, ihr, or_imp, forall_and]

end Forest

namespace Sheet

variable {s : Sheet} {is : List Nat} {edit : Node → Node} {id i : Nat}

/-- The nodes of some numbers changed in place. -/
def mapAt (is : List Nat) (edit : Node → Node) (s : Sheet) : Sheet :=
  { s with runs := s.runs.map (Forest.mapAt is edit) }

theorem find?_mapAt : (s.mapAt is edit).find? id =
    (s.find? id).map fun (n, k) => (if id ∈ is then edit n else n, k.mapAt is edit) := by
  unfold find? mapAt
  induction s.runs with
  | nil => rfl
  | cons f runs ih =>
    rw [List.map_cons, List.findSome?_cons, List.findSome?_cons, Forest.find?_mapAt, ih]
    cases f.find? id <;> rfl

@[simp] theorem descendants_mapAt : (s.mapAt is edit).descendants id = s.descendants id := by
  unfold descendants kids
  rw [find?_mapAt]
  cases s.find? id with
  | none => rfl
  | some x => exact Forest.ids_mapAt

@[simp] theorem children_mapAt : (s.mapAt is edit).children id = s.children id := by
  unfold children kids
  rw [find?_mapAt]
  cases s.find? id with
  | none => rfl
  | some x => exact Forest.tops_mapAt

@[simp] theorem ancestors_mapAt : (s.mapAt is edit).ancestors id = s.ancestors id := by
  have hrun : (fun f : Forest => f.ancestors? id) ∘ Forest.mapAt is edit = fun f => f.ancestors? id :=
    funext fun _ => Forest.ancestors?_mapAt
  unfold ancestors mapAt
  rw [List.findSome?_map, hrun]

@[simp] theorem siblings_mapAt : (s.mapAt is edit).siblings id = s.siblings id := by
  have hrun : (fun f : Forest => f.runOf? id) ∘ Forest.mapAt is edit = fun f => f.runOf? id :=
    funext fun _ => Forest.runOf?_mapAt
  unfold siblings mapAt
  rw [List.findSome?_map, hrun]

theorem node?_mapAt : (s.mapAt is edit).node? id = (s.node? id).map fun n => if id ∈ is then edit n else n := by
  unfold node?
  rw [find?_mapAt, Option.map_map, Option.map_map]
  rfl

theorem IsNumbered.mapAt (hs : s.IsNumbered) (is : List Nat) (edit : Node → Node) : (s.mapAt is edit).IsNumbered := by
  have hids : (s.mapAt is edit).ids = s.ids := ids_joinRuns_map (fun _ => Forest.ids_mapAt) s.runs
  exact ⟨by rw [hids]; exact hs.nodup, by rw [hids]; exact hs.lt_next⟩

/-- An edit counts only for the node that it is made at. -/
theorem modify_congr {edit' : Node → Node} (hs : s.IsNumbered) (h : ∀ n, s.node? id = some n → edit n = edit' n) :
    s.modify id edit = s.modify id edit' :=
  congrArg₂ Sheet.mk
    (List.map_congr_left fun _ hf => Forest.modify_congr fun n hn => h n (hs.node?_eq (mem_nodes_of_mem_runs hf hn)))
    rfl

/-- An edit that leaves a node alone leaves the sheet as it is. -/
theorem modify_eq_self (hs : s.IsNumbered) (h : ∀ n, s.node? id = some n → edit n = n) : s.modify id edit = s := by
  have hid : Forest.modify id (fun n => n) = fun f => f := funext fun _ => Forest.modify_self
  rw [modify_congr hs h, modify, hid, List.map_id']

theorem modify_modify (edit edit' : Node → Node) :
    (s.modify i edit).modify i edit' = s.modify i fun n => edit' (edit n) := by
  simp only [modify, List.map_map]
  exact congrArg₂ Sheet.mk (List.map_congr_left fun f _ => Forest.modify_modify edit edit') rfl

theorem node?_modify (edit : Node → Node) : (s.modify i edit).node? i = (s.node? i).map edit := by
  have hfind : (s.modify i edit).find? i = (s.find? i).map fun (n, k) => (edit n, k) := by
    unfold find? modify
    induction s.runs with
    | nil => rfl
    | cons f runs ih =>
      rw [List.map_cons, List.findSome?_cons, List.findSome?_cons, Forest.find?_modify, ih]
      cases f.find? i <;> rfl
  unfold node?
  rw [hfind, Option.map_map, Option.map_map]
  rfl

theorem mapAt_nil : s.mapAt [] edit = s := by
  have hid : Forest.mapAt [] edit = id := funext fun _ => Forest.mapAt_nil
  rw [mapAt, hid, List.map_id]

/-- One more node changed. -/
theorem modify_mapAt (hs : s.IsNumbered) (hi : i ∉ is) : (s.mapAt is edit).modify i edit = s.mapAt (i :: is) edit := by
  have hruns : ∀ f ∈ s.runs, (f.mapAt is edit).modify i edit = f.mapAt (i :: is) edit := fun f hf =>
    Forest.modify_mapAt (hs.nodup_of_mem_runs hf) hi
  simp only [modify, mapAt, List.map_map]
  exact congrArg₂ Sheet.mk (List.map_congr_left hruns) rfl

theorem mapAt_congr {js : List Nat} (h : ∀ j ∈ s.ids, j ∈ is ↔ j ∈ js) : s.mapAt is edit = s.mapAt js edit :=
  congrArg₂ Sheet.mk
    (List.map_congr_left fun _ hf => Forest.mapAt_congr fun j hj => h j (mem_ids_of_mem_runs hf hj)) rfl

/-- Nothing changes only where the edit leaves each of the nodes alone. -/
theorem mapAt_eq_self_iff : s.mapAt is edit = s ↔ ∀ x ∈ s.nodes, x.1 ∈ is → edit x.2 = x.2 := by
  have hsheet : s.mapAt is edit = s ↔ s.runs.map (Forest.mapAt is edit) = s.runs.map id := by
    cases s
    simp [mapAt]
  rw [hsheet, List.map_inj_left, nodes, Sheet.whole, nodes_joinRuns]
  simp only [id, Forest.mapAt_eq_self_iff, List.mem_flatMap]
  exact ⟨fun h x hx => hx.elim fun f hf => h f hf.1 x hf.2, fun h f hf x hx => h x ⟨f, hf, hx⟩⟩

end Sheet

end VendorCss
