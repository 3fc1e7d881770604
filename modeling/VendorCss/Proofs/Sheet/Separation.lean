import VendorCss.Proofs.Sheet.Edits

/-!
# Copies are separate

A copy stands in a run of its own, with numbers of its own. What a sheet answers about a node is told by the run of that
node (`sameAnswers_of_run`), and a run none of whose nodes an edit names is left as it is (`mem_runs_run`). So a sheet
has two parts, the original and the copy, as long as no edit names nodes of both: every run belongs to one of them
(`IsParted`), and edits of one part change no answer about the other (`clone?_separate`).
-/

namespace VendorCss

namespace Forest

theorem hasStatement_renumber (f : Forest) (next : Nat) : (f.renumber next).1.hasStatement = f.hasStatement := by
  induction f generalizing next with
  | nil => rfl
  | cons i n k r _ ih => simp only [renumber, hasStatement, ih]

/-- A copy prints as its original does. -/
theorem render_renumber (f : Forest) (next : Nat) (trailing : Bool) :
    (f.renumber next).1.render trailing = f.render trailing := by
  induction f generalizing next trailing with
  | nil => rfl
  | cons i n k r ihk ihr => simp only [renumber, render, ihk, ihr, hasStatement_renumber]

theorem ids_erase_subset {f : Forest} {id i : Nat} (h : i ∈ (f.erase id).ids) : i ∈ f.ids := by
  rw [← map_fst_nodes] at h
  obtain ⟨x, hx, rfl⟩ := List.mem_map.1 h
  exact mem_ids_of_mem_nodes (mem_nodes_erase hx)

end Forest

namespace Sheet

variable {s s' : Sheet} {id i : Nat} {f k new : Forest} {n : Node} {e : Edit} {place : Place}

/-! ## Questions about a node -/

/-- What can be asked about a node. -/
inductive IsQuestion : {α : Type} → (Sheet → Nat → α) → Prop
  | isRemoved : IsQuestion isRemoved
  | node? : IsQuestion node?
  | declaration? : IsQuestion declaration?
  | selector? : IsQuestion selector?
  | atRule? : IsQuestion atRule?
  | comment? : IsQuestion comment?
  | raws? : IsQuestion raws?
  | before : IsQuestion before
  | parent? : IsQuestion parent?
  | children : IsQuestion children
  | firstChild? : IsQuestion firstChild?
  | siblings : IsQuestion siblings
  | index : IsQuestion index
  | prev? : IsQuestion prev?
  | next? : IsQuestion next?
  | prevSiblings : IsQuestion prevSiblings
  | nextSiblings : IsQuestion nextSiblings
  | ancestors : IsQuestion ancestors
  | descendants : IsQuestion descendants
  | descendantsWhere (keep : Node → Bool) : IsQuestion (descendantsWhere · · keep)
  | childDeclarationsOf : IsQuestion childDeclarationsOf
  | childDeclarations : IsQuestion childDeclarations
  | someDeclaration (test : Declaration → Bool) : IsQuestion (someDeclaration · · test)
  | findDeclaration? (prop : Text) : IsQuestion (findDeclaration? · · prop)
  | renderNode : IsQuestion renderNode
  | renderTrimmed : IsQuestion renderTrimmed

/-- Every question about a node has the same answer in both sheets. -/
structure SameAnswers (s s' : Sheet) (id : Nat) : Prop where
  same : ∀ {α : Type} (ask : Sheet → Nat → α), IsQuestion ask → ask s' id = ask s id

/-- Answers follow from the node and its children, its siblings and its ancestors. -/
theorem sameAnswers_of_eq (hfind : s'.find? id = s.find? id) (hsiblings : s'.siblings id = s.siblings id)
    (hancestors : s'.ancestors id = s.ancestors id) : s.SameAnswers s' id := by
  have hnode : s'.node? id = s.node? id := by rw [node?, node?, hfind]
  have hkids : s'.kids id = s.kids id := by rw [kids, kids, hfind]
  have hremoved : s'.isRemoved id = s.isRemoved id := by rw [isRemoved, isRemoved, hfind]
  have hraws : s'.raws? id = s.raws? id := by rw [raws?, raws?, hnode]
  have hbefore : s'.before id = s.before id := by rw [before, before, hraws]
  have hchildren : s'.children id = s.children id := by rw [children, children, hkids]
  have hdeclarations : s'.childDeclarationsOf id = s.childDeclarationsOf id := by
    rw [childDeclarationsOf, childDeclarationsOf, hkids]
  have htext : s'.renderNode id = s.renderNode id := by rw [renderNode, renderNode, hfind]
  refine ⟨fun ask h => ?_⟩
  cases h with
  | isRemoved => exact hremoved
  | node? => exact hnode
  | declaration? => rw [declaration?, declaration?, hnode]
  | selector? => rw [selector?, selector?, hnode]
  | atRule? => rw [atRule?, atRule?, hnode]
  | comment? => rw [comment?, comment?, hnode]
  | raws? => exact hraws
  | before => exact hbefore
  | parent? => rw [parent?_eq_head?, parent?_eq_head?, hancestors]
  | children => exact hchildren
  | firstChild? => rw [firstChild?, firstChild?, hchildren]
  | siblings => exact hsiblings
  | index => rw [index, index, hremoved, hsiblings]
  | prev? => rw [prev?, prev?, hsiblings]
  | next? => rw [next?, next?, hsiblings]
  | prevSiblings => rw [prevSiblings, prevSiblings, hsiblings]
  | nextSiblings => rw [nextSiblings, nextSiblings, hsiblings]
  | ancestors => exact hancestors
  | descendants => rw [descendants, descendants, hkids]
  | descendantsWhere keep => simp only [descendantsWhere, hkids]
  | childDeclarationsOf => exact hdeclarations
  | childDeclarations => rw [childDeclarations, childDeclarations, hdeclarations]
  | someDeclaration test => simp only [someDeclaration, hdeclarations]
  | findDeclaration? prop => simp only [findDeclaration?, hdeclarations]
  | renderNode => exact htext
  | renderTrimmed => rw [renderTrimmed, renderTrimmed, htext, hbefore]

/-- Answers about a node are told by its run. -/
theorem sameAnswers_of_run (hs : s.IsNumbered) (hs' : s'.IsNumbered) (hf : f ∈ s.runs) (hf' : f ∈ s'.runs)
    (hid : id ∈ f.ids) : s.SameAnswers s' id :=
  sameAnswers_of_eq ((hs'.find?_run hf' hid).trans (hs.find?_run hf hid).symm)
    ((hs'.siblings_run hf' hid).trans (hs.siblings_run hf hid).symm)
    ((hs'.ancestors_run hf' hid).trans (hs.ancestors_run hf hid).symm)

theorem ancestors_of_notMem (h : id ∉ s.ids) : s.ancestors id = [] := by
  rw [ancestors_eq, Forest.ancestors?_eq_none h]
  rfl

/-- About a node that is in neither sheet there is nothing to tell. -/
theorem sameAnswers_of_notMem (h : id ∉ s.ids) (h' : id ∉ s'.ids) : s.SameAnswers s' id := by
  refine sameAnswers_of_eq ?_ ?_ ?_
  · rw [find?_eq, find?_eq, Forest.find?_eq_none h, Forest.find?_eq_none h']
  · rw [siblings_of_notMem h, siblings_of_notMem h']
  · rw [ancestors_of_notMem h, ancestors_of_notMem h']

/-! ## Runs that an edit leaves alone -/

theorem mem_runs_splice (hf : f ∈ s.runs) (h : place.anchor ∉ f.ids) : f ∈ (s.splice place new).runs :=
  List.mem_map.2 ⟨f, hf, (place.puts new).of_notMem h⟩

theorem mem_runs_erase_of_notMem (hf : f ∈ s.runs) (hi : i ∈ f.ids) (h : id ∉ f.ids) :
    f ∈ (s.mapRuns (·.erase id)).runs := by
  refine List.mem_filter.2 ⟨List.mem_map.2 ⟨f, hf, (Forest.editsAt_erase id).of_notMem h⟩, ?_⟩
  cases f with
  | nil => cases hi
  | cons j n k r => rfl

theorem mem_runs_foldl_remove (hf : f ∈ s.runs) (hi : i ∈ f.ids) {is : List Nat} (h : ∀ j ∈ is, j ∉ f.ids) :
    f ∈ (is.foldl remove s).runs := by
  induction is generalizing s with
  | nil => exact hf
  | cons j is ih =>
    refine ih ?_ fun k hk => h k (List.mem_cons_of_mem _ hk)
    rw [remove]
    split
    · exact hf
    · exact mem_runs_erase_of_notMem hf hi (h j List.mem_cons_self)

/-- The children of a node stand in its run. -/
theorem IsNumbered.mem_run_of_mem_children (hs : s.IsNumbered) (hf : f ∈ s.runs) (h : i ∈ s.children id)
    (hi : i ∈ f.ids) : id ∈ f.ids := by
  obtain ⟨above, habove, -⟩ := exists_ancestors (hs.mem_children.1 h)
  rw [hs.ancestors_run hf hi] at habove
  obtain ⟨is, his⟩ := Option.isSome_iff_exists.1 (Forest.ancestors?_isSome hi)
  rw [his] at habove
  exact Forest.mem_ids_of_mem_ancestors his (by rw [show is = id :: above from habove]; exact List.mem_cons_self)

/-- A run none of whose nodes an edit names stays. -/
theorem mem_runs_run (hs : s.IsNumbered) (hf : f ∈ s.runs) (hi : i ∈ f.ids) (h : ∀ j ∈ e.names, j ∉ f.ids) :
    f ∈ (e.run s).2.runs := by
  generalize hresult : e.run s = result
  cases hresult ▸ e.outcome s with
  | kept => exact hf
  | added => exact List.mem_append_left _ hf
  | put _ hanchor => exact mem_runs_splice hf (h _ hanchor)
  | @moved place id n k he =>
    have hanchor : place.anchor ∈ e.names := he ▸ List.mem_cons_self
    have hid : id ∈ e.names := he ▸ List.mem_cons_of_mem _ (List.mem_singleton_self id)
    exact mem_runs_splice (mem_runs_erase_of_notMem hf hi (h id hid)) (h _ hanchor)
  | removed his =>
    refine mem_runs_foldl_remove hf hi fun j hj hjf => ?_
    rcases his j hj with hname | ⟨p, hname, hchild⟩
    · exact h j hname hjf
    · exact h p hname (hs.mem_run_of_mem_children hf hchild hjf)
  | modified hid change => exact List.mem_map.2 ⟨f, hf, (Forest.editsAt_modify _ change).of_notMem (h _ hid)⟩

/-! ## Two parts -/

/-- One of the two parts of a sheet. -/
inductive Part
  | original
  | copy
  deriving DecidableEq

/-- A sheet each of whose numbers belongs to one of two parts. -/
structure Parted where
  sheet : Sheet
  part : Nat → Part

namespace Parted

variable {S T : Parted} {p q : Part}

/-- An edit of a part: what it makes belongs to that part. -/
def run (S : Parted) (p : Part) (e : Edit) : Parted :=
  ⟨(e.run S.sheet).2, fun i => if i < S.sheet.next then S.part i else p⟩

/-- Some edit names nodes of one part only. -/
def Step (p : Part) (S T : Parted) : Prop := ∃ e : Edit, (∀ i ∈ e.names, S.part i = p) ∧ S.run p e = T

/-- Edits of one part, one after the other. -/
def Edits (p : Part) : Parted → Parted → Prop := Relation.ReflTransGen (Step p)

/-- Edits of both parts, in any order. -/
def Mixed : Parted → Parted → Prop := Relation.ReflTransGen fun S T => ∃ p, Step p S T

theorem Edits.mixed (h : Edits p S T) : Mixed S T := Relation.ReflTransGen.mono (fun _ _ hstep => ⟨p, hstep⟩) _ _ h

/-- Every run belongs to one part as a whole. -/
structure IsParted (S : Parted) : Prop where
  numbered : S.sheet.IsNumbered
  whole : ∀ f ∈ S.sheet.runs, ∃ p, ∀ i ∈ f.ids, S.part i = p

/-! ### What is put in and what is taken out -/

theorem whole_splice {runs : List Forest} {part : Nat → Part} (h : ∀ f ∈ runs, ∃ q, ∀ i ∈ f.ids, part i = q)
    (hanchor : part place.anchor = p) (hnew : ∀ i ∈ new.ids, part i = p) :
    ∀ f ∈ runs.map (place.splice new), ∃ q, ∀ i ∈ f.ids, part i = q := by
  intro g hg
  obtain ⟨f, hf, rfl⟩ := List.mem_map.1 hg
  obtain ⟨q, hq⟩ := h f hf
  by_cases hmem : place.anchor ∈ f.ids
  · refine ⟨p, fun i hi => ?_⟩
    rw [← Forest.map_fst_nodes] at hi
    obtain ⟨x, hx, rfl⟩ := List.mem_map.1 hi
    rcases (place.puts new).mem_nodes hx with hx | hx
    · rw [hq _ (Forest.mem_ids_of_mem_nodes hx), ← hq _ hmem, hanchor]
    · exact hnew _ (Forest.mem_ids_of_mem_nodes hx)
  · rw [(place.puts new).of_notMem hmem]
    exact ⟨q, hq⟩

theorem whole_erase {part : Nat → Part} (h : ∀ f ∈ s.runs, ∃ q, ∀ i ∈ f.ids, part i = q) (id : Nat) :
    ∀ f ∈ (s.mapRuns (·.erase id)).runs, ∃ q, ∀ i ∈ f.ids, part i = q := by
  intro g hg
  obtain ⟨f, hf, rfl⟩ := List.mem_map.1 (List.mem_filter.1 hg).1
  obtain ⟨q, hq⟩ := h f hf
  exact ⟨q, fun i hi => hq i (Forest.ids_erase_subset hi)⟩

theorem whole_foldl_remove {part : Nat → Part} (h : ∀ f ∈ s.runs, ∃ q, ∀ i ∈ f.ids, part i = q) (is : List Nat) :
    ∀ f ∈ (is.foldl remove s).runs, ∃ q, ∀ i ∈ f.ids, part i = q := by
  induction is generalizing s with
  | nil => exact h
  | cons i is ih =>
    refine ih ?_
    rw [remove]
    split
    · exact h
    · exact whole_erase h i

/-! ### Steps -/

/-- After an edit of a part every run belongs to one part still. -/
theorem IsParted.run (hS : S.IsParted) (hnames : ∀ i ∈ e.names, S.part i = p) : (S.run p e).IsParted where
  numbered := hS.numbered.run e
  whole := by
    have hold : ∀ i ∈ S.sheet.ids, (S.run p e).part i = S.part i := fun i hi => if_pos (hS.numbered.lt_next i hi)
    have hfresh : ∀ i, S.sheet.next ≤ i → (S.run p e).part i = p := fun i hi => if_neg (Nat.not_lt.2 hi)
    have hnamed : ∀ i ∈ e.names, (S.run p e).part i = p := fun i hi => by
      rw [Parted.run]
      dsimp only
      split
      · exact hnames i hi
      · rfl
    have hwhole : ∀ f ∈ S.sheet.runs, ∃ q, ∀ i ∈ f.ids, (S.run p e).part i = q := fun f hf => by
      obtain ⟨q, hq⟩ := hS.whole f hf
      exact ⟨q, fun i hi => (hold i (mem_ids_of_mem_runs hf hi)).trans (hq i hi)⟩
    show ∀ f ∈ (e.run S.sheet).2.runs, ∃ q, ∀ i ∈ f.ids, (S.run p e).part i = q
    generalize hresult : e.run S.sheet = result
    cases hresult ▸ e.outcome S.sheet with
    | kept => exact hwhole
    | added hnew =>
      intro f hf
      rcases List.mem_append.1 hf with hf | hf
      · exact hwhole f hf
      · rw [List.mem_singleton.1 hf]
        exact ⟨p, fun i hi => hfresh i (hnew.le i hi)⟩
    | put hnew hanchor => exact whole_splice hwhole (hnamed _ hanchor) fun i hi => hfresh i (hnew.le i hi)
    | @moved place id n k he hfind =>
      have hanchor : place.anchor ∈ e.names := he ▸ List.mem_cons_self
      have hid : id ∈ e.names := he ▸ List.mem_cons_of_mem _ (List.mem_singleton_self id)
      -- the subtree comes from the run of its top, which belongs to the part
      obtain ⟨f, hf, hfound⟩ := List.exists_of_findSome?_eq_some hfind
      obtain ⟨q, hq⟩ := hwhole f hf
      have hqp : q = p := (hq id (Forest.mem_ids_of_find? hfound)).symm.trans (hnamed id hid)
      refine whole_splice (whole_erase hwhole id) (hnamed _ hanchor) fun i hi => ?_
      rw [Forest.ids_tree, List.mem_cons] at hi
      rcases hi with rfl | hi
      · exact hnamed i hid
      · rw [hq i ((Forest.ids_sublist_of_find? hfound).mem hi), hqp]
    | removed => exact whole_foldl_remove hwhole _
    | modified hid change =>
      intro g hg
      obtain ⟨f, hf, rfl⟩ := List.mem_map.1 hg
      rw [Forest.ids_modify]
      exact hwhole f hf

/-- An edit of a part changes no answer about the other one. -/
theorem IsParted.sameAnswers_run (hS : S.IsParted) (hnames : ∀ i ∈ e.names, S.part i = p) (hi : i < S.sheet.next)
    (hpart : S.part i ≠ p) : S.sheet.SameAnswers (S.run p e).sheet i := by
  by_cases hmem : i ∈ S.sheet.ids
  · obtain ⟨f, hf, hif⟩ := exists_run hmem
    obtain ⟨q, hq⟩ := hS.whole f hf
    refine sameAnswers_of_run hS.numbered (hS.numbered.run e) hf (mem_runs_run hS.numbered hf hif fun j hj hjf => ?_) hif
    exact hpart ((hq i hif).trans ((hq j hjf).symm.trans (hnames j hj)))
  · refine sameAnswers_of_notMem hmem fun hmem' => ?_
    rcases (hS.numbered.follows_run e).1.mem_ids i hmem' with hold | hle
    · exact hmem hold
    · exact Nat.not_le.2 hi hle

/-! ### Sequences of edits -/

theorem IsParted.mixed (hS : S.IsParted) (h : Mixed S T) : T.IsParted := by
  induction h with
  | refl => exact hS
  | tail _ hstep ih =>
    obtain ⟨p, e, hnames, rfl⟩ := hstep
    exact ih.run hnames

/-- A number that was given keeps its part. -/
theorem IsParted.part_mixed (hS : S.IsParted) (h : Mixed S T) :
    S.sheet.next ≤ T.sheet.next ∧ ∀ i < S.sheet.next, T.part i = S.part i := by
  induction h with
  | refl => exact ⟨Nat.le_refl _, fun _ _ => rfl⟩
  | tail hsteps hstep ih =>
    obtain ⟨p, e, -, rfl⟩ := hstep
    obtain ⟨hle, hpart⟩ := ih
    refine ⟨Nat.le_trans hle ((hS.mixed hsteps).numbered.follows_run e).1.next_le, fun i hi => ?_⟩
    rw [← hpart i hi, Parted.run]
    exact if_pos (Nat.lt_of_lt_of_le hi hle)

/-- Edits of one part change no answer about the other one. -/
theorem IsParted.sameAnswers_edits (hS : S.IsParted) (h : Edits p S T) (hi : i < S.sheet.next) (hpart : S.part i ≠ p) :
    S.sheet.SameAnswers T.sheet i := by
  induction h with
  | refl => exact ⟨fun _ _ => rfl⟩
  | tail hsteps hstep ih =>
    have hmixed := Edits.mixed hsteps
    obtain ⟨hle, hkept⟩ := hS.part_mixed hmixed
    obtain ⟨e, hnames, rfl⟩ := hstep
    have hsame := (hS.mixed hmixed).sameAnswers_run hnames (Nat.lt_of_lt_of_le hi hle) (by rwa [hkept i hi])
    exact ⟨fun ask hask => (hsame.same ask hask).trans (ih.same ask hask)⟩

/-- Edits of the copy leave the text of a sheet whose root is original. -/
theorem IsParted.render_edits (hS : S.IsParted) (h : Edits .copy S T) (hroot : rootId < S.sheet.next)
    (hpart : S.part rootId = .original) : T.sheet.render = S.sheet.render :=
  (hS.sameAnswers_edits h hroot (by rw [hpart]; nofun)).same renderNode .renderNode

end Parted

/-! ## Copies -/

/-- The sheet with a copy of a node, the numbers from `first` on being those of the copy. -/
def withCopy (s' : Sheet) (first : Nat) : Parted := ⟨s', fun i => if i < first then .original else .copy⟩

theorem clone?_eq (h : s.find? id = some (n, k)) : s.clone? id = some (s.next,
    ⟨s.runs ++ [.tree s.next n (k.renumber (s.next + 1)).1], (k.renumber (s.next + 1)).2⟩) := by
  rw [clone?, copyOf?, h]
  rfl

/-- The top of a run has no parent and stands alone. -/
theorem IsNumbered.top_of_mem_runs (hs : s.IsNumbered) (h : .tree i n k ∈ s.runs) :
    s.find? i = some (n, k) ∧ s.parent? i = none ∧ s.siblings i = [i] := by
  have hi : i ∈ (Forest.tree i n k).ids := List.mem_cons_self
  have hfind : (Forest.tree i n k).find? i = some (n, k) := if_pos rfl
  have habove : (Forest.tree i n k).ancestors? i = some [] := if_pos rfl
  refine ⟨(hs.find?_run h hi).trans hfind, ?_, ?_⟩
  · rw [parent?_eq_head?, hs.ancestors_run h hi, habove]
    rfl
  · rw [hs.siblings_run h hi, Forest.runOf?_of_mem_tops List.mem_cons_self]
    rfl

/-- A new run changes nothing about the nodes that were there. -/
theorem IsNumbered.sameAnswers_addRun (hs : s.IsNumbered) {next : Nat} (hnew : s.IsFresh new next) (hi : i < s.next) :
    s.SameAnswers ⟨s.runs ++ [new], next⟩ i := by
  by_cases hmem : i ∈ s.ids
  · obtain ⟨f, hf, hif⟩ := exists_run hmem
    exact sameAnswers_of_run hs (hs.addRun hnew) hf (List.mem_append_left _ hf) hif
  · refine sameAnswers_of_notMem hmem fun hmem' => ?_
    rw [ids_addRun, List.mem_append] at hmem'
    exact hmem'.elim hmem fun hinew => Nat.not_le.2 hi (hnew.le i hinew)

/-- The copy is a run of its own; all others are those of the original. -/
theorem isParted_withCopy (hs : s.IsNumbered) (hnew : s.IsFresh new s'.next) (hruns : s'.runs = s.runs ++ [new]) :
    (s'.withCopy s.next).IsParted where
  numbered := by
    have hnumbered := hs.addRun hnew
    rwa [← hruns] at hnumbered
  whole f hf := by
    rw [withCopy, hruns] at hf
    rcases List.mem_append.1 hf with hf | hf
    · exact ⟨.original, fun i hi => if_pos (hs.lt_next i (mem_ids_of_mem_runs hf hi))⟩
    · rw [List.mem_singleton.1 hf]
      exact ⟨.copy, fun i hi => if_neg (Nat.not_lt.2 (hnew.le i hi))⟩

end Sheet

end VendorCss
