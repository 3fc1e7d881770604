import VendorCss.Proofs.Pass.Undisturbed
import VendorCss.Proofs.Sheet.Positions

/-!
# Sheets that look alike

Numbers are given in the order in which nodes are made, so a sheet under edit and the sheet that is read from its text
number the same tree in different ways. `Sheet.Alike` says that two sheets are the same up to numbers and positions.

A forest is its plain form with labels for numbers (`Forest.exists_labels`), and what is looked up beside a node goes
along with its label. So each node of a sheet has a node in an alike sheet that has the same above it and beside it
(`Sheet.Alike.exists_like`).
-/

namespace VendorCss

namespace Forest

variable {label : Nat → Nat} {edit : Node → Node} {f : Forest} {i next : Nat}

/-! ## Labels for numbers -/

/-- The forest with other numbers, and each node edited. -/
def relabel (label : Nat → Nat) (edit : Node → Node) : Forest → Forest
  | nil => nil
  | cons i n k r => cons (label i) (edit n) (relabel label edit k) (relabel label edit r)

theorem relabel_cons (k r : Forest) (n : Node) : relabel label edit (cons i n k r) =
    cons (label i) (edit n) (relabel label edit k) (relabel label edit r) := rfl

theorem relabel_unplaced (f : Forest) : f.relabel id Node.unplaced = f.unplaced := by
  induction f with
  | nil => rfl
  | cons i n k r ihk ihr => rw [relabel_cons, unplaced, ihk, ihr]; rfl

theorem unplaced_relabel (label : Nat → Nat) (f : Forest) :
    (f.relabel label id).unplaced = f.unplaced.relabel label id := by
  induction f with
  | nil => rfl
  | cons i n k r ihk ihr => rw [relabel_cons, unplaced, ihk, ihr]; rfl

theorem ids_relabel (label : Nat → Nat) (edit : Node → Node) (f : Forest) :
    (f.relabel label edit).ids = f.ids.map label := by
  induction f with
  | nil => rfl
  | cons i n k r ihk ihr => rw [relabel_cons, ids, ids, ihk, ihr, List.map_cons, List.map_append]

theorem nodes_relabel (label : Nat → Nat) (edit : Node → Node) (f : Forest) :
    (f.relabel label edit).nodes = f.nodes.map (Prod.map label edit) := by
  induction f with
  | nil => rfl
  | cons i n k r ihk ihr => rw [relabel_cons, nodes, nodes, ihk, ihr, List.map_cons, List.map_append, Prod.map]

theorem topNodes_relabel (label : Nat → Nat) (edit : Node → Node) (f : Forest) :
    (f.relabel label edit).topNodes = f.topNodes.map (Prod.map label edit) := by
  induction f with
  | nil => rfl
  | cons i n k r _ ihr => rw [relabel_cons, topNodes, topNodes, ihr, List.map_cons, Prod.map]

theorem find?_relabel (hlabel : label.Injective) (edit : Node → Node) (f : Forest) (i : Nat) :
    (f.relabel label edit).find? (label i) = (f.find? i).map (Prod.map edit (relabel label edit)) := by
  induction f with
  | nil => rfl
  | cons j n k r ihk ihr =>
    rw [relabel_cons, find?, find?, ihk, ihr]
    by_cases hj : j = i
    · rw [if_pos hj, if_pos (congrArg label hj)]
      rfl
    · rw [if_neg hj, if_neg fun h => hj (hlabel h), Option.map_or]

theorem ancestors?_relabel (hlabel : label.Injective) (edit : Node → Node) (f : Forest) (i : Nat) :
    (f.relabel label edit).ancestors? (label i) = (f.ancestors? i).map (List.map label) := by
  induction f with
  | nil => rfl
  | cons j n k r ihk ihr =>
    rw [relabel_cons, ancestors?, ancestors?, ihk, ihr]
    by_cases hj : j = i
    · rw [if_pos hj, if_pos (congrArg label hj)]
      rfl
    · rw [if_neg hj, if_neg fun h => hj (hlabel h), Option.map_or, Option.map_map, Option.map_map]
      congr 2
      funext is
      rw [Function.comp_apply, Function.comp_apply, List.map_append]
      rfl

/-! ## Plain forms -/

/-- The forest numbered from 0 in document order, without positions. -/
def plain (f : Forest) : Forest := (f.renumber 0).1.unplaced

/-- Neither numbers nor positions are printed. -/
theorem render_plain (f : Forest) (trailing : Bool) : f.plain.render trailing = f.render trailing := by
  have hunplaced : ∀ (g : Forest) (trailing : Bool),
      g.unplaced.render trailing = g.render trailing ∧ g.unplaced.hasStatement = g.hasStatement := by
    intro g
    induction g with
    | nil => exact fun _ => ⟨rfl, rfl⟩
    | cons i n k r ihk ihr =>
      intro trailing
      rw [unplaced, render, render, hasStatement, hasStatement, (ihk _).1, (ihr trailing).1, (ihr trailing).2]
      exact ⟨rfl, rfl⟩
  rw [plain, (hunplaced _ trailing).1, render_renumber]

theorem length_ids (f : Forest) : f.ids.length = f.size := by
  induction f with
  | nil => rfl
  | cons i n k r ihk ihr => rw [ids, List.length_cons, List.length_append, ihk, ihr, size]

/-- A forest is the renumbered one, labelled with its own numbers. -/
theorem relabel_renumber (h : (f.renumber next).1.ids.map label = f.ids) :
    (f.renumber next).1.relabel label id = f := by
  induction f generalizing next with
  | nil => rfl
  | cons i n k r ihk ihr =>
    rw [renumber] at h ⊢
    dsimp only at h ⊢
    rw [ids, ids, List.map_cons, List.map_append] at h
    obtain ⟨hi, hrest⟩ := List.cons.inj h
    have hlength : ((k.renumber (next + 1)).1.ids.map label).length = k.ids.length := by
      rw [List.length_map, ids_renumber, List.length_range', length_ids]
    obtain ⟨hk, hr⟩ := List.append_inj hrest hlength
    rw [relabel_cons, ihk hk, ihr hr, hi]
    rfl

/-- Labels that give a forest its numbers back. -/
theorem exists_labels (hnodup : f.ids.Nodup) {bound : Nat} (hbound : ∀ i ∈ f.ids, i < bound) :
    ∃ label : Nat → Nat, label.Injective ∧ f.unplaced = f.plain.relabel label id := by
  let label (k : Nat) : Nat := f.ids[k]?.getD (bound + k)
  have hin {k : Nat} (hk : k < f.ids.length) : label k = f.ids[k] := by
    show f.ids[k]?.getD _ = _
    rw [List.getElem?_eq_getElem hk, Option.getD_some]
  have hout {k : Nat} (hk : ¬k < f.ids.length) : label k = bound + k := by
    show f.ids[k]?.getD _ = _
    rw [List.getElem?_eq_none (Nat.not_lt.1 hk), Option.getD_none]
  refine ⟨label, fun k l heq => ?_, ?_⟩
  · by_cases hk : k < f.ids.length <;> by_cases hl : l < f.ids.length
    · rw [hin hk, hin hl] at heq
      exact (hnodup.getElem_inj_iff).1 heq
    · have hlt := hbound _ (List.getElem_mem hk)
      rw [hin hk, hout hl] at heq
      omega
    · have hlt := hbound _ (List.getElem_mem hl)
      rw [hout hk, hin hl] at heq
      omega
    · rw [hout hk, hout hl] at heq
      omega
  · rw [plain, ← unplaced_relabel, relabel_renumber]
    refine List.ext_getElem ?_ fun k hk hk' => ?_
    · rw [List.length_map, ids_renumber, List.length_range', length_ids]
    · rw [List.getElem_map, ← hin hk']
      congr 1
      simp [ids_renumber]

end Forest

namespace Sheet

variable {s t : Sheet} {label : Nat → Nat} {F : Forest} {a b i j k : Nat} {m n : Node}

/-- The sheets are the same up to numbers and positions. -/
def Alike (s t : Sheet) : Prop := s.whole.plain = t.whole.plain

instance (s t : Sheet) : Decidable (s.Alike t) := inferInstanceAs (Decidable (_ = _))

/-! ## Labelled sheets -/

/-- The sheet is a forest with labels for numbers, up to positions. -/
structure IsLabelled (label : Nat → Nat) (F : Forest) (s : Sheet) : Prop where
  injective : label.Injective
  unplaced_eq : s.whole.unplaced = F.relabel label id

theorem IsNumbered.exists_labels (hs : s.IsNumbered) : ∃ label, IsLabelled label s.whole.plain s := by
  obtain ⟨label, hlabel, heq⟩ := Forest.exists_labels hs.nodup hs.lt_next
  exact ⟨label, hlabel, heq⟩

namespace IsLabelled

variable (h : IsLabelled label F s)

include h

/-- Every number of the sheet is a label. -/
theorem exists_label (hi : i ∈ s.ids) : ∃ k, label k = i := by
  have hids : s.whole.unplaced.ids = s.whole.ids.map id := by rw [← Forest.relabel_unplaced, Forest.ids_relabel]
  rw [List.map_id, h.unplaced_eq, Forest.ids_relabel] at hids
  have hmem : i ∈ F.ids.map label := hids ▸ hi
  obtain ⟨k, -, hk⟩ := List.mem_map.1 hmem
  exact ⟨k, hk⟩

theorem find?_eq (k : Nat) : (s.find? (label k)).map (Prod.map Node.unplaced Forest.unplaced) =
    (F.find? k).map (Prod.map id (Forest.relabel label id)) := by
  have hplain : s.whole.unplaced.find? (label k) =
      (s.whole.find? (label k)).map (Prod.map Node.unplaced (Forest.relabel id Node.unplaced)) := by
    rw [← Forest.relabel_unplaced]
    exact Forest.find?_relabel Function.injective_id Node.unplaced s.whole (label k)
  have hlabels : s.whole.unplaced.find? (label k) = (F.find? k).map (Prod.map id (Forest.relabel label id)) := by
    rw [h.unplaced_eq, Forest.find?_relabel h.injective]
  rw [Sheet.find?_eq, ← hlabels, hplain]
  congr 2
  exact funext fun f => (Forest.relabel_unplaced f).symm

theorem node?_eq (k : Nat) : (s.node? (label k)).map Node.unplaced = (F.find? k).map Prod.fst := by
  have hfind := congrArg (Option.map Prod.fst) (h.find?_eq k)
  rw [Option.map_map, Option.map_map] at hfind
  rw [node?, Option.map_map]
  exact hfind

/-- The children of a node, with their labels. -/
theorem topNodes_eq (k : Nat) : (s.kids (label k)).topNodes.map (Prod.map id Node.unplaced) =
    (((F.find? k).map Prod.snd).getD .nil).topNodes.map (Prod.map label id) := by
  have hfind := congrArg (Option.map Prod.snd) (h.find?_eq k)
  rw [Option.map_map, Option.map_map] at hfind
  have hkids : ((s.find? (label k)).map Prod.snd).getD .nil = s.kids (label k) := by
    rw [kids]
    cases s.find? (label k) <;> rfl
  rw [← Forest.topNodes_relabel, ← Forest.topNodes_relabel, ← hkids, Forest.relabel_unplaced]
  cases hs : s.find? (label k) with
  | none =>
    rw [hs] at hfind
    cases hF : F.find? k with
    | none => rfl
    | some y =>
      rw [hF] at hfind
      cases hfind
  | some x =>
    rw [hs] at hfind
    cases hF : F.find? k with
    | none =>
      rw [hF] at hfind
      cases hfind
    | some y =>
      rw [hF] at hfind
      exact congrArg Forest.topNodes (Option.some.inj hfind)

theorem ancestors_eq (k : Nat) : s.ancestors (label k) = ((F.ancestors? k).getD []).map label := by
  have hplain : s.whole.unplaced.ancestors? (label k) = (s.whole.ancestors? (label k)).map (List.map id) := by
    rw [← Forest.relabel_unplaced]
    exact Forest.ancestors?_relabel Function.injective_id Node.unplaced s.whole (label k)
  rw [h.unplaced_eq, Forest.ancestors?_relabel h.injective] at hplain
  rw [Sheet.ancestors_eq]
  cases hs : s.whole.ancestors? (label k) with
  | none =>
    rw [hs] at hplain
    cases hF : F.ancestors? k with
    | none => rfl
    | some is =>
      rw [hF] at hplain
      cases hplain
  | some is =>
    rw [hs, Option.map_some, List.map_id] at hplain
    obtain ⟨js, hF, hjs⟩ := Option.map_eq_some_iff.1 hplain
    rw [hF]
    exact hjs.symm

/-- The nodes above a node. -/
theorem above_eq (k : Nat) : (s.ancestors (label k)).map (fun c => (s.node? c).map Node.unplaced) =
    ((F.ancestors? k).getD []).map fun c => (F.find? c).map Prod.fst := by
  rw [h.ancestors_eq, List.map_map]
  exact List.map_congr_left fun c _ => h.node?_eq c

/-- What stands among children has a label among the children of the forest. -/
theorem exists_cut {l₁ l₂ : Siblings} (hcut : (s.kids (label k)).topNodes = l₁ ++ (j, m) :: l₂) :
    ∃ K₁ c K₂, (((F.find? k).map Prod.snd).getD .nil).topNodes = K₁ ++ (c, m.unplaced) :: K₂ ∧ label c = j ∧
      K₁.map (Prod.map label id) = l₁.map (Prod.map id Node.unplaced) ∧
      K₂.map (Prod.map label id) = l₂.map (Prod.map id Node.unplaced) := by
  have htop := h.topNodes_eq k
  rw [hcut, List.map_append, List.map_cons] at htop
  obtain ⟨K₁, K', hK, hK₁, hK'⟩ := List.map_eq_append_iff.1 htop.symm
  obtain ⟨y, K₂, rfl, hy, hK₂⟩ := List.map_eq_cons_iff.1 hK'
  obtain ⟨hlabel, hnode⟩ := Prod.mk.inj hy
  exact ⟨K₁, y.1, K₂, hK.trans (by rw [← hnode]; rfl), hlabel, hK₁, hK₂⟩

end IsLabelled

/-! ## Alike sheets -/

/-- What stands beside or above a node, without numbers and positions. -/
def unplacedNodes (l : Siblings) : List Node := l.map fun x => x.2.unplaced

theorem unplacedNodes_eq {l l' : Siblings} {label' : Nat → Nat}
    (h : l'.map (Prod.map label' id) = l.map (Prod.map id Node.unplaced)) :
    unplacedNodes l = l'.map Prod.snd := by
  have hsnd := congrArg (List.map Prod.snd) h
  rw [List.map_map, List.map_map] at hsnd
  exact hsnd.symm

/-- Each node of one of two alike sheets is one of the other, but for its position. -/
theorem Alike.exists_node (h : s.Alike t) (hs : s.IsNumbered) (ht : t.IsNumbered) {x : Nat × Node} (hx : x ∈ t.nodes) :
    ∃ y ∈ s.nodes, y.2.unplaced = x.2.unplaced := by
  have hnodes {s : Sheet} (hs : s.IsNumbered) :
      s.nodes.map (fun x => x.2.unplaced) = s.whole.plain.nodes.map Prod.snd := by
    obtain ⟨label, hlabel⟩ := hs.exists_labels
    have heq : s.whole.unplaced.nodes.map Prod.snd = (s.whole.plain.relabel label id).nodes.map Prod.snd := by
      rw [hlabel.unplaced_eq]
    rw [← Forest.relabel_unplaced, Forest.nodes_relabel, Forest.nodes_relabel, List.map_map, List.map_map] at heq
    exact heq
  have hmem : x.2.unplaced ∈ t.nodes.map fun x => x.2.unplaced := List.mem_map_of_mem hx
  rw [hnodes ht, ← h, ← hnodes hs] at hmem
  exact List.mem_map.1 hmem

/-- A child in one of two alike sheets has its like in the other: the same node between the same children, with the same
nodes above it. -/
theorem Alike.exists_like (h : s.Alike t) (hs : s.IsNumbered) (ht : t.IsNumbered) {l₁ l₂ : Siblings}
    (hcut : (t.kids b).topNodes = l₁ ++ (j, m) :: l₂) : ∃ a l₁' i n l₂', (s.kids a).topNodes = l₁' ++ (i, n) :: l₂' ∧
      n.unplaced = m.unplaced ∧ unplacedNodes l₁' = unplacedNodes l₁ ∧ unplacedNodes l₂' = unplacedNodes l₂ ∧
      (s.ancestors i).map (fun c => (s.node? c).map Node.unplaced) =
        (t.ancestors j).map fun c => (t.node? c).map Node.unplaced := by
  obtain ⟨label, hlabel⟩ := hs.exists_labels
  obtain ⟨label', hlabel'⟩ := ht.exists_labels
  rw [← h] at hlabel'
  have hb : b ∈ t.ids := by
    have hmem : (j, m) ∈ (t.kids b).topNodes := hcut ▸ List.mem_append_right _ List.mem_cons_self
    exact mem_ids_of_mem_ancestors (ht.mem_descendants.1 (Forest.mem_ids_of_mem_nodes
      (Forest.topNodes_subset_nodes _ hmem)))
  obtain ⟨c, rfl⟩ := hlabel'.exists_label hb
  obtain ⟨K₁, k, K₂, hK, rfl, hK₁, hK₂⟩ := hlabel'.exists_cut hcut
  have htop := hlabel.topNodes_eq c
  rw [hK, List.map_append, List.map_cons] at htop
  obtain ⟨l₁', l', hl, hl₁, hl'⟩ := List.map_eq_append_iff.1 htop
  obtain ⟨y, l₂', rfl, hy, hl₂⟩ := List.map_eq_cons_iff.1 hl'
  obtain ⟨hi, hn⟩ := Prod.mk.inj hy
  refine ⟨label c, l₁', y.1, y.2, l₂', hl, hn, ?_, ?_, ?_⟩
  · rw [unplacedNodes_eq hl₁.symm, unplacedNodes_eq hK₁]
  · rw [unplacedNodes_eq hl₂.symm, unplacedNodes_eq hK₂]
  · have hlabel_k : y.1 = label k := hi
    rw [hlabel_k, hlabel.above_eq, hlabel'.above_eq]

end Sheet

end VendorCss
