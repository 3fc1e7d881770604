import VendorCss.Grid.Gap
import VendorCss.Proofs.Forest.Context
import VendorCss.Proofs.Sheet.Growth
import VendorCss.Proofs.Sheet.Shrinking

/-!
# A declaration in its rule

`Stands` says that a declaration is a child of a rule. What is put in anywhere leaves it there, and so does a change in
place that is not one of the declaration. Another node may be taken away from below the rule.
-/

namespace VendorCss

namespace Forest

variable {f k : Forest} {n : Node} {rule i : Nat} {x : Nat × Node}

theorem parentUnder_of_mem_topNodes (hnodup : f.ids.Nodup) (hx : x ∈ f.topNodes) (above : Option Nat) :
    f.parentUnder x.1 above = some above := by
  induction f with
  | nil => cases hx
  | cons j m l r _ ihr =>
    simp only [ids, List.nodup_cons, List.mem_append, not_or, List.nodup_append] at hnodup
    obtain ⟨⟨_, hjr⟩, _, hr, hdisj⟩ := hnodup
    rw [parentUnder]
    rcases List.mem_cons.1 hx with rfl | hx
    · rw [if_pos rfl]
    · have hxr : x.1 ∈ r.ids := mem_ids_of_mem_nodes (topNodes_subset_nodes r hx)
      rw [if_neg (ne_of_mem_of_not_mem hxr hjr).symm, parentUnder_eq_none fun hl => hdisj _ hl _ hxr rfl,
        Option.none_or, ihr hr hx]

/-- A child of a node has that node as its parent. -/
theorem parentUnder_of_mem_kids (hnodup : f.ids.Nodup) (h : f.find? rule = some (n, k)) (hx : x ∈ k.topNodes)
    (above : Option Nat) : f.parentUnder x.1 above = some (some rule) := by
  induction f generalizing above with
  | nil => cases h
  | cons j m l r ihl ihr =>
    simp only [ids, List.nodup_cons, List.mem_append, not_or, List.nodup_append] at hnodup
    obtain ⟨⟨hjl, hjr⟩, hl, hr, hdisj⟩ := hnodup
    have hxk : x ∈ k.nodes := topNodes_subset_nodes k hx
    rw [find?] at h
    rw [parentUnder]
    split at h
    · rename_i hj
      obtain ⟨rfl, rfl⟩ : m = n ∧ l = k := by simpa using h
      rw [if_neg (ne_of_mem_of_not_mem (mem_ids_of_mem_nodes hxk) hjl).symm, parentUnder_of_mem_topNodes hl hx, hj]
      rfl
    · rcases Option.or_eq_some_iff.1 h with h | ⟨_, h⟩
      · have hxl : x.1 ∈ l.ids := mem_ids_of_mem_nodes ((nodes_of_find? h).2.mem hxk)
        rw [if_neg (ne_of_mem_of_not_mem hxl hjl).symm, ihl hl h]
        rfl
      · have hxr : x.1 ∈ r.ids := mem_ids_of_mem_nodes ((nodes_of_find? h).2.mem hxk)
        rw [if_neg (ne_of_mem_of_not_mem hxr hjr).symm, parentUnder_eq_none fun hxl => hdisj _ hxl _ hxr rfl, ihr hr h]
        rfl

theorem find?_erase_eq_none (h : f.find? rule = none) : (f.erase i).find? rule = none := by
  refine find?_eq_none fun hin => ?_
  rw [← map_fst_nodes] at hin
  obtain ⟨y, hy, rfl⟩ := List.mem_map.1 hin
  have hsome := find?_isSome (mem_ids_of_mem_nodes (mem_nodes_erase hy))
  rw [h] at hsome
  cases hsome

/-- What is taken away from below a node is taken away from its children. -/
theorem find?_erase (hnodup : f.ids.Nodup) (h : f.find? rule = some (n, k)) (hi : i ∈ k.ids) :
    (f.erase i).find? rule = some (n, k.erase i) := by
  induction f with
  | nil => cases h
  | cons j m l r ihl ihr =>
    simp only [ids, List.nodup_cons, List.mem_append, not_or, List.nodup_append] at hnodup
    obtain ⟨⟨hjl, hjr⟩, hl, hr, hdisj⟩ := hnodup
    have hmem : ∀ {g : Forest}, g.find? rule = some (n, k) → i ∈ g.ids := by
      intro g hg
      rw [← map_fst_nodes] at hi ⊢
      exact ((nodes_of_find? hg).2.map Prod.fst).mem hi
    rw [find?] at h
    rw [erase]
    split at h
    · rename_i hj
      obtain ⟨rfl, rfl⟩ : m = n ∧ l = k := by simpa using h
      rw [if_neg (ne_of_mem_of_not_mem hi hjl).symm, find?, if_pos hj]
    · rename_i hj
      rcases Option.or_eq_some_iff.1 h with h | ⟨hnone, h⟩
      · rw [if_neg (ne_of_mem_of_not_mem (hmem h) hjl).symm, find?, if_neg hj, ihl hl h]
        rfl
      · rw [if_neg (ne_of_mem_of_not_mem (hmem h) hjr).symm, find?, if_neg hj, find?_erase_eq_none hnone,
          Option.none_or, ihr hr h]

theorem mem_topNodes_erase (hx : x ∈ f.topNodes) (hi : x.1 ≠ i) : x ∈ (f.erase i).topNodes := by
  induction f with
  | nil => cases hx
  | cons j m l r _ ihr =>
    rw [erase]
    split
    · rename_i hj
      rcases List.mem_cons.1 hx with rfl | hx
      · exact absurd hj hi
      · exact hx
    · rcases List.mem_cons.1 hx with rfl | hx
      · exact List.mem_cons_self
      · exact List.mem_cons_of_mem _ (ihr hx)

end Forest

namespace Sheet

variable {s s' : Sheet} {rule decl : Nat} {d : Declaration}

/-- A declaration stands directly below a rule, and the numbers are in order. -/
structure Stands (s : Sheet) (rule decl : Nat) (d : Declaration) : Prop where
  numbered : s.IsNumbered
  mem : (decl, d) ∈ s.childDeclarationsOf rule

theorem mem_childDeclarationsOf : (decl, d) ∈ s.childDeclarationsOf rule ↔
    ∃ n, ∃ k : Forest, s.find? rule = some (n, k) ∧ ∃ m : Node, (decl, m) ∈ k.topNodes ∧ m.declaration? = some d := by
  rw [childDeclarationsOf, kids, List.mem_filterMap]
  constructor
  · rintro ⟨⟨i, m⟩, hmem, hd⟩
    obtain ⟨d', hd', heq⟩ := Option.map_eq_some_iff.1 hd
    obtain ⟨rfl, rfl⟩ := Prod.mk.inj heq
    split at hmem
    · rename_i n k hfind
      exact ⟨n, k, hfind, m, hmem, hd'⟩
    · cases hmem
  · rintro ⟨n, k, hfind, m, hmem, hd⟩
    rw [hfind]
    exact ⟨(decl, m), hmem, by simp [hd]⟩

/-- What stands below a node and is a declaration. -/
theorem of_mem_declarationsBelow (h : (decl, d) ∈ s.declarationsBelow rule) :
    decl ∈ (s.kids rule).ids ∧ s.declaration? decl = some d := by
  obtain ⟨i, hi, heq⟩ := List.mem_filterMap.1 h
  obtain ⟨e, he, heq⟩ := Option.map_eq_some_iff.1 heq
  obtain ⟨rfl, rfl⟩ := Prod.mk.inj heq
  obtain ⟨x, hx, rfl⟩ := List.mem_map.1 hi
  exact ⟨Forest.mem_ids_of_mem_nodes (List.mem_filter.1 hx).1, he⟩

theorem findSome?_erase {runs : List Forest} (hnodup : ∀ f ∈ runs, f.ids.Nodup) {n : Node} {k : Forest}
    (h : runs.findSome? (·.find? rule) = some (n, k)) {i : Nat} (hi : i ∈ k.ids) :
    (runs.map (·.erase i)).findSome? (·.find? rule) = some (n, k.erase i) := by
  induction runs with
  | nil => cases h
  | cons f runs ih =>
    rw [List.findSome?_cons] at h
    rw [List.map_cons, List.findSome?_cons]
    cases hf : f.find? rule with
    | some found =>
      rw [hf] at h
      obtain rfl := Option.some.inj h
      rw [Forest.find?_erase (hnodup f List.mem_cons_self) hf hi]
    | none =>
      rw [hf] at h
      rw [Forest.find?_erase_eq_none hf, ih (fun g hg => hnodup g (List.mem_cons_of_mem _ hg)) h]

namespace Stands

theorem declaration? (h : s.Stands rule decl d) : s.declaration? decl = some d := by
  obtain ⟨n, hn, hd⟩ := exists_of_mem_childDeclarationsOf h.mem
  rw [Sheet.declaration?, h.numbered.node?_eq hn]
  exact hd

theorem parent? (h : s.Stands rule decl d) : s.parent? decl = some rule := by
  obtain ⟨n, k, hfind, m, hmem, _⟩ := mem_childDeclarationsOf.1 h.mem
  rw [find?_eq] at hfind
  rw [parent?_eq, Forest.parentUnder_of_mem_kids h.numbered.nodup hfind hmem]
  rfl

/-! ## Edits -/

theorem foldl (h : s.Stands rule decl d) {f : Sheet → α → Sheet} (xs : List α)
    (hstep : ∀ x s, Stands s rule decl d → (f s x).Stands rule decl d) : (xs.foldl f s).Stands rule decl d := by
  induction xs generalizing s with
  | nil => exact h
  | cons x xs ih => exact ih (hstep x s h)

/-- New nodes come in and old ones change, of which the declaration is none. -/
theorem of_embeds (h : s.Stands rule decl d) (hs' : s'.IsNumbered)
    (hwhole : Forest.Embeds (fun i n n' => i = decl → n'.declaration? = n.declaration?) (s.next ≤ ·) s.whole s'.whole) :
    s'.Stands rule decl d := by
  refine ⟨hs', ?_⟩
  obtain ⟨n, k, hfind, m, hmem, hd⟩ := mem_childDeclarationsOf.1 h.mem
  have hold : rule < s.next := h.numbered.lt_of_node? (n := n) (by rw [node?, hfind]; rfl)
  have hrel := hwhole.find?_rel (Nat.not_le.2 hold)
  rw [← find?_eq, ← find?_eq, hfind] at hrel
  generalize hfound : s'.find? rule = found at hrel
  cases hrel with
  | @some _ y hxy =>
    obtain ⟨m', hmem', heq⟩ := hxy.2.exists_mem_topNodes hmem
    exact mem_childDeclarationsOf.2 ⟨y.1, y.2, hfound, m', hmem', (heq rfl).trans hd⟩

theorem of_grows (h : s.Stands rule decl d) (hs' : s'.IsNumbered) (hgrows : s.Grows Eq s') : s'.Stands rule decl d :=
  h.of_embeds hs' (hgrows.whole.mono fun _ _ _ heq _ => by rw [heq])

theorem cloneBefore (h : s.Stands rule decl d) (id : Nat) (edit : Node → Node) :
    (s.cloneBefore id edit).Stands rule decl d :=
  h.of_grows (h.numbered.cloneBefore id edit) (grows_cloneBefore (fun _ => rfl) s id edit)

theorem splice (h : s.Stands rule decl d) {new : Forest} {next : Nat} (hnew : s.IsFresh new next) (place : Place) :
    Stands { s.splice place new with next } rule decl d :=
  h.of_grows (h.numbered.splice hnew place) (grows_splice (fun _ => rfl) hnew place)

theorem modify (h : s.Stands rule decl d) {id : Nat} {edit : Node → Node}
    (hedit : id = decl → ∀ n, (edit n).declaration? = n.declaration?) : (s.modify id edit).Stands rule decl d :=
  h.of_embeds (h.numbered.modify id edit)
    (embeds_map fun _ _ => .modify (fun _ _ _ => rfl) fun n _ heq => hedit heq n)

theorem setBefore (h : s.Stands rule decl d) (id : Nat) (before : Text) : (s.setBefore id before).Stands rule decl d :=
  h.modify fun _ _ => rfl

/-- Another node goes, which stood below the rule if it was there. -/
theorem remove (h : s.Stands rule decl d) {i : Nat} (hne : i ≠ decl) (hi : i ∈ s.ids → i ∈ (s.kids rule).ids) :
    (s.remove i).Stands rule decl d := by
  have hnumbered := (shrinks_remove (R := fun _ => Eq) (fun _ _ => rfl) s i).isNumbered h.numbered
  unfold Sheet.remove at hnumbered ⊢
  split at hnumbered
  · rename_i hroot
    rw [if_pos hroot]
    exact h
  · rename_i hroot
    rw [if_neg hroot]
    have hwhole : (s.mapRuns (·.erase i)).whole = joinRuns (s.runs.map (·.erase i)) := by
      rw [whole, mapRuns, joinRuns_filter]
    by_cases hmem : i ∈ s.ids
    · obtain ⟨n, k, hfind, m, hm, hd⟩ := mem_childDeclarationsOf.1 h.mem
      have hk : i ∈ k.ids := by
        have hkids := hi hmem
        rwa [kids, hfind] at hkids
      refine ⟨hnumbered, mem_childDeclarationsOf.2 ⟨n, k.erase i, ?_, m, Forest.mem_topNodes_erase hm hne.symm, hd⟩⟩
      rw [find?_eq, hwhole, ← findSome?_find?]
      exact findSome?_erase (fun f hf => h.numbered.nodup_of_mem_runs hf) hfind hk
    · have hsame : s.runs.map (·.erase i) = s.runs :=
        (List.map_congr_left fun f hf => (Forest.editsAt_erase i).of_notMem fun hif =>
          hmem (mem_ids_of_mem_runs hf hif)).trans (List.map_id _)
      refine h.of_embeds hnumbered ?_
      rw [hwhole, hsame]
      exact .refl (fun _ _ _ => rfl) _

/-- Other nodes go one after the other, which stood below the rule. -/
theorem foldl_remove (h : s.Stands rule decl d) {is : List Nat} (hdecl : decl ∉ is)
    (his : ∀ i ∈ is, i ∈ s.ids → i ∈ (s.kids rule).ids) : (is.foldl Sheet.remove s).Stands rule decl d := by
  induction is generalizing s with
  | nil => exact h
  | cons i is ih =>
    rw [List.mem_cons, not_or] at hdecl
    have hstands := h.remove (Ne.symm hdecl.1) (his i List.mem_cons_self)
    refine ih hstands hdecl.2 fun j hj hleft => ?_
    -- what is left of the sheet is left below the rule
    have hshrinks : s.Shrinks (fun _ => Eq) (s.remove i) := shrinks_remove (fun _ _ => rfl) s i
    obtain ⟨n, k, hfind, _⟩ := mem_childDeclarationsOf.1 hstands.mem
    have hrule : rule ∈ (s.remove i).ids := Forest.mem_ids_of_mem_nodes (nodes_of_find? hfind).1
    have hrel := hshrinks.find?_rel h.numbered hrule
    have hbelow := his j (List.mem_cons_of_mem _ hj) (hshrinks.whole.ids_sublist.mem hleft)
    rw [kids] at hbelow ⊢
    rw [hfind] at hrel ⊢
    generalize s.find? rule = found at hrel hbelow
    cases hrel with
    | some hxy => exact (hxy.2.mem_ids hbelow).resolve_left (not_not_intro hleft)

end Stands

end Sheet

end VendorCss
