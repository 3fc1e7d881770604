import VendorCss.Proofs.Pass.Plainness
import VendorCss.Proofs.Pass.Settled

/-!
# Writing all copies

A sheet is complete if none of its declarations misses a copy (`Sheet.IsCompleteBut`, some declarations apart). Writing
the copies of one declaration keeps all others complete, and makes that one so (`Pass.Calm.process`); a pass over all
declarations therefore ends with a complete sheet (`Pass.Calm.complete`). In a complete sheet there is nothing to write
(`Pass.Calm.rest`).
-/

namespace VendorCss

open Pass

/-! ## Plain nodes -/

namespace Rules.PrefixesPlainly

variable {r : Rules} {n m : Node} {d : Declaration} {v : PropertyVariants} {planned : Text}

/-- What a node says is all that counts. -/
theorem of_content (h : r.PrefixesPlainly n) (hcontent : m.content = n.content) : r.PrefixesPlainly m where
  declaration d hd := h.declaration d (by rw [← hd, Node.declaration?, Node.declaration?, hcontent])
  atRule a ha := h.atRule a (by rw [← ha, Node.atRule?, Node.atRule?, hcontent])
  selector s hs := h.selector s (by rw [← hs, Node.selector?, Node.selector?, hcontent])
  comment t ht := h.comment t (by rw [← ht, Node.comment?, Node.comment?, hcontent])

theorem of_declaration (hd : n.declaration? = some d) (hleaves : r.LeavesWhole d) (hnone : r.property? d.prop = none) :
    r.PrefixesPlainly n := by
  obtain ⟨content, raws, source⟩ := n
  cases content with
  | declaration d' =>
    obtain rfl : d' = d := Option.some.inj hd
    refine ⟨fun e he => ?_, nofun, nofun, nofun⟩
    obtain rfl : d' = e := Option.some.inj he
    refine ⟨hleaves, fun v hv => ?_⟩
    rw [hnone] at hv
    cases hv
  | root | rule _ | comment _ | atRule _ => cases hd

end Rules.PrefixesPlainly

namespace Sheet

variable {s s' t : Sheet} {r : Rules} {rule decl id a : Nat} {d e : Declaration} {n m : Node} {todo : List Nat}
variable {v : PropertyVariants} {planned : Text} {before : Text} {copies : List Node}

/-! ## One root -/

theorem IsRooted.insertBefore (h : s.IsRooted) (hid : id ≠ rootId) (m : Node) : (s.insertBefore id m).IsRooted := by
  obtain ⟨root, kids, hruns⟩ := h
  let new := Forest.tree s.next m .nil
  have hedited : (s.insertBefore id m).runs = [Forest.insertBefore id new (.tree rootId root kids)] := by
    show s.runs.map (Forest.insertBefore id new) = _
    rw [hruns]
    rfl
  rw [Forest.tree, Forest.insertBefore, if_neg (Ne.symm hid)] at hedited
  exact ⟨root, Forest.insertBefore id new kids, hedited⟩

theorem IsRooted.setBefore (h : s.IsRooted) (id : Nat) (before : Text) : (s.setBefore id before).IsRooted := by
  obtain ⟨root, kids, hruns⟩ := h
  let edit (n : Node) : Node := { n with raws := { n.raws with before } }
  have hedited : (s.setBefore id before).runs = [Forest.modify id edit (.tree rootId root kids)] := by
    show s.runs.map (Forest.modify id edit) = _
    rw [hruns]
    rfl
  rw [Forest.tree, Forest.modify] at hedited
  split at hedited
  · exact ⟨edit root, kids, hedited⟩
  · exact ⟨root, kids.modify id edit, hedited⟩

theorem IsRooted.ne_root (h : s.IsRooted) (hparent : s.parent? id = some a) : id ≠ rootId := by
  obtain ⟨root, kids, hruns⟩ := h
  rintro rfl
  rw [parent?, hruns, List.findSome?_cons, Forest.tree, Forest.parentUnder, if_pos rfl] at hparent
  cases hparent

/-! ## Declarations of a sheet -/

/-- The declarations of a sheet are those that stand in it. -/
theorem exists_stands (hs : s.IsNumbered) (h : decl ∈ s.declarations rootId) : ∃ rule d, s.Stands rule decl d := by
  obtain ⟨⟨i, n⟩, hmem, rfl⟩ := List.mem_map.1 h
  obtain ⟨hkids, hdeclaration⟩ := List.mem_filter.1 hmem
  obtain ⟨d, hd⟩ := Option.isSome_iff_exists.1 hdeclaration
  have habove : rootId ∈ s.ancestors i := hs.mem_descendants.1 (Forest.mem_ids_of_mem_nodes hkids)
  obtain ⟨rule, above, hcons⟩ := List.exists_cons_of_ne_nil (List.ne_nil_of_mem habove)
  refine ⟨rule, d, hs.stands ?_ ?_⟩
  · rw [declaration?, hs.node?_eq ((s.nodes_kids_sublist rootId).mem hkids), Option.bind_some, hd]
  · rw [parent?_eq_head?, hcons]
    rfl

theorem IsRooted.mem_declarations (h : s.IsRooted) (hstands : s.Stands rule decl d) :
    decl ∈ s.declarations rootId := by
  have hne := h.ne_root hstands.parent?
  obtain ⟨n, hn, hd⟩ := Option.bind_eq_some_iff.1 hstands.declaration?
  obtain ⟨root, kids, hruns⟩ := h
  have hkids : s.kids rootId = kids := by
    simp [Sheet.kids, find?, hruns, Forest.tree, Forest.find?]
  have hnodes : s.nodes = (rootId, root) :: (kids.nodes ++ []) := by
    rw [nodes, whole, hruns]
    rfl
  have hmem := mem_nodes_of_node? hn
  rw [hnodes, List.append_nil] at hmem
  rcases List.mem_cons.1 hmem with heq | hmem
  · exact absurd (congrArg Prod.fst heq) hne
  · refine List.mem_map.2 ⟨(decl, n), List.mem_filter.2 ⟨hkids ▸ hmem, ?_⟩, rfl⟩
    exact Option.isSome_iff_exists.2 ⟨d, hd⟩

/-! ## Complete sheets -/

/-- The declarations of a sheet, some apart, miss no copy that rules write. -/
def IsCompleteBut (r : Rules) (todo : List Nat) (s : Sheet) : Prop :=
  ∀ rule decl d, s.Stands rule decl d → decl ∉ todo → ∀ v, r.property? d.prop = some v → r.passesOver d = false →
    v.missing { rules := r, sheet := s } decl d = []

theorem IsCompleteBut.of_nil (h : s.IsCompleteBut r []) (todo : List Nat) : s.IsCompleteBut r todo :=
  fun rule i d hstands _ => h rule i d hstands List.not_mem_nil

/-- One more declaration misses no copy. -/
theorem IsCompleteBut.of_cons (h : s.IsCompleteBut r (a :: todo)) (hd : s.declaration? a = some d)
    (hdone : ∀ v, r.property? d.prop = some v → r.passesOver d = false → v.missing ⟨r, s, {}, []⟩ a d = []) :
    s.IsCompleteBut r todo := by
  intro rule i d' hstands hi v hv hpasses
  by_cases hia : i = a
  · subst hia
    obtain rfl := Option.some.inj (hd.symm.trans hstands.declaration?)
    exact hdone v hv hpasses
  · refine h rule i d' hstands (fun hmem => ?_) v hv hpasses
    rcases List.mem_cons.1 hmem with heq | hmem
    · exact hia heq
    · exact hi hmem

/-- A copy of a declaration comes in. -/
theorem IsCompleteBut.insertBefore (h : s.IsCompleteBut r todo) (ha : s.Stands rule a d) (hmem : a ∈ todo)
    (hm : m.declaration? = some e) (hnone : r.property? e.prop = none) (hbeside : IsBeside r e d) :
    (s.insertBefore a m).IsCompleteBut r todo := by
  intro rule' i d' hstands hi v hv hpasses
  have hs := ha.numbered
  obtain ⟨n, hn, -⟩ := Option.bind_eq_some_iff.1 ha.declaration?
  obtain ⟨n', hn', hd'⟩ := Option.bind_eq_some_iff.1 hstands.declaration?
  have hold : i < s.next := by
    have hlt : i < s.next + 1 := hstands.numbered.lt_of_node? hn'
    refine Nat.lt_of_le_of_ne (Nat.le_of_lt_succ hlt) ?_
    rintro rfl
    -- the new node is the copy
    rw [node?_insertBefore_next hs hn m] at hn'
    obtain rfl := Option.some.inj hn'
    rw [hm] at hd'
    obtain rfl := Option.some.inj hd'
    rw [hnone] at hv
    cases hv
  obtain ⟨hn', hparent⟩ := (Ages.splice hs (s.isFresh_tree m) (.before a)).old i hold n' hn'
  have hstands' : s.Stands rule' i d' :=
    hs.stands (by rw [declaration?, hn', Option.bind_some, hd']) (hparent.symm.trans hstands.parent?)
  exact PropertyVariants.missing_eq_nil_of_insertBefore (p := ⟨r, s, {}, []⟩) hstands' rfl
    (h rule' i d' hstands' hi v hv hpasses) (fun heq => hi (heq ▸ hmem)) ha.declaration? hm hbeside rfl

/-- Other white space comes before a node. -/
theorem IsCompleteBut.setBefore (h : s.IsCompleteBut r todo) (hs : s.IsNumbered) (a : Nat) (before : Text) :
    (s.setBefore a before).IsCompleteBut r todo := by
  intro rule i d hstands hi v hv hpasses
  have hd := hstands.declaration?
  have hparent := hstands.parent?
  rw [declaration?_setBefore hs] at hd
  rw [parent?_eq_head?, ancestors_setBefore hs, ← parent?_eq_head?] at hparent
  have hstands' := hs.stands hd hparent
  exact PropertyVariants.missing_eq_nil_of_setBefore (p := ⟨r, s, {}, []⟩) hstands' rfl
    (h rule i d hstands' hi v hv hpasses) rfl

/-! ## Sheets with more copies -/

/-- The second sheet is the first one with plain copies of declarations; it misses no copy, some declarations apart. -/
structure HasCopies (r : Rules) (todo : List Nat) (s s' : Sheet) : Prop where
  plain : s'.IsPlainFor r
  rooted : s'.IsRooted
  complete : s'.IsCompleteBut r todo
  grows : s.Grows Node.SameScope s'
  stands : ∀ {rule i d}, s.Stands rule i d → s'.Stands rule i d

namespace HasCopies

theorem refl (hs : s.IsPlainFor r) (hroot : s.IsRooted) (hcomplete : s.IsCompleteBut r todo) : HasCopies r todo s s where
  plain := hs
  rooted := hroot
  complete := hcomplete
  grows := Grows.refl (R := Node.SameScope) (fun _ => rfl) s
  stands := id

theorem trans {s'' : Sheet} {todo' : List Nat} (h : HasCopies r todo s s') (h' : HasCopies r todo' s' s'') :
    HasCopies r todo' s s'' where
  plain := h'.plain
  rooted := h'.rooted
  complete := h'.complete
  grows := h.grows.trans (fun _ _ _ hab hbc => hbc.trans hab) h'.grows
  stands hi := h'.stands (h.stands hi)

variable (h : HasCopies r todo s s')

include h

/-- One more copy. -/
theorem insertBefore (hstands : s.Stands rule decl d) (hmem : decl ∈ todo) (hd : n.declaration? = some d)
    (hcopies : r.CopiesPlainly d v) (hplanned : planned ∈ v.prefixes) (hm : Node.IsCopyFor planned n m) :
    HasCopies r todo s (s'.insertBefore decl m) where
  plain := {
    numbered := h.plain.numbered.insertBefore decl m
    grids := h.plain.grids
    nodes := forall_nodes_splice (P := r.PrefixesPlainly) h.plain.nodes
      (List.forall_mem_singleton.2 (.of_declaration (hm.declaration?_eq hd) (hcopies.whole planned hplanned)
        (hcopies.done planned hplanned))) (.before decl) _ }
  rooted := h.rooted.insertBefore (h.rooted.ne_root (h.stands hstands).parent?) m
  complete := h.complete.insertBefore (h.stands hstands) hmem (hm.declaration?_eq hd) (hcopies.done planned hplanned)
    (isBeside_copy hcopies.unprefixed (hcopies.vendors planned hplanned))
  grows := h.grows.trans (fun _ _ _ hab hbc => hbc.trans hab)
    (grows_splice (R := Node.SameScope) (fun _ => rfl) (s'.isFresh_tree m) (.before decl))
  stands hi := (h.stands hi).insertBefore decl m

/-- Other white space before a node. -/
theorem setBefore (id : Nat) (before : Text) : HasCopies r todo s (s'.setBefore id before) where
  plain := {
    numbered := h.plain.numbered.setBefore id before
    grids := h.plain.grids
    nodes := forall_nodes_modify (P := r.PrefixesPlainly) h.plain.numbered h.plain.nodes fun _ hn =>
      (h.plain.node hn).of_content rfl }
  rooted := h.rooted.setBefore id before
  complete := h.complete.setBefore h.plain.numbered id before
  grows := h.grows.trans (fun _ _ _ hab hbc => hbc.trans hab)
    (grows_modify (R := Node.SameScope) (fun _ => rfl) h.plain.numbered fun _ _ => rfl)
  stands hi := (h.stands hi).setBefore id before

/-- Copies for some of the prefixes. -/
theorem front (hstands : s.Stands rule decl d) (hmem : decl ∈ todo) (hd : n.declaration? = some d)
    (hcopies : r.CopiesPlainly d v)
    (hcopied : ∀ m ∈ copies, ∃ planned ∈ v.prefixes, Node.IsCopyFor planned n m) :
    HasCopies r todo s (s'.front decl copies) := by
  have hlt : decl < s'.next := by
    obtain ⟨_, hn, -⟩ := Option.bind_eq_some_iff.1 (h.stands hstands).declaration?
    exact h.plain.numbered.lt_of_node? hn
  induction copies using List.reverseRecOn with
  | nil =>
    rw [front_nil]
    exact h
  | append_singleton copies m ih =>
    obtain ⟨planned, hplanned, hm⟩ := hcopied m (List.mem_append_right _ List.mem_cons_self)
    rw [← insertBefore_front hlt]
    exact (ih fun m hm => hcopied m (List.mem_append_left _ hm)).insertBefore hstands hmem hd hcopies hplanned hm

end HasCopies

end Sheet

namespace Pass

variable {s s' : Sheet} {r : Rules} {p q : Pass} {rule decl : Nat} {d : Declaration} {v : PropertyVariants}
variable {todo : List Nat}

/-! ## The copies of a declaration -/

theorem exists_of_forall₂ {α β : Type} {R : α → β → Prop} {xs : List α} {ys : List β} (h : List.Forall₂ R xs ys) {y : β}
    (hy : y ∈ ys) : ∃ x ∈ xs, R x y := by
  induction h with
  | nil => cases hy
  | cons hxy _ ih =>
    rcases List.mem_cons.1 hy with rfl | hy
    · exact ⟨_, List.mem_cons_self, hxy⟩
    · obtain ⟨x, hx, hR⟩ := ih hy
      exact ⟨x, List.mem_cons_of_mem _ hx, hR⟩

/-- The copies of a declaration are written, and it misses none of them any more. -/
theorem Calm.process (h : Calm s r p) (hs : s.IsPlainFor r) (hroot : s.IsRooted) (hstands : s.Stands rule decl d)
    (hcopies : r.CopiesPlainly d v) (hcomplete : s.IsCompleteBut r (decl :: todo)) :
    ∃ s', Calm s' r (v.process p decl) ∧ Sheet.HasCopies r (decl :: todo) s s' ∧ v.missing ⟨r, s', {}, []⟩ decl d = [] ∧
      (v.missing p decl d = [] → s' = s) := by
  obtain rfl := h.sheet
  obtain rfl := h.rules
  obtain ⟨n, hn, hd⟩ := Option.bind_eq_some_iff.1 hstands.declaration?
  have hdecl : decl ∈ p.sheet.ids := Forest.mem_ids_of_mem_nodes (Sheet.mem_nodes_of_node? hn)
  have hfresh : p.fresh.RemembersScopes := fun _ hx => absurd hx List.not_mem_nil
  obtain ⟨hscope, facts, hfacts, hremembers⟩ := h.scopes.scope_eq hs.numbered hdecl
  have hscope' := (RemembersScopes.scope_eq (p := p.fresh) hs.numbered hfresh hdecl).1
  obtain ⟨q, before, hcopied, hrules, -, ⟨widest, hmemory⟩, hsheet, hnone⟩ := v.process_copied hcopies.dialect
    hcopies.unprefixed hcopies.vendors hcopies.nodup hstands hn (hscope.trans hscope'.symm)
  obtain ⟨copies, hcopies', hfront⟩ := hcopied.sheet
  have hplanned : ∀ m ∈ copies, ∃ planned ∈ v.prefixes, Node.IsCopyFor planned n m := by
    intro m hm
    obtain ⟨planned, hplanned, hcopy⟩ := exists_of_forall₂ hcopies' hm
    exact ⟨planned, (List.mem_filter.1 (List.mem_filter.1 hplanned).1).1, hcopy⟩
  have hmore : Sheet.HasCopies p.rules (decl :: todo) p.sheet (v.process p decl).sheet := by
    rw [hsheet, hfront]
    exact ((Sheet.HasCopies.refl hs hroot hcomplete).front hstands List.mem_cons_self hd hcopies hplanned).setBefore
      decl before
  refine ⟨(v.process p decl).sheet, ⟨rfl, hrules, ?_, ?_, ?_, fun x hx => ?_⟩, hmore, ?_, hnone⟩
  · rw [hmemory, hfacts]
    exact h.grid
  · rw [hmemory, hfacts]
    exact h.disabled
  · rw [hmemory, hfacts]
    exact h.values
  · rw [hmemory, hfacts] at hx
    obtain ⟨hin, heq⟩ := hremembers x hx
    refine ⟨hmore.grows.whole.ids_sublist.mem hin, heq.trans ?_⟩
    rw [hrules]
    exact (hmore.grows.scope_eq hs.numbered hmore.plain.numbered hin).symm
  · exact v.missing_of_copied hcopied rfl hsheet hs.numbered

/-- The same in a step of a run: after it, the declaration misses no copy either, and where it missed none before the
sheet is what it was. -/
theorem Calm.addCopies (h : Calm s r p) (hs : s.IsPlainFor r) (hroot : s.IsRooted) (hstands : s.Stands rule decl d)
    (hcomplete : s.IsCompleteBut r (decl :: todo)) :
    ∃ s', Calm s' r (p.addToDeclaration false decl) ∧ Sheet.HasCopies r todo s s' ∧
      (s.IsCompleteBut r [] → s' = s) := by
  have hd := hstands.declaration?
  obtain ⟨n, hn, hnd⟩ := Option.bind_eq_some_iff.1 hd
  obtain ⟨q, hq, hpassed, hadded⟩ := h.addToDeclaration hs (h.sheet ▸ hd)
  by_cases hnothing : r.passesOver d = true ∨ r.property? d.prop = none
  · rw [hpassed hnothing]
    refine ⟨s, hq, .refl hs hroot (hcomplete.of_cons hd fun v hv hpasses => ?_), fun _ => rfl⟩
    rcases hnothing with hpasses' | hnone
    · exact absurd (hpasses'.symm.trans hpasses) (by decide)
    · rw [hnone] at hv
      cases hv
  · rw [not_or, Bool.not_eq_true] at hnothing
    obtain ⟨v, hv⟩ := Option.ne_none_iff_exists'.1 hnothing.2
    have hcopies := ((hs.node hn).declaration d hnd).2 v hv hnothing.1
    obtain ⟨s', hcalm, hmore, hdone, hsame⟩ := hq.process hs hroot hstands hcopies hcomplete
    rw [hadded hnothing.1 hcopies.name, addVariantsOf, hq.rules, hv]
    refine ⟨s', hcalm, ⟨hmore.plain, hmore.rooted, hmore.complete.of_cons (hmore.stands hstands).declaration? ?_,
      hmore.grows, hmore.stands⟩, fun hall => hsame ?_⟩
    · intro v' hv' _
      obtain rfl := Option.some.inj (hv.symm.trans hv')
      exact hdone
    · obtain rfl := hq.sheet
      obtain rfl := hq.rules
      exact hall rule decl d hstands List.not_mem_nil v hv hnothing.1

/-! ## All declarations -/

/-- Once copies of all declarations that may miss some are written, the sheet is complete. -/
theorem Calm.complete (h : Calm s r p) (hs : s.IsPlainFor r) (hroot : s.IsRooted)
    (hwaiting : ∀ i ∈ todo, ∃ rule d, s.Stands rule i d) (hcomplete : s.IsCompleteBut r todo) :
    ∃ s', Calm s' r (todo.foldl (Pass.addToDeclaration false) p) ∧ Sheet.HasCopies r [] s s' := by
  induction todo generalizing s p with
  | nil => exact ⟨s, h, .refl hs hroot hcomplete⟩
  | cons i todo ih =>
    obtain ⟨rule, d, hstands⟩ := hwaiting i List.mem_cons_self
    obtain ⟨s', hcalm, hmore, -⟩ := h.addCopies hs hroot hstands hcomplete
    have hwaiting' : ∀ j ∈ todo, ∃ rule d, s'.Stands rule j d := by
      intro j hj
      obtain ⟨rule, d, hj⟩ := hwaiting j (List.mem_cons_of_mem _ hj)
      exact ⟨rule, d, hmore.stands hj⟩
    obtain ⟨s'', hcalm', hmore'⟩ := ih hcalm hmore.plain hmore.rooted hwaiting' hmore.complete
    exact ⟨s'', hcalm', hmore.trans hmore'⟩

/-- In a complete sheet there is nothing to write. -/
theorem Calm.rest (h : Calm s r p) (hs : s.IsPlainFor r) (hroot : s.IsRooted)
    (hwaiting : ∀ i ∈ todo, ∃ rule d, s.Stands rule i d) (hcomplete : s.IsCompleteBut r []) :
    Calm s r (todo.foldl (Pass.addToDeclaration false) p) := by
  refine h.foldl _ _ fun {q i} hi hq => ?_
  obtain ⟨rule, d, hstands⟩ := hwaiting i hi
  obtain ⟨s', hcalm, -, hsame⟩ := hq.addCopies hs hroot hstands (hcomplete.of_nil [i])
  exact hsame hcomplete ▸ hcalm

end Pass

end VendorCss
