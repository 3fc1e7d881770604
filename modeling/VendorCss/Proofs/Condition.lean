import VendorCss.Css.Condition

/-!
# Conditions in pieces

The conditions that pieces test are the texts of their leaves, in order (`conditions`). Each step of an update is told
by what it does to them: reading and normalizing lose no character (`renderAll_ofText`), dropping alternatives
takes away outdated conditions only (`filter_sublist_dropAlternatives`), adding alternatives writes each condition on its
own (`conditions_addAlternatives`), and unwrapping keeps them all (`conditions_unwrap`). What is tested is printed, in
parentheses (`infix_renderAll`).
-/

namespace VendorCss.ConditionPiece

mutual

/-- The conditions that a piece tests. -/
def conditionsIn : ConditionPiece → List Text
  | text _ => []
  | group [text t] => [t]
  | group ps => conditions ps

/-- Those of pieces one after the other. -/
def conditions : List ConditionPiece → List Text
  | [] => []
  | p :: ps => conditionsIn p ++ conditions ps

end

variable {ps qs : List ConditionPiece} {p : ConditionPiece} {c t : Text}

/-! ## Leaves -/

/-- What a group holds makes it a leaf. -/
def IsLeaf (ps : List ConditionPiece) : Prop := ∃ t, ps = [text t]

theorem isLeaf_cons : IsLeaf (p :: ps) ↔ (∃ t, p = text t) ∧ ps = [] := by
  constructor
  · rintro ⟨t, heq⟩
    obtain ⟨rfl, rfl⟩ := List.cons.inj heq
    exact ⟨⟨t, rfl⟩, rfl⟩
  · rintro ⟨⟨t, rfl⟩, rfl⟩
    exact ⟨t, rfl⟩

theorem conditionsIn_leaf (t : Text) : conditionsIn (group [text t]) = [t] := rfl

theorem conditionsIn_group (h : ¬IsLeaf ps) : conditionsIn (group ps) = conditions ps := by
  rw [conditionsIn]
  exact fun t heq => h ⟨t, heq⟩

theorem conditions_cons (p : ConditionPiece) (ps : List ConditionPiece) :
    conditions (p :: ps) = conditionsIn p ++ conditions ps := rfl

theorem conditions_nil : conditions [] = [] := rfl

theorem conditionsIn_text (t : Text) : conditionsIn (text t) = [] := rfl

theorem conditionsIn_of_leaf? (h : p.leaf? = some t) : conditionsIn p = [t] := by
  unfold leaf? at h
  split at h
  · obtain rfl := Option.some.inj h
    exact conditionsIn_leaf _
  · cases h

theorem conditions_sublist_group (ps : List ConditionPiece) : (conditions ps).Sublist (conditionsIn (group ps)) := by
  by_cases h : IsLeaf ps
  · obtain ⟨t, rfl⟩ := h
    rw [conditions_cons, conditionsIn_text, conditions_nil]
    exact List.nil_sublist _
  · exact conditionsIn_group h ▸ List.Sublist.refl _

/-! ## Reading -/

theorem renderAll_nil : renderAll [] = [] := rfl

theorem renderAll_cons (p : ConditionPiece) (ps : List ConditionPiece) :
    renderAll (p :: ps) = render p ++ renderAll ps := rfl

theorem renderAll_append (ps qs : List ConditionPiece) : renderAll (ps ++ qs) = renderAll ps ++ renderAll qs := by
  induction ps with
  | nil => rfl
  | cons p ps ih => rw [List.cons_append, renderAll_cons, renderAll_cons, ih, List.append_assoc]

/-- The text that a reader has read. -/
def Reader.read (r : Reader) : Text :=
  (r.outer.reverse.flatMap fun before => renderAll before.reverse ++ ['(']) ++ renderAll r.pieces

theorem Reader.renderAll_pieces (r : Reader) : renderAll r.pieces = renderAll r.items.reverse ++ r.run := by
  rw [Reader.pieces, List.reverse_cons, renderAll_append, renderAll_cons, renderAll_nil, render, List.append_nil]

theorem Reader.read_step (r : Reader) (c : Char) : (r.step c).read = r.read ++ [c] := by
  unfold Reader.step
  split
  · simp [Reader.read, Reader.renderAll_pieces, renderAll_nil, renderAll_cons, renderAll_append, render]
  · rename_i before outer houter
    simp [Reader.read, Reader.renderAll_pieces, houter, renderAll_nil, renderAll_cons, renderAll_append, render]
  · simp [Reader.read, Reader.renderAll_pieces]

theorem Reader.read_foldl (t : Text) (r : Reader) : (t.foldl Reader.step r).read = r.read ++ t := by
  induction t generalizing r with
  | nil => exact (List.append_nil _).symm
  | cons c t ih => rw [List.foldl_cons, ih, Reader.read_step, List.append_assoc, List.singleton_append]

theorem renderAll_close (ps : List ConditionPiece) (outer : List (List ConditionPiece)) :
    renderAll (close ps outer) =
      (outer.reverse.flatMap fun before => renderAll before.reverse ++ ['(']) ++ renderAll ps ++
        List.replicate outer.length ')' := by
  induction outer generalizing ps with
  | nil => simp [close]
  | cons before outer ih =>
    rw [close, ih]
    simp [renderAll_nil, renderAll_cons, renderAll_append, render, List.replicate_succ]

/-- The number of parentheses that are open after a text, where `n` are open before it. One that closes nothing is text. -/
def openAfter (n : Nat) : Text → Nat
  | [] => n
  | c :: t => openAfter (if c = '(' then n + 1 else if c = ')' then n - 1 else n) t

theorem Reader.length_outer_step (r : Reader) (c : Char) : (r.step c).outer.length =
    if c = '(' then r.outer.length + 1 else if c = ')' then r.outer.length - 1 else r.outer.length := by
  unfold Reader.step
  split
  · rfl
  · rename_i before outer houter
    rw [houter]
    rfl
  · rename_i c outer hopen hclose
    rw [if_neg hopen]
    split
    · rename_i hc
      cases houter : r.outer with
      | nil => rfl
      | cons before outer => exact absurd houter (hclose before outer hc)
    · rfl

/-- One group of the reader is open for each open parenthesis. -/
theorem Reader.length_outer_foldl (t : Text) (r : Reader) :
    (t.foldl Reader.step r).outer.length = openAfter r.outer.length t := by
  induction t generalizing r with
  | nil => rfl
  | cons c t ih => rw [List.foldl_cons, ih, Reader.length_outer_step, openAfter]

/-- Reading a text loses none of it; the parentheses that it leaves open are closed. -/
theorem renderAll_ofText (t : Text) : renderAll (ofText t) = t ++ List.replicate (openAfter 0 t) ')' := by
  have hread := Reader.read_foldl t {}
  have hopen : (t.foldl Reader.step {}).outer.length = openAfter 0 t := Reader.length_outer_foldl t {}
  rw [ofText, renderAll_close, hopen]
  exact congrArg (· ++ _) hread

mutual

/-- Normalizing keeps the text of a piece. -/
theorem render_normalizePiece : ∀ p : ConditionPiece, (normalizePiece p).render = p.render
  | text t => by rw [normalizePiece]
  | group ps => by
    rw [normalizePiece]
    split
    · rw [render, render, renderAll, renderAll, render, List.append_nil]
    · rw [render, render, renderAll_normalize ps]

/-- The same for pieces one after the other. -/
theorem renderAll_normalize : ∀ ps : List ConditionPiece, renderAll (normalize ps) = renderAll ps
  | [] => by rw [normalize]
  | p :: ps => by
    rw [normalize]
    split
    · rename_i hempty
      cases p with
      | text t =>
        obtain rfl := List.isEmpty_iff.1 hempty
        rw [renderAll_normalize ps]
        rfl
      | group _ => cases hempty
    · rw [renderAll, renderAll, render_normalizePiece p, renderAll_normalize ps]

end

/-! ## Alternatives taken away -/

mutual

theorem filter_sublist_dropAlternativesIn (outdated : Text → Bool) : ∀ p : ConditionPiece,
    ((conditionsIn p).filter fun c => !outdated c).Sublist (conditionsIn (dropAlternativesIn outdated p))
  | text t => by
    rw [dropAlternativesIn]
    exact List.filter_sublist
  | group ps => by
    rw [dropAlternativesIn]
    by_cases h : IsLeaf ps
    · obtain ⟨t, rfl⟩ := h
      rw [dropAlternatives, dropAlternativesIn]
      exact List.filter_sublist
    · rw [conditionsIn_group h]
      exact (filter_sublist_dropAlternatives outdated false ps).trans (conditions_sublist_group _)

/-- Conditions that are not outdated stay, in their order. -/
theorem filter_sublist_dropAlternatives (outdated : Text → Bool) : ∀ (negated : Bool) (ps : List ConditionPiece),
    ((conditions ps).filter fun c => !outdated c).Sublist (conditions (dropAlternatives outdated negated ps))
  | _, [] => by
    rw [dropAlternatives]
    exact List.filter_sublist
  | _, [p] => by
    rw [dropAlternatives, conditions_cons, conditions_cons, conditions_nil, List.append_nil, List.append_nil]
    exact filter_sublist_dropAlternativesIn outdated p
  | negated, p :: q :: ps => by
    rw [dropAlternatives, conditions_cons, List.filter_append]
    split
    · rename_i condition hleaf
      split
      · rename_i hor
        have hq : conditionsIn q = [] := by
          cases q with
          | text t => exact conditionsIn_text t
          | group _ => simp [holds] at hor
        have hps := fun negated => filter_sublist_dropAlternatives outdated negated ps
        rw [conditions_cons, hq, List.nil_append]
        split
        · rename_i houtdated
          rw [conditionsIn_of_leaf? hleaf]
          simpa [houtdated] using hps negated
        · rw [conditions_cons, conditions_cons, hq, List.nil_append]
          exact List.filter_sublist.append (hps _)
      · rw [conditions_cons]
        exact List.filter_sublist.append (filter_sublist_dropAlternatives outdated false (q :: ps))
    · rw [conditions_cons]
      exact (filter_sublist_dropAlternativesIn outdated p).append
        (filter_sublist_dropAlternatives outdated _ (q :: ps))

end

/-! ## Alternatives added -/

/-- A declaration as a condition. -/
def ofDeclaration (d : Text × Text) : Text := d.1 ++ ": " ++ d.2

/-- The conditions that are written for one: its alternatives if it has several, or itself. -/
def written (alternatives : Text → List (Text × Text)) (c : Text) : List Text :=
  if 1 < (alternatives c).length then (alternatives c).map ofDeclaration else [c]

theorem conditions_disjunction : ∀ ds : List (Text × Text), conditions (disjunction ds) = ds.map ofDeclaration
  | [] => by rw [disjunction, conditions_nil, List.map_nil]
  | [(prop, value)] => by
    rw [disjunction, conditions_cons, conditionsIn_leaf, conditions_nil]
    rfl
  | (prop, value) :: d :: ds => by
    rw [disjunction, conditions_cons, conditions_cons, conditionsIn_leaf, conditionsIn_text,
      conditions_disjunction (d :: ds)]
    · rfl
    · exact List.cons_ne_nil d ds

theorem not_isLeaf_disjunction {ds : List (Text × Text)} (h : 1 < ds.length) : ¬IsLeaf (disjunction ds) := by
  match ds, h with
  | (prop, value) :: d :: ds, _ =>
    rw [disjunction, isLeaf_cons]
    · rintro ⟨⟨t, heq⟩, _⟩
      cases heq
    · exact List.cons_ne_nil d ds

theorem isLeaf_addAlternatives (alternatives : Text → List (Text × Text)) :
    IsLeaf (addAlternatives alternatives ps) ↔ IsLeaf ps := by
  cases ps with
  | nil => rw [addAlternatives]
  | cons p ps =>
    rw [addAlternatives, isLeaf_cons, isLeaf_cons]
    have hps : addAlternatives alternatives ps = [] ↔ ps = [] := by cases ps <;> simp [addAlternatives]
    have hp : (∃ t, addAlternativesIn alternatives p = text t) ↔ ∃ t, p = text t := by
      unfold addAlternativesIn
      split
      · rfl
      · split <;> simp
      · simp
    rw [hps, hp]

mutual

theorem conditionsIn_addAlternativesIn (alternatives : Text → List (Text × Text)) : ∀ p : ConditionPiece,
    conditionsIn (addAlternativesIn alternatives p) = (conditionsIn p).flatMap (written alternatives)
  | text t => by
    rw [addAlternativesIn, conditionsIn_text]
    rfl
  | group ps => by
    by_cases h : IsLeaf ps
    · obtain ⟨t, rfl⟩ := h
      rw [addAlternativesIn, conditionsIn_leaf, List.flatMap_singleton, written]
      split
      · rw [conditionsIn_group (not_isLeaf_disjunction ‹_›), conditions_disjunction]
      · exact conditionsIn_leaf t
    · rw [addAlternativesIn, conditionsIn_group h, conditionsIn_group (mt (isLeaf_addAlternatives alternatives).1 h),
        conditions_addAlternatives alternatives ps]
      exact fun t heq => h ⟨t, heq⟩

/-- Alternatives are added to each condition on its own. -/
theorem conditions_addAlternatives (alternatives : Text → List (Text × Text)) : ∀ ps : List ConditionPiece,
    conditions (addAlternatives alternatives ps) = (conditions ps).flatMap (written alternatives)
  | [] => by
    rw [addAlternatives, conditions_nil]
    rfl
  | p :: ps => by
    rw [addAlternatives, conditions_cons, conditions_cons, List.flatMap_append,
      conditionsIn_addAlternativesIn alternatives p, conditions_addAlternatives alternatives ps]

end

/-! ## Parentheses taken away -/

theorem isLeaf_unwrap : IsLeaf (unwrap ps) ↔ IsLeaf ps := by
  cases ps with
  | nil => rw [unwrap]
  | cons p ps =>
    rw [unwrap, isLeaf_cons, isLeaf_cons]
    have hps : unwrap ps = [] ↔ ps = [] := by cases ps <;> simp [unwrap]
    have hp : (∃ t, unwrapPiece p = text t) ↔ ∃ t, p = text t := by
      unfold unwrapPiece
      split <;> simp
    rw [hps, hp]

theorem conditionsIn_group_unwrap (h : conditions (unwrap ps) = conditions ps) :
    conditionsIn (group (unwrap ps)) = conditionsIn (group ps) := by
  by_cases hleaf : IsLeaf ps
  · obtain ⟨t, rfl⟩ := hleaf
    rw [unwrap, unwrap, unwrapPiece]
  · rw [conditionsIn_group hleaf, conditionsIn_group (mt isLeaf_unwrap.1 hleaf), h]

mutual

theorem conditionsIn_unwrapPiece : ∀ p : ConditionPiece, conditionsIn (unwrapPiece p) = conditionsIn p
  | text t => by rw [unwrapPiece]
  | group [] => by
    rw [unwrapPiece, unwrap]
    nofun
  | group (text t :: ps) => by
    rw [unwrapPiece]
    · exact conditionsIn_group_unwrap (conditions_unwrap (text t :: ps))
    · nofun
  | group [group ps] => by
    have hnot : ¬IsLeaf [group ps] := by
      rintro ⟨t, heq⟩
      cases heq
    rw [unwrapPiece, conditionsIn_group hnot, conditions_cons, conditions_nil, List.append_nil]
    exact conditionsIn_group_unwrap (conditions_unwrap ps)
  | group (group ps :: q :: qs) => by
    rw [unwrapPiece]
    · exact conditionsIn_group_unwrap (conditions_unwrap (group ps :: q :: qs))
    · nofun

/-- Taking parentheses away keeps the conditions. -/
theorem conditions_unwrap : ∀ ps : List ConditionPiece, conditions (unwrap ps) = conditions ps
  | [] => by rw [unwrap]
  | p :: ps => by rw [unwrap, conditions_cons, conditions_cons, conditionsIn_unwrapPiece p, conditions_unwrap ps]

end

/-! ## Printing -/

mutual

theorem infix_render : ∀ p : ConditionPiece, c ∈ conditionsIn p → '(' :: c ++ [')'] <:+: p.render
  | text t, h => by
    rw [conditionsIn_text] at h
    cases h
  | group ps, h => by
    by_cases hleaf : IsLeaf ps
    · obtain ⟨t, rfl⟩ := hleaf
      rw [conditionsIn_leaf] at h
      obtain rfl := List.mem_singleton.1 h
      have hrender : (group [text c]).render = '(' :: c ++ [')'] := by
        rw [render, renderAll, renderAll, render, List.append_nil]
      exact hrender ▸ List.infix_refl _
    · rw [conditionsIn_group hleaf] at h
      rw [render]
      exact (infix_renderAll ps h).trans ⟨['('], [')'], rfl⟩

/-- A condition that is tested is printed in parentheses. -/
theorem infix_renderAll : ∀ ps : List ConditionPiece, c ∈ conditions ps → '(' :: c ++ [')'] <:+: renderAll ps
  | [], h => by
    rw [conditions_nil] at h
    cases h
  | p :: ps, h => by
    rw [renderAll]
    rw [conditions_cons] at h
    rcases List.mem_append.1 h with h | h
    · exact (infix_render p h).trans (List.prefix_append _ _).isInfix
    · exact (infix_renderAll ps h).trans (List.suffix_append _ _).isInfix

end

end VendorCss.ConditionPiece
