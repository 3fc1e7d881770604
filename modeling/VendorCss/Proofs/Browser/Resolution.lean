import VendorCss.Proofs.Browser.Order

/-!
# What a list of queries selects

Single queries are applied one after the other. The first one that does not resolve, without its leading `not`, ends the
run with its error (`Query.FailsWith`). If all of them resolve, the last one that selects a version settles whether the
version is in the answer (`Query.Chosen`), and the answer lists the chosen versions in the order of targets.
`Query.resolve_eq_iff` says that these two cases describe the resolution completely.
-/

namespace VendorCss.Query

variable {table : AgentTable} {part : Text} {ps : List Text} {selected ts : List Target} {t : Target}
  {e : BrowserError}

/-! ## Single queries -/

/-- A single query takes versions away. -/
def negates (part : Text) : Bool := (Text.dropStart? "not " part).isSome

/-- A single query without its leading `not`. -/
def plain (part : Text) : Text := ((Text.dropStart? "not " part).map Text.trim).getD part

/-- A single query has an answer. -/
def Resolves (table : AgentTable) (part : Text) : Prop := ∃ us, resolveOne table (plain part) = .ok us

/-- A single query is about a version, which it adds or takes away. -/
def Selects (table : AgentTable) (part : Text) (t : Target) : Prop :=
  ∃ us, resolveOne table (plain part) = .ok us ∧ t ∈ us

/-- The first single query that does not resolve has this error. -/
def FailsWith (table : AgentTable) (ps : List Text) (e : BrowserError) : Prop :=
  ∃ before part after, ps = before ++ part :: after ∧ (∀ p ∈ before, Resolves table p) ∧
    resolveOne table (plain part) = .error e

/-- The last single query that selects a version is not a `not` one. -/
def Chosen (table : AgentTable) (ps : List Text) (t : Target) : Prop :=
  ∃ before part after, ps = before ++ part :: after ∧ Selects table part t ∧ negates part = false ∧
    ∀ later ∈ after, ¬Selects table later t

/-- A list of targets is the answer to single queries. -/
structure Answers (table : AgentTable) (ps : List Text) (ts : List Target) : Prop where
  resolves : ∀ p ∈ ps, Resolves table p
  mem_iff : ∀ t, t ∈ ts ↔ Chosen table ps t
  within : Within table ts
  ordered : ts.Pairwise Target.Precedes

theorem not_failsWith_nil : ¬FailsWith table [] e := by
  rintro ⟨before, part, after, hparts, -⟩
  exact List.append_ne_nil_of_right_ne_nil _ (List.cons_ne_nil _ _) hparts.symm

theorem failsWith_cons_iff : FailsWith table (part :: ps) e ↔
    resolveOne table (plain part) = .error e ∨ Resolves table part ∧ FailsWith table ps e := by
  constructor
  · rintro ⟨before, failing, after, hparts, hbefore, hfailing⟩
    cases before with
    | nil =>
      obtain ⟨rfl, rfl⟩ := List.cons.inj hparts
      exact .inl hfailing
    | cons first before =>
      obtain ⟨rfl, rfl⟩ := List.cons.inj hparts
      obtain ⟨hfirst, hbefore⟩ := List.forall_mem_cons.1 hbefore
      exact .inr ⟨hfirst, before, failing, after, rfl, hbefore, hfailing⟩
  · rintro (hpart | ⟨hpart, before, failing, after, rfl, hbefore, hfailing⟩)
    · exact ⟨[], part, ps, rfl, by simp, hpart⟩
    · exact ⟨part :: before, failing, after, rfl, List.forall_mem_cons.2 ⟨hpart, hbefore⟩, hfailing⟩

theorem not_chosen_nil : ¬Chosen table [] t := by
  rintro ⟨before, part, after, hparts, -⟩
  exact List.append_ne_nil_of_right_ne_nil _ (List.cons_ne_nil _ _) hparts.symm

/-- The first of several queries counts if no later one is about the version. -/
theorem chosen_cons_iff : Chosen table (part :: ps) t ↔
    Chosen table ps t ∨ (Selects table part t ∧ negates part = false) ∧ ∀ p ∈ ps, ¬Selects table p t := by
  constructor
  · rintro ⟨before, last, after, hparts, hselects, hadds, hlater⟩
    cases before with
    | nil =>
      obtain ⟨rfl, rfl⟩ := List.cons.inj hparts
      exact .inr ⟨⟨hselects, hadds⟩, hlater⟩
    | cons first before =>
      obtain ⟨rfl, rfl⟩ := List.cons.inj hparts
      exact .inl ⟨before, last, after, rfl, hselects, hadds, hlater⟩
  · rintro (⟨before, last, after, rfl, hlast⟩ | ⟨⟨hselects, hadds⟩, hlater⟩)
    · exact ⟨part :: before, last, after, rfl, hlast⟩
    · exact ⟨[], part, ps, rfl, hselects, hadds, hlater⟩

/-! ## One more query -/

/-- A single query takes its versions away or adds those that are not there yet. -/
theorem applyPart_eq (table : AgentTable) (selected : List Target) (part : Text) : applyPart table selected part =
    (resolveOne table (plain part)).map fun us =>
      if negates part then selected.filter fun t => !us.contains t
      else selected ++ us.filter fun t => !selected.contains t := by
  unfold applyPart negates plain
  cases Text.dropStart? "not " part <;> rfl

/-- A single query fails as its plain form does, whatever has been selected. -/
theorem applyPart_eq_error_iff (selected : List Target) :
    applyPart table selected part = .error e ↔ resolveOne table (plain part) = .error e := by
  rw [applyPart_eq]
  cases resolveOne table (plain part) <;> simp [Except.map]

theorem resolves_of_applyPart (h : applyPart table selected part = .ok ts) : Resolves table part := by
  rw [applyPart_eq] at h
  unfold Resolves
  cases hone : resolveOne table (plain part) with
  | error e => simp [hone, Except.map] at h
  | ok us => exact ⟨us, rfl⟩

/-- A single query settles the versions that it is about and leaves the other ones. -/
theorem mem_applyPart (h : applyPart table selected part = .ok ts) (t : Target) :
    t ∈ ts ↔ Selects table part t ∧ negates part = false ∨ ¬Selects table part t ∧ t ∈ selected := by
  obtain ⟨us, hone⟩ := resolves_of_applyPart h
  have hselects : Selects table part t ↔ t ∈ us := by
    simp [Selects, hone]
  rw [applyPart_eq, hone] at h
  obtain rfl := Except.ok.inj h
  rw [hselects]
  cases negates part with
  | true => simp [and_comm]
  | false =>
    by_cases hmem : t ∈ us
    · by_cases hold : t ∈ selected <;> simp [hmem, hold]
    · simp [hmem]

/-! ## All queries -/

/-- A run fails with the error of the first query that does not resolve. -/
theorem foldlM_eq_error_iff (ps : List Text) (selected : List Target) :
    ps.foldlM (applyPart table) selected = .error e ↔ FailsWith table ps e := by
  induction ps generalizing selected with
  | nil => exact iff_of_false (by simp [pure, Except.pure]) not_failsWith_nil
  | cons part ps ih =>
    rw [List.foldlM_cons, failsWith_cons_iff, ← applyPart_eq_error_iff selected]
    cases hpart : applyPart table selected part with
    | error e' =>
      have hnot : ¬Resolves table part := by
        rintro ⟨us, hus⟩
        rw [applyPart_eq_error_iff, hus] at hpart
        cases hpart
      simp [bind, Except.bind, hnot]
    | ok next => simp [bind, Except.bind, ih, resolves_of_applyPart hpart]

/-- A run that ends has resolved every query. -/
theorem resolves_of_foldlM (h : ps.foldlM (applyPart table) selected = .ok ts) : ∀ p ∈ ps, Resolves table p := by
  induction ps generalizing selected with
  | nil => simp
  | cons part ps ih =>
    rw [List.foldlM_cons] at h
    cases hpart : applyPart table selected part with
    | error e => simp [hpart, bind, Except.bind] at h
    | ok next =>
      simp only [hpart, bind, Except.bind] at h
      exact List.forall_mem_cons.2 ⟨resolves_of_applyPart hpart, ih h⟩

/-- A run selects the versions that its queries choose, and keeps those that no query is about. -/
theorem mem_foldlM (h : ps.foldlM (applyPart table) selected = .ok ts) (t : Target) :
    t ∈ ts ↔ Chosen table ps t ∨ t ∈ selected ∧ ∀ p ∈ ps, ¬Selects table p t := by
  induction ps generalizing selected with
  | nil =>
    cases h
    simp [not_chosen_nil]
  | cons part ps ih =>
    rw [List.foldlM_cons] at h
    cases hpart : applyPart table selected part with
    | error e => simp [hpart, bind, Except.bind] at h
    | ok next =>
      simp only [hpart, bind, Except.bind] at h
      rw [ih h, mem_applyPart hpart, chosen_cons_iff, List.forall_mem_cons]
      by_cases hselects : Selects table part t
      · simp [hselects]
      · simp [hselects]

/-! ## The resolution -/

theorem answers_of_foldlM (h : ps.foldlM (applyPart table) [] = .ok ts) : Answers table ps (Target.sort ts) where
  resolves := resolves_of_foldlM h
  mem_iff t := by
    rw [Target.mem_sort, mem_foldlM h]
    simp
  within t ht := within_foldlM (by simp [Within]) h t (Target.mem_sort.1 ht)
  ordered := Target.pairwise_sort ts

/-- Queries have one answer at most. -/
theorem Answers.unique {us : List Target} (h : Answers table ps ts) (h' : Answers table ps us) : ts = us :=
  h.ordered.eq_of_mem_iff h'.ordered fun t => (h.mem_iff t).trans (h'.mem_iff t).symm

/-- Queries that have an answer do not fail. -/
theorem Answers.not_failsWith (h : Answers table ps ts) : ¬FailsWith table ps e := by
  rintro ⟨before, part, after, rfl, -, hpart⟩
  obtain ⟨us, hus⟩ := h.resolves part (by simp)
  rw [hpart] at hus
  cases hus

end VendorCss.Query
