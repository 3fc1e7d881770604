import VendorCss.Browser.Selection

/-!
# Where selected targets come from

A query selects only versions of agents in the table (`Query.within_resolve`), whatever it says. Where no name of an
agent contains a space, the text `name version` of a selected target therefore tells it from all others, and the texts
of a selection tell the selection (`Selection.eq_of_names`).
-/

namespace VendorCss

/-! ## Targets in order -/

namespace Target

theorem mem_of_mem_dedup {t : Target} {ts : List Target} (h : t ∈ dedup ts) : t ∈ ts := by
  induction ts using dedup.induct with
  | case1 => exact h
  | case2 s => exact h
  | case3 s ts ih =>
    rw [dedup, if_pos rfl] at h
    exact List.mem_cons_of_mem _ (ih h)
  | case4 s u ts hne ih =>
    rw [dedup, if_neg hne, List.mem_cons] at h
    exact List.mem_cons.2 (h.imp_right ih)

theorem mem_of_mem_sort {t : Target} {ts : List Target} (h : t ∈ sort ts) : t ∈ ts := by
  have harrange := mem_of_mem_dedup h
  simp only [arrange, List.mem_map, List.mem_mergeSort] at harrange
  obtain ⟨r, ⟨s, hs, rfl⟩, rfl⟩ := harrange
  exact hs

/-- The text of a target tells the target where the name of the browser ends at the first space. -/
theorem eq_of_render {s t : Target} (hs : ' ' ∉ s.name) (ht : ' ' ∉ t.name) (h : s.render = t.render) : s = t := by
  have hcut : ∀ u : Target, ' ' ∉ u.name →
      u.render.takeWhile (· != ' ') = u.name ∧ u.render.dropWhile (· != ' ') = ' ' :: u.version := by
    intro u hu
    have hname : ∀ c ∈ u.name, (c != ' ') = true := fun c hc => by
      simp only [bne_iff_ne]
      rintro rfl
      exact hu hc
    rw [render, List.takeWhile_append_of_pos hname, List.dropWhile_append_of_pos hname]
    simp
  obtain ⟨hname, hversion⟩ := hcut s hs
  obtain ⟨hname', hversion'⟩ := hcut t ht
  rw [h] at hname hversion
  have heq : s.name = t.name := hname.symm.trans hname'
  have hveq : s.version = t.version := List.tail_eq_of_cons_eq (hversion.symm.trans hversion')
  cases s
  cases t
  simp_all

theorem eq_of_map_render {ss ts : List Target} (hs : ∀ s ∈ ss, ' ' ∉ s.name) (ht : ∀ t ∈ ts, ' ' ∉ t.name)
    (h : ss.map render = ts.map render) : ss = ts := by
  induction ss generalizing ts with
  | nil => exact (List.map_eq_nil_iff.1 h.symm).symm
  | cons s ss ih =>
    cases ts with
    | nil => simp at h
    | cons t ts =>
      simp only [List.map_cons, List.cons.injEq] at h
      rw [eq_of_render (hs s (by simp)) (ht t (by simp)) h.1,
        ih (fun u hu => hs u (by simp [hu])) (fun u hu => ht u (by simp [hu])) h.2]

end Target

/-! ## Queries -/

namespace Query

variable {table : AgentTable} {t : Target} {ts : List Target}

/-- All targets are versions of agents in the table. -/
def Within (table : AgentTable) (ts : List Target) : Prop :=
  ∀ t ∈ ts, ∃ a ∈ table, t.name = a.name ∧ t.version ∈ a.versions

theorem within_targets {a : Agent} (h : a ∈ table) {versions : List Text} (hversions : versions ⊆ a.versions) :
    Within table (a.targets versions) := by
  intro t ht
  obtain ⟨v, hv, rfl⟩ := List.mem_map.1 ht
  exact ⟨a, h, rfl, hversions hv⟩

theorem within_versionsWhere {a : Agent} (h : a ∈ table) (test : Float → Bool) : Within table (versionsWhere a test) :=
  within_targets h fun _ hv => (List.mem_filter.1 hv).1

theorem within_last {a : Agent} (h : a ∈ table) (count : Nat) : Within table (a.targets (a.last count)) :=
  within_targets h fun _ hv => List.mem_reverse.1 (List.mem_of_mem_take hv)

theorem mem_of_exactVersion? {a : Agent} {version known : Text} (h : exactVersion? a version = some known) :
    known ∈ a.versions := by
  unfold exactVersion? at h
  rw [Option.or_eq_some_iff, Option.or_eq_some_iff] at h
  rcases h with h | ⟨-, h | ⟨-, h⟩⟩
  · exact List.mem_of_find?_eq_some h
  · exact List.mem_of_find?_eq_some h
  · exact List.mem_of_find?_eq_some h

theorem mem_of_findAgent {name : Text} {a : Agent} (h : findAgent table name = .ok a) : a ∈ table := by
  unfold findAgent at h
  dsimp only at h
  split at h
  · rename_i found hfound
    cases h
    rw [Option.or_eq_some_iff] at hfound
    rcases hfound with hget | ⟨-, hshown⟩
    · exact List.mem_of_find?_eq_some hget
    · exact List.mem_of_find?_eq_some hshown
  · cases h

theorem within_versionQuery {a : Agent} (ha : a ∈ table) {version query : Text}
    (h : versionQuery a version query = .ok ts) : Within table ts := by
  unfold versionQuery at h
  split at h
  · cases h
    exact within_targets ha (List.Subset.refl _)
  split at h
  · rename_i known hknown
    cases h
    exact within_targets ha (List.cons_subset.2 ⟨mem_of_exactVersion? hknown, List.nil_subset _⟩)
  split at h
  · split at h
    · cases h
      exact within_versionsWhere ha _
    · cases h
  · cases h

theorem within_browserQuery {words : List Text} {query : Text} (h : browserQuery table words query = .ok ts) :
    Within table ts := by
  unfold browserQuery at h
  split at h
  · cases h
  · rename_i name rest
    cases hfind : findAgent table name with
    | error e => simp [hfind, Except.bind, bind] at h
    | ok a =>
      simp only [hfind, Except.bind, bind] at h
      have ha := mem_of_findAgent hfind
      split at h
      · exact within_versionQuery ha h
      · split at h
        · cases h
          exact within_versionsWhere ha _
        · cases h
      · cases h

theorem within_lastQuery {words : List Text} {query : Text} (h : lastQuery table words query = .ok ts) :
    Within table ts := by
  unfold lastQuery at h
  split at h
  · split at h
    · cases h
      intro t ht
      obtain ⟨a, ha, hmem⟩ := List.mem_flatMap.1 ht
      exact within_last ha _ t hmem
    · cases h
  · rename_i count browser word
    split at h
    · cases hfind : findAgent table browser with
      | error e => simp [hfind, Except.map] at h
      | ok a =>
        simp only [hfind, Except.map] at h
        cases h
        exact within_last (mem_of_findAgent hfind) _
    · cases h
  · cases h

theorem within_resolvePlain {query : Text} (h : resolvePlain table query = .ok ts) : Within table ts := by
  unfold resolvePlain at h
  split at h
  · cases h
  split at h
  · split at h
    · exact within_lastQuery h
    · exact within_browserQuery h
  · exact within_browserQuery h

/-- One more query keeps to the versions of agents. -/
theorem within_applyPart {selected : List Target} {part : Text} (hselected : Within table selected)
    (h : applyPart table selected part = .ok ts) : Within table ts := by
  unfold applyPart at h
  split at h
  · rename_i negated _
    cases hone : resolveOne table negated.trim with
    | error e => simp [hone, Except.map] at h
    | ok added =>
      simp only [hone, Except.map] at h
      cases h
      exact fun t ht => hselected t (List.mem_filter.1 ht).1
  · cases hone : resolveOne table part with
    | error e => simp [hone, Except.map] at h
    | ok added =>
      simp only [hone, Except.map] at h
      cases h
      intro t ht
      rcases List.mem_append.1 ht with hold | hnew
      · exact hselected t hold
      · exact within_resolvePlain hone t (List.mem_filter.1 hnew).1

theorem within_foldlM {parts : List Text} {selected : List Target} (hselected : Within table selected)
    (h : parts.foldlM (applyPart table) selected = .ok ts) : Within table ts := by
  induction parts generalizing selected with
  | nil =>
    cases h
    exact hselected
  | cons part parts ih =>
    rw [List.foldlM_cons] at h
    cases hpart : applyPart table selected part with
    | error e => simp [hpart, Except.bind, bind] at h
    | ok next =>
      simp only [hpart, Except.bind, bind] at h
      exact ih (within_applyPart hselected hpart) h

/-- Queries select versions of agents in the table. -/
theorem within_resolve {queries : List Text} (h : resolve table queries = .ok ts) : Within table ts := by
  unfold resolve at h
  cases hparts : (parts queries).foldlM (applyPart table) [] with
  | error e => simp [hparts, Except.map] at h
  | ok selected =>
    simp only [hparts, Except.map] at h
    cases h
    exact fun t ht => within_foldlM (by simp [Within]) hparts t (Target.mem_of_mem_sort ht)

end Query

/-! ## Selections -/

namespace Selection

variable {agents : AgentTable} {queries queries' : List Text} {s s' : Selection}

theorem exists_of_ofQueries (h : ofQueries agents queries = .ok s) :
    ∃ ts, Query.Within agents ts ∧ s = { agents, targets := ts } := by
  unfold ofQueries at h
  cases hresolve : Query.resolve agents queries with
  | error e => simp [hresolve, Except.map] at h
  | ok ts =>
    simp only [hresolve, Except.map] at h
    cases h
    exact ⟨Target.sort ts, fun t ht => Query.within_resolve hresolve t (Target.mem_of_mem_sort ht), rfl⟩

/-- Selections from one table whose targets are written alike are one, where no agent has a space in its name. -/
theorem eq_of_names (hagents : ∀ a ∈ agents, ' ' ∉ a.name) (h : ofQueries agents queries = .ok s)
    (h' : ofQueries agents queries' = .ok s') (hnames : s.names = s'.names) : s = s' := by
  obtain ⟨ts, hts, rfl⟩ := exists_of_ofQueries h
  obtain ⟨ts', hts', rfl⟩ := exists_of_ofQueries h'
  have hspace : ∀ {us : List Target}, Query.Within agents us → ∀ t ∈ us, ' ' ∉ t.name := by
    intro us hus t ht
    obtain ⟨a, ha, hname, -⟩ := hus t ht
    rw [hname]
    exact hagents a ha
  have htargets : ts = ts' :=
    Target.eq_of_map_render (hspace hts) (hspace hts') hnames
  rw [htargets]

end Selection

end VendorCss
