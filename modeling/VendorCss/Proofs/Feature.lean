import Mathlib.Data.List.Forall2
import VendorCss.Feature.Table

/-!
# What a capability table holds

A table that is read from entries lists each name once (`CapabilityTable.nodup_names`), so a name tells its record. The
targets of its features are versions of known agents, each with the vendor of that version
(`CapabilityTable.vendorOf_support`).
-/

namespace VendorCss

variable {agents : AgentTable}

/-- A reading in two steps succeeds where both do. -/
theorem bind_eq_ok {ε α β : Type} {first : Except ε α} {next : α → Except ε β} {b : β} :
    first >>= next = .ok b ↔ ∃ a, first = .ok a ∧ next a = .ok b := by
  cases first with
  | error e =>
    constructor
    · rintro ⟨⟩
    · rintro ⟨_, ⟨⟩, _⟩
  | ok a =>
    constructor
    · exact fun h => ⟨a, rfl, h⟩
    · rintro ⟨_, ⟨⟩, h⟩
      exact h

/-- All of a list is read where each of its elements is. -/
theorem mapM_eq_ok {ε α β : Type} {f : α → Except ε β} {xs : List α} {ys : List β} :
    xs.mapM f = .ok ys ↔ List.Forall₂ (fun x y => f x = .ok y) xs ys := by
  induction xs generalizing ys with
  | nil =>
    rw [List.forall₂_nil_left_iff]
    exact ⟨fun h => (Except.ok.inj h).symm, fun h => congrArg Except.ok h.symm⟩
  | cons x xs ih =>
    simp only [List.mapM_cons, bind_eq_ok, List.forall₂_cons_left_iff, ih]
    constructor
    · rintro ⟨y, hy, ys', hys, h⟩
      exact ⟨y, ys', hy, hys, (Except.ok.inj h).symm⟩
    · rintro ⟨y, ys', hy, hys, rfl⟩
      exact ⟨y, hy, ys', hys, rfl⟩

theorem exists_of_mem_mapM {ε α β : Type} {f : α → Except ε β} {xs : List α} {ys : List β} (h : xs.mapM f = .ok ys)
    {y : β} (hy : y ∈ ys) : ∃ x ∈ xs, f x = .ok y := by
  induction mapM_eq_ok.1 h with
  | nil => cases hy
  | @cons x z xs ys hz _ ih =>
    rcases List.mem_cons.1 hy with rfl | hy
    · exact ⟨x, List.mem_cons_self, hz⟩
    · obtain ⟨x', hx', hfx⟩ := ih (mapM_eq_ok.2 ‹_›) hy
      exact ⟨x', List.mem_cons_of_mem _ hx', hfx⟩

theorem exists_of_mapM_of_mem {ε α β : Type} {f : α → Except ε β} {xs : List α} {ys : List β} (h : xs.mapM f = .ok ys)
    {x : α} (hx : x ∈ xs) : ∃ y ∈ ys, f x = .ok y := by
  induction mapM_eq_ok.1 h with
  | nil => cases hx
  | @cons z y xs ys hy _ ih =>
    rcases List.mem_cons.1 hx with rfl | hx
    · exact ⟨y, List.mem_cons_self, hy⟩
    · obtain ⟨y', hy', hfx⟩ := ih (mapM_eq_ok.2 ‹_›) hx
      exact ⟨y', List.mem_cons_of_mem _ hy', hfx⟩

theorem exists_mapM {ε α β : Type} {f : α → Except ε β} {xs : List α} (h : ∀ x ∈ xs, ∃ y, f x = .ok y) :
    ∃ ys, xs.mapM f = .ok ys := by
  simp only [mapM_eq_ok]
  induction xs with
  | nil => exact ⟨[], .nil⟩
  | cons x xs ih =>
    obtain ⟨y, hy⟩ := h x List.mem_cons_self
    obtain ⟨ys, hys⟩ := ih fun x' hx' => h x' (List.mem_cons_of_mem _ hx')
    exact ⟨y :: ys, .cons hy hys⟩

/-! ## Names -/

namespace FeatureEntry

/-- No name is repeated where the names differ from each other and from the known ones. -/
theorem repeated?_eq_none {known names : List Text} :
    repeated? known names = none ↔ names.Nodup ∧ ∀ name ∈ names, name ∉ known := by
  induction names generalizing known with
  | nil => exact ⟨fun _ => ⟨List.nodup_nil, fun _ h => (List.not_mem_nil h).elim⟩, fun _ => rfl⟩
  | cons name names ih =>
    rw [repeated?]
    simp only [List.nodup_cons, List.forall_mem_cons, List.contains_iff_mem]
    split
    · rename_i hknown
      simp [hknown]
    · rename_i hknown
      simp only [ih, List.mem_cons, not_or]
      constructor
      · rintro ⟨hnodup, hnew⟩
        exact ⟨⟨fun hmem => (hnew name hmem).1 rfl, hnodup⟩, hknown, fun other hother => (hnew other hother).2⟩
      · rintro ⟨⟨hfresh, hnodup⟩, _, hnew⟩
        exact ⟨hnodup, fun other hother => ⟨fun heq => hfresh (heq ▸ hother), hnew other hother⟩⟩

/-- An expanded entry has its names, none of them known, and the support that its browsers stand for. -/
theorem expand_eq_ok {known : List Text} {e : FeatureEntry} {f : Feature} (h : e.expand agents known = .ok f) :
    expandEntries agents e.browsers = .ok f.support ∧ f.names = e.names ∧ repeated? known e.names = none ∧
      f.props = e.props ∧ f.selector = e.selector := by
  rw [expand, bind_eq_ok] at h
  obtain ⟨support, hsupport, h⟩ := h
  split at h
  · cases h
  · rename_i hrepeated
    cases h
    exact ⟨hsupport, rfl, hrepeated, rfl, rfl⟩

/-- The features of entries come from the first entry and from the others. -/
theorem expandAll_cons_eq_ok {known : List Text} {e : FeatureEntry} {es : List FeatureEntry} {fs : List Feature}
    (h : expandAll agents known (e :: es) = .ok fs) : ∃ f rest, e.expand agents known = .ok f ∧
      expandAll agents (e.names ++ known) es = .ok rest ∧ fs = f :: rest := by
  rw [expandAll, bind_eq_ok] at h
  obtain ⟨f, hf, h⟩ := h
  obtain ⟨rest, hrest, h⟩ := bind_eq_ok.1 h
  cases h
  exact ⟨f, rest, hf, hrest, rfl⟩

/-- The names of all features together differ from each other and from the known ones. -/
theorem nodup_of_expandAll {known : List Text} {es : List FeatureEntry} {fs : List Feature}
    (h : expandAll agents known es = .ok fs) :
    (fs.flatMap Feature.names).Nodup ∧ ∀ name ∈ fs.flatMap Feature.names, name ∉ known := by
  induction es generalizing known fs with
  | nil =>
    cases h
    exact ⟨List.nodup_nil, fun _ h => (List.not_mem_nil h).elim⟩
  | cons e es ih =>
    obtain ⟨f, rest, hf, hrest, rfl⟩ := expandAll_cons_eq_ok h
    obtain ⟨_, hnames, hrepeated, _⟩ := expand_eq_ok hf
    obtain ⟨hfirst, hnew⟩ := repeated?_eq_none.1 hrepeated
    obtain ⟨hothers, hfresh⟩ := ih hrest
    rw [List.flatMap_cons, hnames]
    refine ⟨List.nodup_append.2 ⟨hfirst, hothers, ?_⟩, ?_⟩
    · rintro name hname _ hother rfl
      exact hfresh name hother (List.mem_append_left _ hname)
    · intro name hname
      rcases List.mem_append.1 hname with hname | hname
      · exact hnew name hname
      · exact fun hknown => hfresh name hname (List.mem_append_right _ hknown)

end FeatureEntry

namespace CapabilityTable

variable {queries : List Text} {es : List FeatureEntry} {table : CapabilityTable}

/-- The features of a table are those of its entries. -/
theorem expandAll_of_ofEntries (h : ofEntries agents queries es = .ok table) :
    FeatureEntry.expandAll agents [] es = .ok table.features := by
  rw [ofEntries, bind_eq_ok] at h
  obtain ⟨features, hfeatures, h⟩ := h
  obtain ⟨targets, _, h⟩ := bind_eq_ok.1 h
  cases h
  exact hfeatures

theorem map_name_records (table : CapabilityTable) :
    table.records.map FeatureRecord.name = table.features.flatMap Feature.names := by
  rw [records, List.map_flatMap]
  congr 1
  funext f
  rw [Feature.records, List.map_map]
  exact List.map_id _

/-- No name is listed twice. -/
theorem nodup_names (h : ofEntries agents queries es = .ok table) : (table.records.map FeatureRecord.name).Nodup := by
  rw [map_name_records]
  exact (FeatureEntry.nodup_of_expandAll (expandAll_of_ofEntries h)).1

end CapabilityTable

/-! ## Support -/

/-- A target of an entry is a version of a known agent and has the vendor of that version. -/
def Support.IsOf (agents : AgentTable) (s : Support) : Prop :=
  ∃ a, agents.get? s.target.name = some a ∧ s.target.version ∈ a.versions ∧ s.vendor = a.vendorOf s.target.version

theorem mem_of_matchedVersions {a : Agent} {versions entry version : Text} {matched : List Text}
    (h : matchedVersions a versions entry = .ok matched) (hversion : version ∈ matched) : version ∈ a.versions := by
  rw [matchedVersions] at h
  split at h
  · cases h
    exact (List.mem_filter.1 hversion).1
  · split at h
    · cases h
      exact (List.mem_filter.1 hversion).1
    · cases h

theorem isOf_of_expandEntry {entry : Text} {support : List Support} (h : expandEntry agents entry = .ok support)
    {s : Support} (hs : s ∈ support) : s.IsOf agents := by
  rw [expandEntry] at h
  split at h
  · split at h
    · cases h
      cases hs
    · rename_i a hagent
      cases hmatched : matchedVersions a _ entry with
      | error _ =>
        rw [hmatched] at h
        cases h
      | ok matched =>
        rw [hmatched] at h
        cases h
        obtain ⟨version, hversion, rfl⟩ := List.mem_map.1 hs
        exact ⟨a, hagent, mem_of_matchedVersions hmatched hversion, rfl⟩
  · cases h

/-- The note of the support is the third word of its entry. -/
theorem note_of_expandEntry {entry : Text} {support : List Support} (h : expandEntry agents entry = .ok support)
    {s : Support} (hs : s ∈ support) : s.note = ((Text.words entry).drop 2).head? := by
  rw [expandEntry] at h
  split at h
  · rename_i rest hwords
    rw [hwords]
    split at h
    · cases h
      cases hs
    · cases hmatched : matchedVersions _ _ entry with
      | error _ =>
        rw [hmatched] at h
        cases h
      | ok matched =>
        rw [hmatched] at h
        cases h
        obtain ⟨version, _, rfl⟩ := List.mem_map.1 hs
        rfl
  · cases h

/-- The support of entries comes from one of them. -/
theorem mem_of_expandEntries {entries : List Text} {support : List Support}
    (h : expandEntries agents entries = .ok support) {s : Support} (hs : s ∈ support) :
    ∃ entry ∈ entries, ∃ expanded, expandEntry agents entry = .ok expanded ∧ s ∈ expanded := by
  unfold expandEntries at h
  cases hmapM : entries.mapM (expandEntry agents) with
  | error _ =>
    rw [hmapM] at h
    cases h
  | ok lists =>
    rw [hmapM] at h
    cases h
    obtain ⟨expanded, hexpanded, hs⟩ := List.mem_flatten.1 hs
    obtain ⟨entry, hentry, heq⟩ := exists_of_mem_mapM hmapM hexpanded
    exact ⟨entry, hentry, expanded, heq, hs⟩

/-- The support of all entries has that of each. -/
theorem subset_of_expandEntries {entries : List Text} {support : List Support}
    (h : expandEntries agents entries = .ok support) {entry : Text} (hentry : entry ∈ entries) :
    ∃ expanded, expandEntry agents entry = .ok expanded ∧ expanded ⊆ support := by
  unfold expandEntries at h
  cases hmapM : entries.mapM (expandEntry agents) with
  | error _ =>
    rw [hmapM] at h
    cases h
  | ok lists =>
    rw [hmapM] at h
    cases h
    obtain ⟨expanded, hexpanded, heq⟩ := exists_of_mapM_of_mem hmapM hentry
    exact ⟨expanded, heq, fun s hs => List.mem_flatten.2 ⟨expanded, hexpanded, hs⟩⟩

/-- Every entry has its feature. -/
theorem FeatureEntry.exists_of_expandAll {known : List Text} {es : List FeatureEntry} {fs : List Feature}
    (h : expandAll agents known es = .ok fs) {e : FeatureEntry} (he : e ∈ es) :
    ∃ f ∈ fs, ∃ known, e.expand agents known = .ok f := by
  induction es generalizing known fs with
  | nil => cases he
  | cons first es ih =>
    obtain ⟨f, rest, hf, hrest, rfl⟩ := expandAll_cons_eq_ok h
    rcases List.mem_cons.1 he with rfl | he
    · exact ⟨f, List.mem_cons_self, known, hf⟩
    · obtain ⟨other, hother, expanded⟩ := ih hrest he
      exact ⟨other, List.mem_cons_of_mem _ hother, expanded⟩

/-- A feature of entries comes from one of them. -/
theorem FeatureEntry.mem_of_expandAll {known : List Text} {es : List FeatureEntry} {fs : List Feature}
    (h : expandAll agents known es = .ok fs) {f : Feature} (hf : f ∈ fs) :
    ∃ e ∈ es, ∃ known, e.expand agents known = .ok f := by
  induction es generalizing known fs with
  | nil =>
    cases h
    cases hf
  | cons e es ih =>
    obtain ⟨first, rest, hfirst, hrest, rfl⟩ := expandAll_cons_eq_ok h
    rcases List.mem_cons.1 hf with rfl | hf
    · exact ⟨e, List.mem_cons_self, known, hfirst⟩
    · obtain ⟨other, hother, expanded⟩ := ih hrest hf
      exact ⟨other, List.mem_cons_of_mem _ hother, expanded⟩

/-- The targets of a table are versions of its agents. -/
theorem CapabilityTable.isOf_support {queries : List Text} {es : List FeatureEntry} {table : CapabilityTable}
    (h : ofEntries agents queries es = .ok table) {f : Feature} (hf : f ∈ table.features) :
    ∀ s ∈ f.support, s.IsOf agents := by
  obtain ⟨e, _, known, he⟩ := FeatureEntry.mem_of_expandAll (expandAll_of_ofEntries h) hf
  intro s hs
  obtain ⟨entry, _, _, hentry, hs⟩ := mem_of_expandEntries (FeatureEntry.expand_eq_ok he).1 hs
  exact isOf_of_expandEntry hentry hs

end VendorCss
