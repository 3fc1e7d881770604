import Mathlib.Data.List.Dedup
import VendorCss.Browser.Bundled
import VendorCss.Browser.Selection
import VendorCss.Feature.Bundled
import VendorCss.Proofs.Feature
import VendorCss.Proofs.Plan

/-!
# What the bundled data holds

The bundled agents and the bundled table are read without an error (`CapabilityTable.exists_bundled`). The agents have
the four vendors that values are searched for (`AgentTable.vendors_bundled`), so a prefix that is planned for a feature
is one of these, with a note of its entry or without one (`CapabilityTable.mem_plannable`). What holds for all of these
is found out by looking at each entry, with its texts spelled out: the kernel is slow at taking a literal apart.
-/

namespace VendorCss

/-! ## Agents -/

/-- An agent has the vendors of its entry. -/
theorem AgentEntry.vendors_of_expand {e : AgentEntry} {a : Agent} (h : e.expand = .ok a) :
    a.vendor = e.vendor ∧ ∀ x ∈ a.exceptions, ∃ y ∈ e.exceptions, x.2 = y.2 := by
  rw [expand, bind_eq_ok] at h
  obtain ⟨versions, _, h⟩ := h
  obtain ⟨exceptions, hexceptions, h⟩ := bind_eq_ok.1 h
  cases h
  refine ⟨rfl, fun x hx => ?_⟩
  obtain ⟨group, hgroup, hx⟩ := List.mem_flatten.1 hx
  obtain ⟨y, hy, heq⟩ := exists_of_mem_mapM hexceptions hgroup
  obtain ⟨range, _, heq⟩ := bind_eq_ok.1 heq
  cases heq
  obtain ⟨version, _, rfl⟩ := List.mem_map.1 hx
  exact ⟨y, hy, rfl⟩

namespace AgentTable

variable {agents : AgentTable}

/-- The bundled agents with lists of characters in place of literals. -/
def spelledEntries : { es : List AgentEntry // bundledEntries = es } :=
  ⟨_, by simp (disch := exact rfl) only [bundledEntries, Text.toList_eq_of_ofList_eq]; rfl⟩

theorem exists_bundled : ∃ agents, bundled = .ok agents := by
  have hsome : bundled.toOption.isSome = true := by
    rw [bundled, spelledEntries.2]
    decide +kernel
  cases h : bundled with
  | ok agents => exact ⟨agents, rfl⟩
  | error _ =>
    rw [h] at hsome
    cases hsome

/-- The agent of a name is that of the first entry with the name. -/
theorem exists_get?_of_ofEntries {es : List AgentEntry} (h : ofEntries es = .ok agents) {name : Text} {e : AgentEntry}
    (he : es.find? (fun e => e.name == name) = some e) : ∃ a, agents.get? name = some a ∧ e.expand = .ok a := by
  have hname {e : AgentEntry} {a : Agent} (hexpand : e.expand = .ok a) : a.name = e.name := by
    rw [AgentEntry.expand, bind_eq_ok] at hexpand
    obtain ⟨versions, _, hexpand⟩ := hexpand
    obtain ⟨exceptions, _, hexpand⟩ := bind_eq_ok.1 hexpand
    cases hexpand
    rfl
  have hall := mapM_eq_ok.1 h
  clear h
  unfold get?
  induction hall with
  | nil => cases he
  | @cons first a es agents hfirst _ ih =>
    rw [List.find?_cons] at he ⊢
    rw [hname hfirst]
    split at he
    · cases he
      exact ⟨a, rfl, hfirst⟩
    · exact ih he

theorem vendors_of_mem (h : bundled = .ok agents) {a : Agent} (ha : a ∈ agents) :
    a.vendor ∈ Vendor.known ∧ ∀ x ∈ a.exceptions, x.2 ∈ Vendor.known := by
  have hknown : ∀ e ∈ bundledEntries, e.vendor ∈ Vendor.known ∧ ∀ x ∈ e.exceptions, x.2 ∈ Vendor.known := by
    rw [spelledEntries.2]
    decide +kernel
  obtain ⟨e, he, hexpand⟩ := exists_of_mem_mapM h ha
  obtain ⟨hvendor, hexceptions⟩ := AgentEntry.vendors_of_expand hexpand
  rw [hvendor]
  refine ⟨(hknown e he).1, fun x hx => ?_⟩
  obtain ⟨y, hy, heq⟩ := hexceptions x hx
  rw [heq]
  exact (hknown e he).2 y hy

theorem vendorOf_mem (h : bundled = .ok agents) {a : Agent} (ha : a ∈ agents) (version : Text) :
    a.vendorOf version ∈ Vendor.known := by
  obtain ⟨hvendor, hexceptions⟩ := vendors_of_mem h ha
  unfold Agent.vendorOf
  split
  · rename_i vendor hfound
    exact hexceptions _ (List.mem_reverse.1 (List.mem_of_find?_eq_some hfound))
  · exact hvendor

/-- The vendors of the bundled agents. -/
theorem vendors_bundled (h : bundled = .ok agents) : ∀ vendor ∈ agents.vendors, vendor ∈ Vendor.known := by
  intro vendor hvendor
  simp only [vendors, List.mem_mergeSort, Text.mem_distinct, List.mem_flatMap, List.mem_cons, List.mem_map,
    Agent.exceptionMap] at hvendor
  obtain ⟨a, ha, rfl | ⟨_, ⟨version, _, rfl⟩, rfl⟩⟩ := hvendor
  · exact (vendors_of_mem h ha).1
  · exact vendorOf_mem h ha version

end AgentTable

/-- The vendors of a selection among bundled agents. -/
theorem Selection.vendors_bundled {agents : AgentTable} {queries : List Text} {selection : Selection}
    (hagents : AgentTable.bundled = .ok agents) (h : ofQueries agents queries = .ok selection) :
    ∀ vendor ∈ selection.vendors, vendor ∈ Vendor.known := by
  unfold ofQueries at h
  cases hresolve : Query.resolve agents queries with
  | error _ =>
    rw [hresolve] at h
    cases h
  | ok targets =>
    rw [hresolve] at h
    cases h
    exact AgentTable.vendors_bundled hagents

/-! ## Entries that are read -/

namespace FeatureEntry

/-- An entry has a browser and versions; where these are a range, its bounds are numbers. -/
def isReadable (entry : Text) : Bool :=
  match Text.words entry with
  | _ :: versions :: _ =>
    (Text.splitFirst ".." versions).all fun (low, high) => (versionNumber? low).isSome && (versionNumber? high).isSome
  | _ => false

theorem exists_matchedVersions (a : Agent) {versions : Text} (entry : Text)
    (h : ((Text.splitFirst ".." versions).all fun (low, high) =>
      (versionNumber? low).isSome && (versionNumber? high).isSome) = true) :
    ∃ matched, matchedVersions a versions entry = .ok matched := by
  unfold matchedVersions
  split
  · exact ⟨_, rfl⟩
  · rename_i low high hsplit
    rw [hsplit, Option.all_some, Bool.and_eq_true] at h
    obtain ⟨low', hlow⟩ := Option.isSome_iff_exists.1 h.1
    obtain ⟨high', hhigh⟩ := Option.isSome_iff_exists.1 h.2
    rw [hlow, hhigh]
    exact ⟨_, rfl⟩

theorem exists_expandEntry (agents : AgentTable) {entry : Text} (h : isReadable entry = true) :
    ∃ support, expandEntry agents entry = .ok support := by
  unfold isReadable at h
  unfold expandEntry
  cases hwords : Text.words entry with
  | nil =>
    rw [hwords] at h
    cases h
  | cons name more =>
    cases more with
    | nil =>
      rw [hwords] at h
      cases h
    | cons versions rest =>
      rw [hwords] at h
      dsimp only at h ⊢
      cases agents.get? name with
      | none => exact ⟨_, rfl⟩
      | some a =>
        obtain ⟨matched, hmatched⟩ := exists_matchedVersions a entry h
        dsimp only
        rw [hmatched]
        exact ⟨_, rfl⟩

theorem exists_expandEntries (agents : AgentTable) {entries : List Text}
    (h : ∀ entry ∈ entries, isReadable entry = true) : ∃ support, expandEntries agents entries = .ok support := by
  obtain ⟨lists, hlists⟩ := exists_mapM fun entry hentry => exists_expandEntry agents (h entry hentry)
  unfold expandEntries
  rw [hlists]
  exact ⟨_, rfl⟩

/-- Readable entries with different names are read. -/
theorem exists_expandAll (agents : AgentTable) {known : List Text} {es : List FeatureEntry}
    (hentries : ∀ e ∈ es, ∀ entry ∈ e.browsers, isReadable entry = true) (hnodup : (es.flatMap names).Nodup)
    (hnew : ∀ name ∈ es.flatMap names, name ∉ known) : ∃ fs, expandAll agents known es = .ok fs := by
  induction es generalizing known with
  | nil => exact ⟨[], rfl⟩
  | cons e es ih =>
    rw [List.flatMap_cons] at hnodup hnew
    obtain ⟨hfirst, hothers, hapart⟩ := List.nodup_append.1 hnodup
    obtain ⟨support, hsupport⟩ := exists_expandEntries agents (hentries e List.mem_cons_self)
    have hrepeated : repeated? known e.names = none :=
      repeated?_eq_none.2 ⟨hfirst, fun name hname => hnew name (List.mem_append_left _ hname)⟩
    have hfresh : ∀ name ∈ es.flatMap names, name ∉ e.names ++ known := fun name hname hmem =>
      (List.mem_append.1 hmem).elim (fun hearlier => hapart name hearlier name hname rfl)
        (hnew name (List.mem_append_right _ hname))
    obtain ⟨rest, hrest⟩ := ih (fun e' he' => hentries e' (List.mem_cons_of_mem _ he')) hothers hfresh
    simp only [expandAll, bind_eq_ok, expand, hsupport, hrepeated]
    exact ⟨_, _, ⟨_, rfl, rfl⟩, rest, hrest, rfl⟩

/-- The prefixes that may be planned for an entry: the known vendors with each of its notes. -/
def plannable (e : FeatureEntry) : List Text :=
  (e.browsers.map fun entry => ((Text.words entry).drop 2).head?).dedup.flatMap fun note =>
    Vendor.known.map fun vendor => Support.spelling ⟨default, vendor, note⟩

end FeatureEntry

/-! ## The bundled table -/

namespace CapabilityTable

variable {agents : AgentTable} {table : CapabilityTable} {selection : Selection} {options : Options}

/-- The bundled entries with lists of characters in place of literals. -/
def spelledEntries : { es : List FeatureEntry // bundledEntries = es } :=
  ⟨_, by simp (disch := exact rfl) only [bundledEntries, Text.toList_eq_of_ofList_eq]; rfl⟩

/-- A number for a text, which tells it apart from texts with another one. -/
def nameNumber (t : Text) : Nat := t.foldl (fun n c => n * 256 + c.toNat) 0

/-- The names that the draft of 2009 had for flexbox. The table lists the final ones only. -/
def boxNames : List Text :=
  ["box-flex", "box-orient", "box-direction", "box-pack", "box-align", "box-ordinal-group", "box-lines"]

/-- The bundled names differ from each other and from those of the draft of 2009, and none has a vendor. -/
theorem bundledNames_spec : (boxNames ++ bundledEntries.flatMap FeatureEntry.names).Nodup ∧
    ∀ name ∈ bundledEntries.flatMap FeatureEntry.names, name.head? ≠ some '-' := by
  have hnames : ((boxNames ++ bundledEntries.flatMap FeatureEntry.names).map nameNumber).Nodup ∧
      ∀ name ∈ bundledEntries.flatMap FeatureEntry.names, name.head? ≠ some '-' := by
    rw [spelledEntries.2]
    decide +kernel
  exact ⟨.of_map _ hnames.1, hnames.2⟩

/-- The bundled table is read without an error. -/
theorem exists_bundled (agents : AgentTable) : ∃ table, bundled agents = .ok table := by
  have hentries : ∀ e ∈ bundledEntries, ∀ entry ∈ e.browsers, FeatureEntry.isReadable entry = true := by
    rw [spelledEntries.2]
    decide +kernel
  have hqueries : ∀ entry ∈ bundledFeatureQueries, FeatureEntry.isReadable entry = true := by decide +kernel
  have hnew : ∀ name ∈ bundledEntries.flatMap FeatureEntry.names, name ∉ ([] : List Text) :=
    fun _ _ => List.not_mem_nil
  obtain ⟨features, hfeatures⟩ :=
    FeatureEntry.exists_expandAll agents hentries (List.nodup_append.1 bundledNames_spec.1).2.1 hnew
  obtain ⟨queries, hsupport⟩ := FeatureEntry.exists_expandEntries agents hqueries
  simp only [bundled, ofEntries, bind_eq_ok]
  exact ⟨_, features, hfeatures, queries, hsupport, rfl⟩

/-- The support that the bundled table lists is for the known vendors. -/
theorem vendor_mem_known (hagents : AgentTable.bundled = .ok agents) (h : bundled agents = .ok table) {f : Feature}
    (hf : f ∈ table.features) {s : Support} (hs : s ∈ f.support) : s.vendor ∈ Vendor.known := by
  obtain ⟨e, _, known, hexpand⟩ := FeatureEntry.mem_of_expandAll (expandAll_of_ofEntries h) hf
  obtain ⟨entry, _, _, hexpanded, hmem⟩ := mem_of_expandEntries (FeatureEntry.expand_eq_ok hexpand).1 hs
  obtain ⟨a, ha, _, hvendor⟩ := isOf_of_expandEntry hexpanded hmem
  rw [hvendor]
  exact AgentTable.vendorOf_mem hagents (List.mem_of_find?_eq_some ha) _

/-- A feature of the bundled table comes from an entry, which lists what may be planned for it. -/
theorem mem_plannable (hagents : AgentTable.bundled = .ok agents) (h : bundled agents = .ok table) {f : Feature}
    (hf : f ∈ table.features) : ∃ e ∈ bundledEntries, f.names = e.names ∧ f.props = e.props ∧
      f.selector = e.selector ∧ ∀ planned ∈ f.wanted selection options, planned ∈ e.plannable := by
  obtain ⟨e, he, known, hexpand⟩ := FeatureEntry.mem_of_expandAll (expandAll_of_ofEntries h) hf
  obtain ⟨hsupport, hnames, _, hprops, hselector⟩ := FeatureEntry.expand_eq_ok hexpand
  refine ⟨e, he, hnames, hprops, hselector, fun planned hplanned => ?_⟩
  obtain ⟨⟨s, hs, _, rfl⟩, _⟩ := Feature.mem_wanted.1 hplanned
  obtain ⟨entry, hentry, _, hexpanded, hmem⟩ := mem_of_expandEntries hsupport hs
  refine List.mem_flatMap.2 ⟨s.note, ?_, List.mem_map.2 ⟨s.vendor, vendor_mem_known hagents h hf hs, rfl⟩⟩
  rw [note_of_expandEntry hexpanded hmem, List.mem_dedup]
  exact List.mem_map_of_mem hentry

/-- The final names of flexbox are in use, without their vendors. -/
theorem names_bundled (h : bundled agents = .ok table) {f : Feature} (hf : f ∈ table.features) {name : Text}
    (hname : name ∈ f.names) : name ∉ boxNames ∧ name.head? ≠ some '-' := by
  obtain ⟨e, he, known, hexpand⟩ := FeatureEntry.mem_of_expandAll (expandAll_of_ofEntries h) hf
  rw [(FeatureEntry.expand_eq_ok hexpand).2.1] at hname
  have hmem : name ∈ bundledEntries.flatMap FeatureEntry.names := List.mem_flatMap.2 ⟨e, he, hname⟩
  exact ⟨fun hbox => (List.nodup_append.1 bundledNames_spec.1).2.2 name hbox name hmem rfl,
    bundledNames_spec.2 name hmem⟩

end CapabilityTable

end VendorCss
