import VendorCss.Pass.GridAreas
import VendorCss.Proofs.Sheet.Kinship

/-!
# Groups of templates

A template joins the last group that it shares a name with, or begins one (`TemplateGroup.Collects`). A name that no
template draws is in no group (`TemplateGroup.IsUnaware`). A name that one template draws leads to the group of that
template, in which nothing else draws it, and it is not contested there (`TemplateGroup.IsKnown`), whatever templates come
before and after and however they are grouped (`Sheet.isKnown_templateGroups`).
-/

namespace VendorCss

namespace Grid

variable {name : Text} {a : Area} {media : Option Text} {areas : Areas} {t u : AreaTemplate} {g : TemplateGroup} {gs gs' : List TemplateGroup}

theorem Areas.get?_eq_none : areas.get? name = none ↔ name ∉ areas.names := by
  rw [Areas.get?, Option.map_eq_none_iff, List.find?_eq_none, Areas.names, List.mem_map]
  constructor
  · rintro h ⟨x, hx, rfl⟩
    exact h x hx (beq_self_eq_true _)
  · intro h x hx heq
    exact h ⟨x, hx, eq_of_beq heq⟩

namespace AreaTemplate

theorem names_withForcedSpans (earlier : List AreaTemplate) (areas : Areas) :
    (withForcedSpans earlier areas).names = areas.names := by
  rw [withForcedSpans, Areas.names, List.map_map]
  rfl

/-- Forced spans are told apart from others only where they are asked for. -/
theorem get?_withForcedSpans (earlier : List AreaTemplate) (h : areas.get? name = some a) :
    ∃ b, (withForcedSpans earlier areas).get? name = some b ∧ AreaItem.cells b false = AreaItem.cells a false := by
  induction areas with
  | nil => cases h
  | cons x areas ih =>
    obtain ⟨n, c⟩ := x
    rw [Areas.get?, List.find?_cons] at h
    rw [withForcedSpans, List.map_cons, Areas.get?, List.find?_cons]
    dsimp only at h ⊢
    cases hn : n == name with
    | true =>
      rw [hn] at h
      obtain rfl : c = a := Option.some.inj h
      exact ⟨_, rfl, rfl⟩
    | false =>
      rw [hn] at h
      exact ih h

/-- What is contested was contested before, or is drawn by an earlier template. -/
theorem mem_contestedWith {earlier : List AreaTemplate} {settled : Bool} {names : List Text}
    (h : name ∈ t.contestedWith earlier settled names) :
    name ∈ names ∨ ∃ e ∈ earlier, name ∈ e.contested ∨ e.areas.get? name ≠ none := by
  induction earlier generalizing settled names with
  | nil => exact .inl h
  | cons e earlier ih =>
    have hrest : ∀ {settled names'}, name ∈ t.contestedWith earlier settled names' →
        (name ∈ names' → name ∈ names ∨ name ∈ e.contested ∨ e.areas.get? name ≠ none) →
        name ∈ names ∨ ∃ e' ∈ e :: earlier, name ∈ e'.contested ∨ e'.areas.get? name ≠ none := by
      intro settled names' hmem hnames
      rcases ih hmem with hmem | ⟨e', he', hmem⟩
      · exact (hnames hmem).imp_right fun hmem => ⟨e, List.mem_cons_self, hmem⟩
      · exact .inr ⟨e', List.mem_cons_of_mem _ he', hmem⟩
    rw [contestedWith] at h
    split at h
    · exact hrest h fun hmem => .inr (.inl hmem)
    · split at h
      · exact hrest h .inl
      · refine hrest h fun hmem => ?_
        rcases List.mem_append.1 hmem with hmem | hmem
        · exact .inl hmem
        · have hdrawn := (List.mem_filter.1 hmem).2
          rw [Bool.and_eq_true] at hdrawn
          exact .inr (.inr (Option.isSome_iff_ne_none.1 hdrawn.1))

end AreaTemplate

namespace TemplateGroup

/-! ## One more template -/

/-- A template as it joins a group. -/
def joined (g : TemplateGroup) (t : AreaTemplate) : AreaTemplate :=
  { t with
    areas := AreaTemplate.withForcedSpans g.templates t.areas
    rivalled := !g.templates.any fun e => !e.rivalled && e.sharesSelector t
    contested := t.contestedWith g.templates false [] }

theorem templates_add (g : TemplateGroup) (t : AreaTemplate) : (g.add t).templates = g.templates ++ [g.joined t] := rfl

theorem get?_joined (h : t.areas.get? name = none) (g : TemplateGroup) : (g.joined t).areas.get? name = none := by
  rw [joined, Areas.get?_eq_none, AreaTemplate.names_withForcedSpans]
  exact Areas.get?_eq_none.1 h

theorem mem_names_add : name ∈ (g.add t).names ↔ name ∈ g.names ∨ name ∈ t.areas.names := by
  simp only [add, List.mem_append, List.mem_filter]
  by_cases hg : name ∈ g.names <;> simp [hg]

theorem contains_names_add (h : t.areas.get? name = none) : (g.add t).names.contains name = g.names.contains name := by
  rw [Bool.eq_iff_iff, List.contains_iff_mem, List.contains_iff_mem, mem_names_add,
    or_iff_left (Areas.get?_eq_none.1 h)]

/-- What becomes of groups with one more template. -/
inductive Collects (t : AreaTemplate) : List TemplateGroup → List TemplateGroup → Prop
  | kept (h : t.areas = []) (gs : List TemplateGroup) : Collects t gs gs
  | added (gs₁ : List TemplateGroup) (g : TemplateGroup) (gs₂ : List TemplateGroup) :
      Collects t (gs₁ ++ g :: gs₂) (gs₁ ++ g.add t :: gs₂)
  | begun (gs : List TemplateGroup) : Collects t gs (gs ++ [single t])

theorem addToLast?_eq_some (h : addToLast? t gs = some gs') :
    ∃ gs₁ g gs₂, gs = gs₁ ++ g :: gs₂ ∧ gs' = gs₁ ++ g.add t :: gs₂ := by
  induction gs generalizing gs' with
  | nil => cases h
  | cons g gs ih =>
    rw [addToLast?] at h
    split at h
    · rename_i rest hrest
      obtain ⟨gs₁, g', gs₂, rfl, rfl⟩ := ih hrest
      obtain rfl := Option.some.inj h
      exact ⟨g :: gs₁, g', gs₂, rfl, rfl⟩
    · split at h
      · obtain rfl := Option.some.inj h
        exact ⟨[], g, gs, rfl, rfl⟩
      · cases h

theorem collects (t : AreaTemplate) (gs : List TemplateGroup) : Collects t gs (collect gs t) := by
  unfold collect
  split
  · rename_i hempty
    exact .kept (List.isEmpty_iff.1 hempty) gs
  · cases hadd : addToLast? t gs with
    | none => exact .begun gs
    | some gs' =>
      obtain ⟨gs₁, g, gs₂, rfl, rfl⟩ := addToLast?_eq_some hadd
      exact .added gs₁ g gs₂

/-! ## A name that nothing draws -/

/-- A template neither draws an area nor knows that others contest its name. -/
def Passes (name : Text) (t : AreaTemplate) : Prop := t.areas.get? name = none ∧ name ∉ t.contested

/-- The name is in no group, and nothing in them draws it. -/
def IsUnaware (name : Text) (gs : List TemplateGroup) : Prop :=
  ∀ g ∈ gs, name ∉ g.names ∧ ∀ u ∈ g.templates, Passes name u

theorem notMem_contestedWith {earlier : List AreaTemplate} (h : ∀ e ∈ earlier, Passes name e) :
    name ∉ t.contestedWith earlier false [] := fun hmem => by
  rcases AreaTemplate.mem_contestedWith hmem with hmem | ⟨e, he, hmem | hmem⟩
  · exact List.not_mem_nil hmem
  · exact (h e he).2 hmem
  · exact hmem (h e he).1

theorem IsUnaware.collect (h : IsUnaware name gs) (ht : Passes name t) : IsUnaware name (collect gs t) := by
  have hnames := Areas.get?_eq_none.1 ht.1
  have hcollects := collects t gs
  generalize TemplateGroup.collect gs t = gs' at hcollects
  cases hcollects with
  | kept _ => exact h
  | added gs₁ g gs₂ =>
    intro g' hg'
    rcases List.mem_append.1 hg' with hmem | hmem
    · exact h g' (List.mem_append_left _ hmem)
    · rcases List.mem_cons.1 hmem with rfl | hmem
      · obtain ⟨hg, htemplates⟩ := h g (by simp)
        refine ⟨fun hin => (mem_names_add.1 hin).elim hg hnames, fun u hu => ?_⟩
        rw [templates_add] at hu
        rcases List.mem_append.1 hu with hu | hu
        · exact htemplates u hu
        · obtain rfl := List.mem_singleton.1 hu
          exact ⟨get?_joined ht.1 g, notMem_contestedWith htemplates⟩
      · exact h g' (List.mem_append_right _ (List.mem_cons_of_mem _ hmem))
  | begun =>
    intro g' hg'
    rcases List.mem_append.1 hg' with hmem | hmem
    · exact h g' hmem
    · obtain rfl := List.mem_singleton.1 hmem
      exact ⟨hnames, fun u hu => by rw [List.mem_singleton.1 hu]; exact ht⟩

theorem IsUnaware.foldl {ts : List AreaTemplate} (h : IsUnaware name gs) (hts : ∀ t ∈ ts, Passes name t) :
    IsUnaware name (ts.foldl TemplateGroup.collect gs) := by
  induction ts generalizing gs with
  | nil => exact h
  | cons t ts ih =>
    exact ih (h.collect (hts t List.mem_cons_self)) fun u hu => hts u (List.mem_cons_of_mem _ hu)

theorem IsUnaware.nil (name : Text) : IsUnaware name [] := fun _ hg => absurd hg List.not_mem_nil

/-! ## A name that one template draws -/

/-- One template of the group draws the area, uncontested, and nothing else does. -/
structure DrawsOnce (name : Text) (a : Area) (media : Option Text) (g : TemplateGroup) : Prop where
  mem : g.names.contains name = true
  templates : ∃ before t after, g.templates = before ++ t :: after ∧
    (∀ u ∈ before ++ after, u.areas.get? name = none) ∧ t.media = media ∧ name ∉ t.contested ∧
      ∃ b, t.areas.get? name = some b ∧ AreaItem.cells b false = AreaItem.cells a false

/-- The name leads to a group in which one template draws it. -/
def IsKnown (name : Text) (a : Area) (media : Option Text) (gs : List TemplateGroup) : Prop :=
  ∃ g, gs.find? (fun g => g.names.contains name) = some g ∧ DrawsOnce name a media g

theorem IsUnaware.find?_eq_none (h : IsUnaware name gs) : gs.find? (fun g => g.names.contains name) = none :=
  List.find?_eq_none.2 fun g hg hcontains => (h g hg).1 (List.contains_iff_mem.1 hcontains)

theorem mem_of_find? (h : gs.find? (fun g => g.names.contains name) = some g) : g ∈ gs ∧ name ∈ g.names :=
  ⟨List.mem_of_find?_eq_some h,
    List.contains_iff_mem.1 (List.find?_some (p := fun g : TemplateGroup => g.names.contains name) h)⟩

/-- The template that draws the name comes to groups that do not know it. -/
theorem IsUnaware.isKnown_collect (h : IsUnaware name gs) (ht : t.areas.get? name = some a)
    (hcontested : t.contested = []) : IsKnown name a t.media (TemplateGroup.collect gs t) := by
  have hname : name ∈ t.areas.names := by
    by_contra hnot
    rw [Areas.get?_eq_none.2 hnot] at ht
    cases ht
  have hcollects := collects t gs
  generalize TemplateGroup.collect gs t = gs' at hcollects
  cases hcollects with
  | kept hempty =>
    rw [hempty] at hname
    cases hname
  | added gs₁ g gs₂ =>
    have hin : (g.add t).names.contains name = true := List.contains_iff_mem.2 (mem_names_add.2 (.inr hname))
    have hbefore : IsUnaware name gs₁ := fun g' hg' => h g' (List.mem_append_left _ hg')
    obtain ⟨-, htemplates⟩ := h g (by simp)
    refine ⟨g.add t, ?_, hin, g.templates, g.joined t, [], rfl, fun u hu => ?_, rfl, notMem_contestedWith htemplates,
      AreaTemplate.get?_withForcedSpans g.templates ht⟩
    · rw [List.find?_append, hbefore.find?_eq_none, Option.none_or, List.find?_cons, hin]
    · rw [List.append_nil] at hu
      exact (htemplates u hu).1
  | begun =>
    have hin : (single t).names.contains name = true := List.contains_iff_mem.2 hname
    refine ⟨single t, ?_, hin, [], t, [], rfl, fun u hu => absurd hu List.not_mem_nil, rfl, ?_, a, ht, rfl⟩
    · rw [List.find?_append, h.find?_eq_none, Option.none_or, List.find?_cons, hin]
    · rw [hcontested]
      exact List.not_mem_nil

theorem DrawsOnce.notMem_contested (h : DrawsOnce name a media g) (ht : t ∈ g.templates)
    (hdraws : t.areas.get? name ≠ none) : name ∉ t.contested := by
  obtain ⟨before, u, after, htemplates, hothers, -, hu, -⟩ := h.templates
  rw [htemplates] at ht
  rcases List.mem_append.1 ht with ht | ht
  · exact absurd (hothers t (List.mem_append_left _ ht)) hdraws
  · rcases List.mem_cons.1 ht with rfl | ht
    · exact hu
    · exact absurd (hothers t (List.mem_append_right _ ht)) hdraws

theorem DrawsOnce.add (h : DrawsOnce name a media g) (ht : t.areas.get? name = none) :
    DrawsOnce name a media (g.add t) where
  mem := (contains_names_add ht).trans h.mem
  templates := by
    obtain ⟨before, u, after, htemplates, hothers, hu⟩ := h.templates
    refine ⟨before, u, after ++ [g.joined t], ?_, fun v hv => ?_, hu⟩
    · rw [templates_add, htemplates, List.append_assoc, List.cons_append]
    · rw [← List.append_assoc] at hv
      rcases List.mem_append.1 hv with hv | hv
      · exact hothers v hv
      · rw [List.mem_singleton.1 hv]
        exact get?_joined ht g

/-- Templates that do not draw the name leave its group as it is, up to their own places in it. -/
theorem IsKnown.collect (h : IsKnown name a media gs) (ht : t.areas.get? name = none) :
    IsKnown name a media (TemplateGroup.collect gs t) := by
  obtain ⟨g, hfind, hg⟩ := h
  have hcollects := collects t gs
  generalize TemplateGroup.collect gs t = gs' at hcollects
  cases hcollects with
  | kept => exact ⟨g, hfind, hg⟩
  | added gs₁ g' gs₂ =>
    rw [List.find?_append, List.find?_cons] at hfind
    rw [IsKnown, List.find?_append, List.find?_cons, contains_names_add ht]
    cases hbefore : gs₁.find? fun g => g.names.contains name with
    | some g₁ =>
      rw [hbefore] at hfind
      exact ⟨g, hfind, hg⟩
    | none =>
      rw [hbefore] at hfind
      cases hin : g'.names.contains name with
      | true =>
        rw [hin] at hfind
        obtain rfl : g' = g := Option.some.inj hfind
        exact ⟨g'.add t, rfl, hg.add ht⟩
      | false =>
        rw [hin] at hfind
        exact ⟨g, hfind, hg⟩
  | begun => exact ⟨g, by rw [List.find?_append, hfind, Option.some_or], hg⟩

theorem IsKnown.foldl {ts : List AreaTemplate} (h : IsKnown name a media gs)
    (hts : ∀ t ∈ ts, t.areas.get? name = none) : IsKnown name a media (ts.foldl TemplateGroup.collect gs) := by
  induction ts generalizing gs with
  | nil => exact h
  | cons t ts ih =>
    exact ih (h.collect (hts t List.mem_cons_self)) fun u hu => hts u (List.mem_cons_of_mem _ hu)

end TemplateGroup

end Grid

/-! ## The templates of a sheet -/

namespace Sheet

open Grid TemplateGroup

variable {s : Sheet} {name : Text} {a : Area} {decl : Nat} {d : Declaration} {t : AreaTemplate}

/-- A declaration of the sheet is a template that draws an area of this name. -/
def Draws (s : Sheet) (name : Text) (decl : Nat) : Prop :=
  ∃ d, (decl, d) ∈ s.declarationsBelow rootId ∧ ∃ t, s.areaTemplate? decl d = some t ∧ name ∈ t.areas.names

theorem contested_of_areaTemplate? (h : s.areaTemplate? decl d = some t) : t.contested = [] := by
  rw [areaTemplate?] at h
  split at h
  · obtain ⟨rule, -, rfl⟩ := Option.map_eq_some_iff.1 h
    rfl
  · cases h

/-- Only names that templates draw are names of groups. -/
theorem exists_draws {g : TemplateGroup} (hg : g ∈ s.templateGroups) (hname : name ∈ g.names) : ∃ decl, s.Draws name decl := by
  by_contra hnone
  have hpasses : ∀ t ∈ (s.declarationsBelow rootId).filterMap fun x => s.areaTemplate? x.1 x.2, Passes name t := by
    intro t ht
    obtain ⟨⟨i, d⟩, hmem, ht⟩ := List.mem_filterMap.1 ht
    refine ⟨Areas.get?_eq_none.2 fun hdrawn => hnone ⟨i, d, hmem, t, ht, hdrawn⟩, ?_⟩
    rw [contested_of_areaTemplate? ht]
    exact List.not_mem_nil
  exact (((IsUnaware.nil name).foldl hpasses) g hg).1 hname

theorem declarations_sublist (s : Sheet) (id : Nat) : (s.declarations id).Sublist (s.descendants id) := by
  rw [declarations, descendantsWhere, descendants, ← Forest.map_fst_nodes]
  exact List.filter_sublist.map _

theorem IsNumbered.nodup_declarationsBelow (hs : s.IsNumbered) (id : Nat) :
    ((s.declarationsBelow id).map Prod.fst).Nodup := by
  have hfst : ∀ is : List Nat, ((is.filterMap fun i => (s.declaration? i).map (i, ·)).map Prod.fst).Sublist is := by
    intro is
    induction is with
    | nil => exact .slnil
    | cons i is ih =>
      rw [List.filterMap_cons]
      cases s.declaration? i with
      | none => exact ih.cons i
      | some d => exact ih.cons_cons i
  exact ((hfst _).trans (s.declarations_sublist id)).nodup (hs.nodup_descendants id)

/-- A name that one template draws leads to a group in which it is drawn once. -/
theorem isKnown_templateGroups (hs : s.IsNumbered) (hmem : (decl, d) ∈ s.declarationsBelow rootId)
    (ht : s.areaTemplate? decl d = some t) (ha : t.areas.get? name = some a)
    (honly : ∀ i, s.Draws name i → i = decl) : IsKnown name a t.media s.templateGroups := by
  obtain ⟨before, after, hsplit⟩ := List.append_of_mem hmem
  have hnodup := hs.nodup_declarationsBelow rootId
  -- the templates before and after do not draw the name
  have hothers : ∀ part : List (Nat × Declaration), (∀ x ∈ part, x ∈ s.declarationsBelow rootId ∧ x.1 ≠ decl) →
      ∀ u ∈ part.filterMap fun x => s.areaTemplate? x.1 x.2, Passes name u := by
    intro part hpart u hu
    obtain ⟨⟨i, e⟩, hin, hu⟩ := List.mem_filterMap.1 hu
    obtain ⟨hbelow, hne⟩ := hpart _ hin
    refine ⟨Areas.get?_eq_none.2 fun hdrawn => hne (honly i ⟨e, hbelow, u, hu, hdrawn⟩), ?_⟩
    rw [contested_of_areaTemplate? hu]
    exact List.not_mem_nil
  rw [hsplit, List.map_append, List.map_cons, List.nodup_append, List.nodup_cons] at hnodup
  obtain ⟨-, ⟨hafter, -⟩, hbefore⟩ := hnodup
  have hpassBefore := hothers before fun x hx =>
    ⟨by rw [hsplit]; exact List.mem_append_left _ hx,
      hbefore x.1 (List.mem_map_of_mem hx) decl List.mem_cons_self⟩
  have hpassAfter := hothers after fun x hx =>
    ⟨by rw [hsplit]; exact List.mem_append_right _ (List.mem_cons_of_mem _ hx),
      fun heq => by
        have hin : x.1 ∈ after.map Prod.fst := List.mem_map_of_mem hx
        exact hafter (heq ▸ hin)⟩
  have hunaware : IsUnaware name _ := (IsUnaware.nil name).foldl hpassBefore
  have hknown := hunaware.isKnown_collect ha (contested_of_areaTemplate? ht)
  rw [templateGroups, hsplit, List.filterMap_append, List.filterMap_cons, List.foldl_append]
  simp only [ht, List.foldl_cons]
  exact hknown.foldl fun u hu => (hpassAfter u hu).1

/-- An area that one template at most draws is not contested in its group. -/
theorem notMem_contested_of_draws {g : TemplateGroup} (hs : s.IsNumbered)
    (hfind : s.templateGroups.find? (fun g => g.names.contains name) = some g)
    (hsingle : ∀ i j, s.Draws name i → s.Draws name j → i = j) {u : AreaTemplate} (hu : u ∈ g.templates)
    (hdraws : u.areas.get? name ≠ none) : name ∉ u.contested := by
  obtain ⟨hg, hname⟩ := mem_of_find? hfind
  obtain ⟨decl, hdecl⟩ := exists_draws hg hname
  have ⟨d, hmem, t, ht, hdrawn⟩ := hdecl
  obtain ⟨a, ha⟩ := Option.ne_none_iff_exists'.1 fun hnone => Areas.get?_eq_none.1 hnone hdrawn
  obtain ⟨g', hfind', hg'⟩ := isKnown_templateGroups hs hmem ht ha fun i hi => hsingle i decl hi hdecl
  obtain rfl := Option.some.inj (hfind.symm.trans hfind')
  exact hg'.notMem_contested hu hdraws

end Sheet

end VendorCss
