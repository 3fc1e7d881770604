import VendorCss.Proofs.Pass.AdditionBounds
import VendorCss.Proofs.Sheet.Standing

/-!
# Copies spare their original

What is written for the property of a declaration stands beside it. The declaration stays a child of its rule and says
what it said, and so does every other one there (`Spares`); the only nodes that go are tracks in the first draft of grid,
which areas replace.
-/

namespace VendorCss

namespace Pass

variable {rule decl : Nat} {d : Declaration} {p q r : Pass}

/-- The second pass is reached by steps that leave a declaration of a rule alone, and the spelled values. -/
structure Spares (rule decl : Nat) (d : Declaration) (p q : Pass) : Prop where
  rules : q.rules = p.rules
  values : q.memory.values = p.memory.values
  stands : p.sheet.Stands rule decl d → q.sheet.Stands rule decl d

namespace Spares

theorem refl (p : Pass) : Spares rule decl d p p := ⟨rfl, rfl, id⟩

theorem trans (h : Spares rule decl d p q) (h' : Spares rule decl d q r) : Spares rule decl d p r where
  rules := h'.rules.trans h.rules
  values := h'.values.trans h.values
  stands := h'.stands ∘ h.stands

theorem ite {c : Prop} [Decidable c] (h : c → Spares rule decl d p q) (h' : ¬c → Spares rule decl d p r) :
    Spares rule decl d p (if c then q else r) := by
  split
  · exact h ‹_›
  · exact h' ‹_›

theorem foldl {f : Pass → α → Pass} {xs : List α} (h : ∀ x ∈ xs, ∀ q, Spares rule decl d q (f q x)) (p : Pass) :
    Spares rule decl d p (xs.foldl f p) := by
  induction xs generalizing p with
  | nil => exact refl p
  | cons x xs ih => exact (h x List.mem_cons_self p).trans (ih (fun y hy => h y (List.mem_cons_of_mem _ hy)) (f p x))

theorem of_agrees (h : p.Agrees q) : Spares rule decl d p q := ⟨h.rules, h.values, fun hs => h.sheet ▸ hs⟩

theorem of_learns (h : p.Learns q) : Spares rule decl d p q := .of_agrees h.toAgrees

theorem of_scope (p : Pass) (id : Nat) : Spares rule decl d p (p.scope id).2 := by
  obtain ⟨facts, heq, _⟩ := p.scope_learns id
  rw [heq]
  exact ⟨rfl, rfl, fun hs => hs⟩

theorem of_edit {f : Sheet → Sheet} (h : p.sheet.Stands rule decl d → (f p.sheet).Stands rule decl d) :
    Spares rule decl d p (p.edit f) := ⟨rfl, rfl, h⟩

end Spares

/-! ## Copies -/

variable (p) (id : Nat)

theorem spares_cloneBefore (edit : Node → Node) : Spares rule decl d p (p.edit fun s => s.cloneBefore id edit) :=
  .of_edit fun hs => hs.cloneBefore id edit

theorem spares_setBefore (before : Text) : Spares rule decl d p (p.edit fun s => s.setBefore id before) :=
  .of_edit fun hs => hs.setBefore id before

theorem alignWithCopies_spares (prefixes : List Text) : Spares rule decl d p (p.alignWithCopies id prefixes) := by
  unfold alignWithCopies
  have hrestore : Spares rule decl d p (p.restoreIndentation id) := p.spares_setBefore id _
  refine .ite (fun _ => ?_) fun _ => .refl p
  exact (hrestore.trans (.of_learns (indentation_learns _ id [] prefixes))).trans (spares_setBefore _ id _)

theorem insertPlain_spares (prop value : Text) : Spares rule decl d p (p.insertPlain id prop value) :=
  p.spares_cloneBefore id _

theorem insertVariant_spares (prop value planned : Text) (prefixes : List Text) :
    Spares rule decl d p (p.insertVariant id prop value planned prefixes).2 := by
  unfold insertVariant
  dsimp only
  split
  · exact (Spares.of_learns (p.indentation_learns id planned prefixes)).trans (spares_cloneBefore _ id _)
  · exact p.spares_cloneBefore id _

theorem insertCopy_spares (dialect : PropertyDialect) (planned : Text) (prefixes : List Text) :
    Spares rule decl d p (p.insertCopy dialect id planned prefixes).2 := by
  have hinsert : ∀ (q : Pass) (n : Node), Spares rule decl d q (q.edit fun s => s.insertBefore id n) := fun q n =>
    .of_edit fun hs => hs.splice (q.sheet.isFresh_tree n) (.before id)
  unfold insertCopy
  split
  · split
    · exact .refl p
    · dsimp only
      split
      · exact (Spares.of_learns (p.indentation_learns id planned prefixes)).trans (hinsert _ _)
      · exact hinsert p _
  · exact .refl p

/-! ## Single declarations of the first draft of grid -/

theorem insertKeyword_spares (prop value : Text) : Spares rule decl d p (p.insertKeyword id prop value) :=
  .ite (fun _ => .refl p) fun _ => p.insertPlain_spares id _ value

theorem insertLine_spares (prop : Text) (value : Option Int) : Spares rule decl d p (p.insertLine id prop value) := by
  unfold insertLine
  split
  · exact .ite (fun _ => .refl p) fun _ => p.insertKeyword_spares id prop _
  · exact .refl p

theorem insertEnd_spares (e : Declaration) : Spares rule decl d p (p.insertEnd id e) := by
  unfold insertEnd
  dsimp only
  refine .ite (fun _ => .refl p) fun _ => .ite (fun _ => p.insertPlain_spares id _ _) fun _ => ?_
  split
  · exact (Spares.of_learns (p.warn_learns id _)).trans (insertPlain_spares _ id _ _)
  · split
    · exact p.insertPlain_spares id _ _
    · exact .of_learns (p.warn_learns id _)

theorem insertRowColumn_spares (e : Declaration) : Spares rule decl d p (p.insertRowColumn id e) :=
  (insertLine_spares p id _ _).trans (insertLine_spares _ id _ _)

theorem insertPlaceSelf_spares (e : Declaration) : Spares rule decl d p (p.insertPlaceSelf id e) :=
  .ite (fun _ => .refl p) fun _ => (p.insertKeyword_spares id _ _).trans (insertKeyword_spares _ id _ _)

/-! ## Areas and templates -/

theorem insertArea_spares (e : Declaration) : Spares rule decl d p (p.insertArea id e) := by
  unfold insertArea
  dsimp only
  refine Spares.trans (Spares.trans ?_ (.of_learns (warnTemplateNotFound_learns _ id e)))
    (.of_learns (warnRowColumnBeside_learns _ id))
  exact ((insertLine_spares p id _ _).trans (insertLine_spares _ id _ _)).trans
    ((insertLine_spares _ id _ _).trans (insertLine_spares _ id _ _))

theorem insertTemplate_spares (e : Declaration) : Spares rule decl d p (p.insertTemplate id e).2 := by
  unfold insertTemplate
  dsimp only
  split
  · exact .refl p
  · generalize Grid.Template.ofText e.value _ = template
    let q₀ := (p.warnGap id (p.sheet.gapBeside id) (!template.columns.isEmpty)).2
    let q₁ := q₀.warnMissedAreas id template.areas
    let q₂ :=
      if (!template.rows.isEmpty && !template.columns.isEmpty) || !template.areas.isEmpty then
        q₁.insertPlain id "-ms-grid-rows" template.rows
      else q₁
    have h₁ : Spares rule decl d p q₁ :=
      (Spares.of_learns (p.warnGap_learns id _ _)).trans (.of_learns (q₀.warnMissedAreas_learns id template.areas))
    have h₂ : Spares rule decl d q₁ q₂ := .ite (fun _ => q₁.insertPlain_spares id _ _) fun _ => .refl q₁
    exact (h₁.trans h₂).trans (.ite (fun _ => q₂.insertPlain_spares id _ _) fun _ => .refl q₂)

theorem insertRowsBefore_spares (gap : Grid.Gap) : Spares rule decl d p (insertRowsBefore gap p id) := by
  unfold insertRowsBefore
  split
  · exact .ite (fun _ => p.insertPlain_spares id _ _) fun _ => .refl p
  · exact .refl p

/-- Rows that areas replace go; the declaration is none of them. -/
theorem insertTemplateAreas_spares (e : Declaration) (h : d.prop.contains "-ms-grid-rows" = false) :
    Spares rule decl d p (p.insertTemplateAreas decl e).2 := by
  unfold insertTemplateAreas
  split
  · exact .refl p
  · rename_i parent hparent
    dsimp only
    generalize hold : (p.sheet.declarationsBelow parent).filter _ = old
    let p₁ := p.edit fun s => (old.map Prod.fst).foldl Sheet.remove s
    have h₁ : Spares rule decl d p p₁ := .of_edit fun hs => by
      obtain rfl : parent = rule := Option.some.inj (hparent.symm.trans hs.parent?)
      refine hs.foldl_remove (fun hmem => ?_) fun i hi _ => ?_
      · obtain ⟨⟨i, e⟩, hx, rfl⟩ := List.mem_map.1 hmem
        rw [← hold, List.mem_filter] at hx
        obtain rfl := Option.some.inj ((Sheet.of_mem_declarationsBelow hx.1).2.symm.trans hs.declaration?)
        exact absurd (h.symm.trans hx.2) Bool.false_ne_true
      · obtain ⟨⟨i, e⟩, hx, rfl⟩ := List.mem_map.1 hi
        rw [← hold, List.mem_filter] at hx
        exact (Sheet.of_mem_declarationsBelow hx.1).1
    let inside := p₁.sheet.declarationsBelow parent
    let p₂ := (inside.map Prod.fst).foldl (insertRowsBefore (p.sheet.gapFor decl)) p₁
    have h₂ : Spares rule decl d p p₂ := h₁.trans (.foldl (fun i _ q => insertRowsBefore_spares q i _) p₁)
    refine Spares.trans (Spares.trans ?_ (.of_learns (warnGap_learns _ decl _ _)))
      (.of_learns (warnMissedAreas_learns _ decl _))
    exact h₂.trans (.ite (fun _ => insertPlain_spares _ decl _ _) fun _ => .refl p₂)

/-! ## Automatic placement -/

theorem insertCells_spares (e : Declaration) (gap : Grid.Gap) (flow : Text) :
    Spares rule decl d p (p.insertCells id e gap flow) := by
  unfold insertCells
  dsimp only
  split
  · exact .refl p
  · split
    · exact .of_edit fun hs => hs.foldl _ fun x s hs => hs.splice (s.isFresh_block x.1 x.2) (.after _)
    · exact .refl p

theorem autoplace_spares (e : Declaration) (hasTemplate : Bool) (gap : Grid.Gap) (flow : Text) :
    Spares rule decl d p (p.autoplace id e hasTemplate gap flow) := by
  have hwarn : ∀ message, Spares rule decl d p (p.warn id message) := fun message => .of_learns (p.warn_learns id message)
  unfold autoplace
  dsimp only
  refine .ite (fun _ => .ite (fun _ => .refl p) fun _ => hwarn _) fun _ => ?_
  let q :=
    if !p.hasSibling id "grid-template-columns" && !hasTemplate then
      p.warn id "Autoplacement does not work without grid-template-columns property"
    else p
  have hq : Spares rule decl d p q := .ite (fun _ => hwarn _) fun _ => .refl p
  exact hq.trans (.ite (fun _ => insertCells_spares q id e gap flow) fun _ => .refl q)

theorem insertTracks_spares (e : Declaration) : Spares rule decl d p (p.insertTracks id e) := by
  unfold insertTracks
  split
  · exact .refl p
  · rename_i parent _
    refine .ite (fun _ => .refl p) fun _ => ?_
    dsimp only
    generalize hq : Pass.insertPlain _ id _ _ = q
    have hspares : Spares rule decl d p q :=
      hq ▸ (Spares.of_agrees (p.gridMode_agrees parent)).trans (insertPlain_spares _ id _ _)
    have hflow : Spares rule decl d p (q.autoFlow parent).2 := hspares.trans (.of_learns (q.autoFlow_learns parent))
    exact .ite (fun _ => hflow.trans (autoplace_spares _ id e _ _ _)) fun _ => hflow

/-! ## The copies of a declaration -/

theorem insertOrientation_spares (keyword planned : Text) (prefixes : List Text) :
    Spares rule decl d p (p.insertOrientation id keyword planned prefixes).2 := by
  unfold insertOrientation
  dsimp only
  split
  · exact .refl p
  · exact (insertVariant_spares p id _ _ planned prefixes).trans (insertVariant_spares _ id _ _ planned prefixes)

theorem insertMask_spares (e : Declaration) (planned : Text) (prefixes : List Text) :
    Spares rule decl d p (p.insertMask id e planned prefixes).2 := by
  unfold insertMask
  dsimp only
  split
  · split
    · exact insertVariant_spares p id _ _ planned prefixes
    · exact .refl p
  · split
    · exact (insertVariant_spares p id _ _ planned prefixes).trans (insertVariant_spares _ id _ _ planned prefixes)
    · exact insertVariant_spares p id _ _ planned prefixes

theorem insertWritingMode_spares (e : Declaration) (planned : Text) (prefixes : List Text) :
    Spares rule decl d p (p.insertWritingMode id e planned prefixes).2 := by
  unfold insertWritingMode
  split
  · exact .refl p
  · exact insertVariant_spares p id _ _ planned prefixes

theorem insertFor_spares (dialect : PropertyDialect)
    (h : dialect = .gridTemplateAreas → d.prop.contains "-ms-grid-rows" = false) (e : Declaration) (planned : Text)
    (prefixes : List Text) : Spares rule decl d p (p.insertFor dialect decl e planned prefixes).2 := by
  unfold insertFor
  dsimp only
  split
  · split
    · exact p.insertOrientation_spares decl _ planned prefixes
    · exact .refl p
  · exact p.insertOrientation_spares decl _ planned prefixes
  · exact p.insertMask_spares decl e planned prefixes
  · exact p.insertWritingMode_spares decl e planned prefixes
  · exact p.insertEnd_spares decl e
  · exact p.insertRowColumn_spares decl e
  · exact p.insertArea_spares decl e
  · exact p.insertPlaceSelf_spares decl e
  · exact p.insertTracks_spares decl e
  · exact p.insertTemplate_spares decl e
  · exact p.insertTemplateAreas_spares e (h rfl)
  · split
    · exact .refl p
    · exact p.insertCopy_spares decl _ planned prefixes

end Pass

namespace PropertyVariants

open Pass

variable {rule decl : Nat} {d : Declaration} {v : PropertyVariants}

theorem addVariants_spares (h : v.dialect = .gridTemplateAreas → d.prop.contains "-ms-grid-rows" = false)
    (prefixes written : List Text) (p : Pass) : Spares rule decl d p (v.addVariants decl prefixes written p).2 := by
  induction prefixes generalizing written p with
  | nil => exact .refl p
  | cons planned prefixes ih =>
    rw [addVariants]
    have hstep : Spares rule decl d p (v.addVariant p decl planned (written ++ [planned])).2 := by
      unfold addVariant
      split
      · exact .refl p
      · split
        · exact .refl p
        · exact p.insertFor_spares v.dialect h _ planned _
    exact hstep.trans (ih _ _)

/-- The copies of a declaration leave it in its place. -/
theorem process_spares (h : v.dialect = .gridTemplateAreas → d.prop.contains "-ms-grid-rows" = false) (p : Pass) :
    Spares rule decl d p (v.process p decl) := by
  unfold process
  refine .ite (fun _ => ?_) fun _ => .refl p
  have hadd : Spares rule decl d p
      (v.addVariants decl (v.prefixes.filter (Pass.inScope (p.scope decl).1)) [] (p.scope decl).2).2 :=
    (Spares.of_scope p decl).trans (addVariants_spares h _ [] _)
  dsimp only
  exact .ite (fun _ => hadd) fun _ => hadd.trans (alignWithCopies_spares _ decl _)

end PropertyVariants

/-! ## Values -/

namespace Pass

variable {kind : Text → Prop} {p : Pass} {v : ValueVariants} {id : Nat} {planned : Text}

/-- All values are spelled for planned prefixes of one kind. -/
def SpellsOnly (kind : Text → Prop) (p : Pass) : Prop := ∀ x ∈ p.memory.values, ∀ spelled ∈ x.2, kind spelled.1

theorem SpellsOnly.spelledValues (h : p.SpellsOnly kind) (id : Nat) : ∀ spelled ∈ p.spelledValues id, kind spelled.1 := by
  unfold Pass.spelledValues
  cases hget : p.memory.values.get? id with
  | none => exact fun _ hx => (List.not_mem_nil hx).elim
  | some values => exact h _ (Facts.mem_of_get? hget)

theorem SpellsOnly.spellFor (h : p.SpellsOnly kind) (hplanned : kind planned) :
    (v.spellFor id p planned).SpellsOnly kind := by
  unfold ValueVariants.spellFor
  split
  · exact h
  · dsimp only
    split
    · split
      · intro x hx
        rcases List.mem_cons.1 hx with rfl | hx
        · intro spelled hspelled
          rcases mem_setValueFor hspelled with rfl | hspelled
          · exact hplanned
          · exact h.spelledValues id spelled hspelled
        · exact h x hx
      · exact h
    · exact h

/-- A token is spelled for the planned prefixes in scope. -/
theorem SpellsOnly.process (h : p.SpellsOnly kind)
    (hkind : ∀ planned ∈ v.prefixes, inScope (p.scope id).1 planned = true → kind planned) :
    (v.process p id).SpellsOnly kind := by
  have hfold : ∀ (prefixes : List Text) (q : Pass), q.SpellsOnly kind → (∀ planned ∈ prefixes, kind planned) →
      (prefixes.foldl (v.spellFor id) q).SpellsOnly kind := by
    intro prefixes
    induction prefixes with
    | nil => exact fun _ hq _ => hq
    | cons planned prefixes ih =>
      exact fun q hq hkinds => ih _ (hq.spellFor (hkinds planned List.mem_cons_self)) fun x hx =>
        hkinds x (List.mem_cons_of_mem _ hx)
  have hscope : (p.scope id).2.SpellsOnly kind := by
    obtain ⟨facts, heq, _⟩ := p.scope_learns id
    rw [heq]
    exact h
  unfold ValueVariants.process
  split
  · refine hfold _ (p.scope id).2 hscope fun planned hplanned => ?_
    obtain ⟨hmem, hin⟩ := List.mem_filter.1 hplanned
    exact hkind planned hmem hin
  · exact h

theorem rules_spellFor (v : ValueVariants) (id : Nat) (p : Pass) (planned : Text) :
    (v.spellFor id p planned).rules = p.rules ∧ (v.spellFor id p planned).memory.scope = p.memory.scope := by
  unfold ValueVariants.spellFor
  dsimp only
  repeat' split
  all_goals exact ⟨rfl, rfl⟩

/-- Spelling a token changes no rule, and what is learned of scopes is true. -/
theorem process_knows (v : ValueVariants) (p : Pass) (id : Nat) : (v.process p id).rules = p.rules ∧
    (p.sheet.IsNumbered → p.sheet.node? id ≠ none → p.Knows → (v.process p id).Knows) := by
  have hfold : ∀ (prefixes : List Text) (q : Pass), (prefixes.foldl (v.spellFor id) q).rules = q.rules ∧
      (q.Knows → (prefixes.foldl (v.spellFor id) q).Knows) := by
    intro prefixes
    induction prefixes with
    | nil => exact fun _ => ⟨rfl, fun hq => hq⟩
    | cons planned prefixes ih =>
      intro q
      obtain ⟨hrules, hscope⟩ := rules_spellFor v id q planned
      refine ⟨(ih _).1.trans hrules, fun hq => (ih _).2 ?_⟩
      unfold Knows
      rw [hscope, hrules, ValueVariants.sheet_spellFor]
      exact hq
  obtain ⟨facts, heq, hknows⟩ := p.scope_learns id
  unfold ValueVariants.process
  split
  · dsimp only
    obtain ⟨hrules, hkeeps⟩ := hfold (v.prefixes.filter (inScope (p.scope id).1)) (p.scope id).2
    refine ⟨hrules.trans ?_, fun hs hid hp => hkeeps ?_⟩
    · rw [heq]
      rfl
    · rw [heq]
      exact hknows hs hid hp
  · exact ⟨rfl, fun _ _ hp => hp⟩

/-- The state in which values are written: a declaration stands in its rule, and all values are spelled for prefixes of
a kind. -/
structure Writes (r : Rules) (kind : Text → Prop) (rule decl : Nat) (d : Declaration) (p : Pass) : Prop where
  rules : p.rules = r
  stands : p.sheet.Stands rule decl d
  spells : p.SpellsOnly kind

namespace Writes

variable {r : Rules} {rule decl : Nat} {d : Declaration}

theorem process (h : p.Writes r kind rule decl d) (hkind : ∀ planned ∈ v.prefixes, kind planned) (id : Nat) :
    (v.process p id).Writes r kind rule decl d where
  rules := (process_knows v p id).1.trans h.rules
  stands := by
    rw [ValueVariants.sheet_process]
    exact h.stands
  spells := h.spells.process fun planned hplanned _ => hkind planned hplanned

/-- A value goes into a copy, or into another declaration. -/
theorem saveValue (h : p.Writes r kind rule decl d) (hown : ¬kind (Vendor.ofName d.prop)) {spelled : Text × Text}
    (hspelled : kind spelled.1) (id : Nat) : (saveValue id p spelled).Writes r kind rule decl d := by
  obtain ⟨planned, value⟩ := spelled
  have hedit : ∀ f : Sheet → Sheet, (f p.sheet).Stands rule decl d → (p.edit f).Writes r kind rule decl d :=
    fun f hf => ⟨h.rules, hf, h.spells⟩
  unfold Pass.saveValue
  dsimp only
  split
  · rename_i e parent he _
    split
    · exact h
    · split
      · rename_i hvendor
        refine hedit _ (h.stands.modify fun heq => ?_)
        -- the prefix would be that of the declaration
        rw [heq, h.stands.declaration?] at he
        obtain rfl := Option.some.inj he
        exact absurd (hvendor ▸ hspelled) hown
      · split
        · exact h
        · exact hedit _ (h.stands.cloneBefore id _)
  · exact h

theorem addValues (h : p.Writes r kind rule decl d) (hown : ¬kind (Vendor.ofName d.prop)) {prop : Text}
    (hkind : ∀ v ∈ r.valuesFor prop, ∀ planned ∈ v.prefixes, kind planned) (id : Nat) :
    (Supports.addValues prop p id).Writes r kind rule decl d := by
  have hspell : ∀ (vs : List ValueVariants) (q : Pass), q.Writes r kind rule decl d → (∀ v ∈ vs, v ∈ r.valuesFor prop) →
      (vs.foldl (fun p v => v.process p id) q).Writes r kind rule decl d := by
    intro vs
    induction vs with
    | nil => exact fun _ hq _ => hq
    | cons v vs ih =>
      exact fun q hq hvs => ih _ (hq.process (hkind v (hvs v List.mem_cons_self)) id) fun w hw =>
        hvs w (List.mem_cons_of_mem _ hw)
  have hsave : ∀ (xs : List (Text × Text)) (q : Pass), q.Writes r kind rule decl d → (∀ x ∈ xs, kind x.1) →
      (xs.foldl (Pass.saveValue id) q).Writes r kind rule decl d := by
    intro xs
    induction xs with
    | nil => exact fun _ hq _ => hq
    | cons x xs ih =>
      exact fun q hq hxs => ih _ (hq.saveValue hown (hxs x List.mem_cons_self) id) fun y hy =>
        hxs y (List.mem_cons_of_mem _ hy)
  have hspelled := hspell (p.rules.valuesFor prop) p h fun v hv => h.rules ▸ hv
  exact hsave _ _ hspelled fun x hx => hspelled.spells.spelledValues id x hx

end Writes

end Pass

end VendorCss
