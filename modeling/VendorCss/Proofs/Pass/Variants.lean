import VendorCss.Pass.Declaration
import VendorCss.Pass.Value
import VendorCss.Proofs.Pass.Growth

/-!
# Variants are added

Writing the variants of a declaration adds copies before it and aligns it with them; writing the variants of its value
adds copies, or changes the value where the property has the prefix already. Only the dialects of grid do more, and
those are not met while grids are left alone (`writesGrid_ofName`).
-/

namespace VendorCss

namespace Pass

/-! ## Copies of a declaration -/

theorem alignWithCopies_adds (p : Pass) {decl : Nat} (prefixes : List Text)
    (hd : p.IsReady → ∃ d, p.sheet.declaration? decl = some d) : p.Adds (p.alignWithCopies decl prefixes) := by
  unfold alignWithCopies
  refine .ite (fun _ => ?_) fun _ => .refl p
  have hrestore : p.Adds (p.restoreIndentation decl) :=
    p.adds_setBefore (fun hp => Option.isSome_iff_exists.2 (hd hp)) _
  refine hrestore.bind fun hp hfrom => ?_
  obtain ⟨d, hd⟩ := hd hp
  obtain ⟨d', hd', _⟩ := hfrom.prop_eq hp hd
  have hlearn := (p.restoreIndentation decl).indentation_learns decl [] prefixes
  refine (Adds.of_learns hlearn).trans (adds_setBefore _ (fun _ => ?_) _)
  rw [hlearn.sheet, hd']
  rfl

theorem insertCopy_adds (p : Pass) (dialect : PropertyDialect) (decl : Nat) (planned : Text) (prefixes : List Text) :
    p.Adds (p.insertCopy dialect decl planned prefixes).2 := by
  unfold insertCopy
  split
  · rename_i node copy parent hnode _ _
    have hswitch : p.IsReady → (node.mapDeclaration fun _ => copy).isGridSwitch = false := fun hp => by
      rw [Node.isGridSwitch_mapDeclaration]
      exact hp.grids.switches _ (Sheet.mem_nodes_of_node? hnode)
    split
    · exact .refl p
    · dsimp only
      split
      · refine (Adds.of_learns (p.indentation_learns decl planned prefixes)).bind fun hp _ => ?_
        exact adds_insertBefore _ decl fun _ => hswitch hp
      · exact p.adds_insertBefore decl hswitch
  · exact .refl p

theorem insertVariant_adds (p : Pass) (decl : Nat) (prop value planned : Text) (prefixes : List Text) :
    p.Adds (p.insertVariant decl prop value planned prefixes).2 := by
  unfold insertVariant
  dsimp only
  split
  · refine (Adds.of_learns (p.indentation_learns decl planned prefixes)).trans (adds_cloneBefore _ decl fun n => ?_)
    rw [Node.isGridSwitch_mapDeclaration, Node.isGridSwitch_withBefore]
  · exact p.adds_cloneBefore decl fun n => n.isGridSwitch_mapDeclaration _

theorem insertOrientation_adds (p : Pass) (decl : Nat) (keyword planned : Text) (prefixes : List Text) :
    p.Adds (p.insertOrientation decl keyword planned prefixes).2 := by
  unfold insertOrientation
  dsimp only
  split
  · exact .refl p
  · exact (insertVariant_adds p decl _ _ planned prefixes).trans (insertVariant_adds _ decl _ _ planned prefixes)

theorem insertMask_adds (p : Pass) (decl : Nat) (d : Declaration) (planned : Text) (prefixes : List Text) :
    p.Adds (p.insertMask decl d planned prefixes).2 := by
  unfold insertMask
  dsimp only
  split
  · split
    · exact insertVariant_adds p decl _ _ planned prefixes
    · exact .refl p
  · split
    · exact (insertVariant_adds p decl _ _ planned prefixes).trans (insertVariant_adds _ decl _ _ planned prefixes)
    · exact insertVariant_adds p decl _ _ planned prefixes

theorem insertWritingMode_adds (p : Pass) (decl : Nat) (d : Declaration) (planned : Text) (prefixes : List Text) :
    p.Adds (p.insertWritingMode decl d planned prefixes).2 := by
  unfold insertWritingMode
  split
  · exact .refl p
  · exact insertVariant_adds p decl _ _ planned prefixes

end Pass

/-! ## Dialects of grid -/

namespace PropertyDialect

/-- A declaration in the dialect becomes other declarations of a grid. -/
def writesGrid : PropertyDialect → Bool
  | gridEnd | gridRowColumn | gridArea | placeSelf | gridRowsColumns | gridTemplate | gridTemplateAreas => true
  | _ => false

/-- The names of a dialect, with lists of characters in place of literals. -/
def spelledFamily (d : PropertyDialect) : { ns : List Text // d.family = ns } := by
  cases d <;> exact ⟨_, by simp (disch := exact rfl) only [family, Text.toList_eq_of_ofList_eq]; rfl⟩

theorem names_eq_spelled : names = all.flatMap fun d => d.spelledFamily.1.map (·, d) :=
  List.flatMap_congr fun d _ => congrArg (List.map (·, d)) d.spelledFamily.2

/-- A name that is not spelled plainly belongs to the family of its dialect. -/
theorem mem_family_ofName (name : Text) : ofName name = plain ∨ name ∈ (ofName name).family := by
  unfold ofName
  rcases Option.eq_none_or_eq_some (names.find? fun x => x.1 == name) with h | ⟨x, h⟩
  · exact .inl (by rw [h]; rfl)
  · obtain ⟨d, _, hx⟩ := List.mem_flatMap.1 (List.mem_of_find?_eq_some h)
    obtain ⟨n, hn, rfl⟩ := List.mem_map.1 hx
    have heq : n = name := eq_of_beq (List.find?_some (p := fun (x : Text × PropertyDialect) => x.1 == name) h)
    rw [h]
    exact .inr (heq ▸ hn)

/-- All names that become other declarations of a grid speak of a grid, but `place-self`. -/
theorem isGridProperty_of_writesGrid (d : PropertyDialect) (h : d.writesGrid = true) :
    ∀ name ∈ d.family, name = "place-self" ∨ Pass.isGridProperty name = true := by
  cases d <;> first | (cases h; done) | decide

theorem writesGrid_ofName {name : Text} (hg : Pass.isGridProperty name = false) (hp : name ≠ "place-self") :
    (ofName name).writesGrid = false := by
  refine Bool.eq_false_iff.2 fun h => ?_
  rcases mem_family_ofName name with hplain | hmem
  · rw [hplain] at h
    cases h
  · rcases isGridProperty_of_writesGrid _ h name hmem with heq | htrue
    · exact hp heq
    · rw [hg] at htrue
      cases htrue

end PropertyDialect

/-! ## Variants of a declaration -/

theorem Pass.insertFor_adds (p : Pass) {dialect : PropertyDialect} (h : dialect.writesGrid = false) (decl : Nat)
    (d : Declaration) (planned : Text) (prefixes : List Text) :
    p.Adds (p.insertFor dialect decl d planned prefixes).2 := by
  unfold Pass.insertFor
  dsimp only
  split
  case h_1 =>
    split
    · exact p.insertOrientation_adds decl _ planned prefixes
    · exact .refl p
  case h_2 => exact p.insertOrientation_adds decl _ planned prefixes
  case h_3 => exact p.insertMask_adds decl d planned prefixes
  case h_4 => exact p.insertWritingMode_adds decl d planned prefixes
  case h_12 =>
    split
    · exact .refl p
    · exact p.insertCopy_adds _ decl planned prefixes
  all_goals cases h

namespace PropertyVariants

variable {v : PropertyVariants}

theorem addVariant_adds (h : v.dialect.writesGrid = false) (p : Pass) (decl : Nat) (planned : Text)
    (prefixes : List Text) : p.Adds (v.addVariant p decl planned prefixes).2 := by
  unfold addVariant
  split
  · exact .refl p
  · split
    · exact .refl p
    · exact p.insertFor_adds h decl _ planned prefixes

theorem addVariants_adds (h : v.dialect.writesGrid = false) (decl : Nat) (prefixes written : List Text) (p : Pass) :
    p.Adds (v.addVariants decl prefixes written p).2 := by
  induction prefixes generalizing written p with
  | nil => exact .refl p
  | cons planned prefixes ih =>
    rw [addVariants]
    exact (v.addVariant_adds h p decl planned _).trans (ih _ _)

/-- The copies of a declaration are added, and it is aligned with them. -/
theorem process_adds (h : v.dialect.writesGrid = false) (p : Pass) (decl : Nat) : p.Adds (v.process p decl) := by
  unfold process
  refine .ite (fun haccepts => ?_) fun _ => .refl p
  have hd : ∃ d, p.sheet.declaration? decl = some d := by
    unfold accepts at haccepts
    split at haccepts
    · exact ⟨_, ‹_›⟩
    · cases haccepts
  have hadd : p.Adds (v.addVariants decl (v.prefixes.filter (Pass.inScope (p.scope decl).1)) [] (p.scope decl).2).2 :=
    (Pass.Adds.of_scope p decl).trans (v.addVariants_adds h decl _ [] _)
  dsimp only
  refine .ite (fun _ => hadd) fun _ => hadd.bind fun hp hfrom => ?_
  refine Pass.alignWithCopies_adds _ _ fun _ => ?_
  obtain ⟨d, hd⟩ := hd
  obtain ⟨d', hd', _⟩ := hfrom.prop_eq hp hd
  exact ⟨d', hd'⟩

end PropertyVariants

/-! ## Variants of a value -/

namespace Rules

theorem mem_of_mem_applying {props : α → List Text} {prop : Text} {xs : List α} {x : α}
    (h : x ∈ applying props prop xs) : x ∈ xs := by
  rcases List.mem_append.1 h with h | h
  · obtain ⟨y, hy, hx⟩ := List.mem_flatMap.1 h
    rw [List.eq_of_mem_replicate hx]
    exact hy
  · exact (List.mem_filter.1 h).1

/-- What applies to a property says so. -/
theorem mem_props_of_mem_applying {props : α → List Text} {prop : Text} {xs : List α} {x : α}
    (h : x ∈ applying props prop xs) : ("*" : Text) ∈ props x ∨ prop ∈ props x := by
  rcases List.mem_append.1 h with h | h
  · obtain ⟨y, _, hx⟩ := List.mem_flatMap.1 h
    obtain ⟨hcount, rfl⟩ := List.mem_replicate.1 hx
    exact .inl (List.count_pos_iff.1 (Nat.pos_of_ne_zero hcount))
  · exact .inr (List.contains_iff_mem.1 (Bool.and_eq_true_iff.1 (List.mem_filter.1 h).2).1)

/-- Compiled rules are sound, where the prefixes of the plan are not empty. -/
theorem isSound_compile {table : CapabilityTable} {selection : Selection} {options : Options}
    (h : ∀ f ∈ (compile table selection options).plan.add, ∀ planned ∈ f.prefixes, planned ≠ []) :
    (compile table selection options).IsSound where
  dialect := fun v hv => by
    obtain ⟨f, _, rfl⟩ := List.mem_map.1 hv
    rfl
  planned := fun v hv => by
    obtain ⟨f, hf, rfl⟩ := List.mem_map.1 hv
    exact h f (List.mem_filter.1 hf).1

end Rules

namespace Pass

theorem mem_setValueFor {planned value : Text} {values : List (Text × Text)} {x : Text × Text}
    (h : x ∈ setValueFor planned value values) : x = (planned, value) ∨ x ∈ values := by
  induction values with
  | nil => exact .inl (List.mem_singleton.1 h)
  | cons y values ih =>
    rw [setValueFor] at h
    split at h
    · rcases List.mem_cons.1 h with rfl | h
      · exact .inl rfl
      · exact .inr (List.mem_cons_of_mem _ h)
    · rcases List.mem_cons.1 h with rfl | h
      · exact .inr List.mem_cons_self
      · exact (ih h).imp_right (List.mem_cons_of_mem _)

/-- The spelled values of a declaration are for vendors. -/
theorem IsReady.spelledValues {p : Pass} (hp : p.IsReady) (decl : Nat) :
    ∀ spelled ∈ p.spelledValues decl, spelled.1 ≠ [] := by
  unfold Pass.spelledValues
  cases h : p.memory.values.get? decl with
  | none => simp
  | some values => exact hp.values _ (Facts.mem_of_get? h)

theorem recordValue_adds (p : Pass) (decl : Nat) {planned : Text} (h : planned ≠ []) (value : Text) :
    p.Adds (p.recordValue decl planned value) := fun hp => {
  ready := {
    rules := hp.rules
    numbered := hp.numbered
    grids := ⟨hp.grids.options, hp.grids.switches, hp.grids.facts⟩
    values := fun x hx => by
      rcases List.mem_cons.1 hx with rfl | hx
      · intro spelled hs
        rcases mem_setValueFor hs with heq | hs
        · rw [heq]
          exact h
        · exact hp.spelledValues decl spelled hs
      · exact hp.values x hx }
  rules := rfl
  grows := .refl Node.sameFrame_refl _ }

/-- A value is changed in place only where the property has the prefix. -/
theorem saveValue_adds (decl : Nat) (p : Pass) {spelled : Text × Text} (h : spelled.1 ≠ []) :
    p.Adds (saveValue decl p spelled) := by
  obtain ⟨planned, value⟩ := spelled
  unfold saveValue
  dsimp only
  split
  · rename_i d rule hd _
    refine .ite (fun _ => .refl p) fun _ => .ite (fun hvendor => ?_) fun _ => ?_
    · refine p.adds_setValue (fun _ d' hd' => ?_) _
      obtain rfl : d = d' := Option.some.inj (hd.symm.trans hd')
      have hne : (Vendor.ofName d.prop).isEmpty = false := by
        rw [hvendor]
        exact List.isEmpty_eq_false_iff.2 h
      rw [Node.hasFreeValue, hne]
      exact Bool.or_true _
    · exact .ite (fun _ => .refl p) fun _ => p.adds_cloneBefore decl fun n => n.isGridSwitch_mapDeclaration _
  · exact .refl p

theorem saveValues_adds (p : Pass) (decl : Nat) : p.Adds (p.saveValues decl) := fun hp =>
  Adds.foldl (fun _ hs p => saveValue_adds decl p (hp.spelledValues decl _ hs)) p hp

end Pass

namespace ValueVariants

theorem spellFor_adds (v : ValueVariants) (decl : Nat) (p : Pass) {planned : Text} (h : planned ≠ []) :
    p.Adds (v.spellFor decl p planned) := by
  unfold spellFor
  split
  · exact .refl p
  · refine .ite (fun _ => ?_) fun _ => .refl p
    dsimp only
    split
    · exact p.recordValue_adds decl h _
    · exact .refl p

theorem process_adds {v : ValueVariants} (h : ∀ planned ∈ v.prefixes, planned ≠ []) (p : Pass) (decl : Nat) :
    p.Adds (v.process p decl) := by
  unfold process
  refine .ite (fun _ => ?_) fun _ => .refl p
  refine (Pass.Adds.of_scope p decl).trans (.foldl (fun planned hmem q => ?_) _)
  exact v.spellFor_adds decl q (h planned (List.mem_filter.1 hmem).1)

end ValueVariants

end VendorCss
