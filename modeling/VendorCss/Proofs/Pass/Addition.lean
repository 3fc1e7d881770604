import VendorCss.Pass.Addition
import VendorCss.Proofs.Pass.Variants
import VendorCss.Proofs.Plan
import VendorCss.Proofs.Sheet.Numbering

/-!
# Adding keeps what the author wrote

With grids left alone every handler only adds (`addMissing_adds`): the nodes that were there before stay in their order
and under their parents, and each keeps its frame (`addMissing_keeps`). A handler that meets a node which another one
has put in or moved the values of needs no care: what it does is a step of the same kind.
-/

namespace VendorCss

/-! ## At-rules and rules -/

theorem AtRuleVariants.process_adds (v : AtRuleVariants) (p : Pass) (rule : Nat) : p.Adds (v.process p rule) := by
  refine (Pass.Adds.of_scope p rule).trans (.foldl (fun planned _ q => ?_) _)
  unfold addVariant
  split
  · dsimp only
    refine .ite (fun _ => .refl q) fun _ => q.adds_cloneBefore rule fun n => n.isGridSwitch_mapAtRule _
  · exact .refl q

theorem SelectorVariants.process_adds (v : SelectorVariants) (p : Pass) (rule : Nat) : p.Adds (v.process p rule) := by
  unfold process
  refine .ite (fun _ => ?_) fun _ => .refl p
  refine (Pass.Adds.of_scope p rule).trans (.foldl (fun planned _ q => ?_) _)
  unfold addVariant
  split
  · exact .refl q
  · dsimp only
    refine .ite (fun _ => .refl q) fun _ => ?_
    split
    · exact q.adds_cloneBefore rule fun n => n.isGridSwitch_mapSelector _
    · exact .refl q

namespace Pass

/-- The params of an at-rule that is known to have free ones. -/
theorem editParams_adds (p : Pass) {rule : Nat} {r : AtRule} (hr : p.sheet.atRule? rule = some r)
    (h : Node.hasFreeParams r.name = true) (f : Text → Text) : p.Adds (p.editParams rule f) := by
  unfold editParams
  rw [hr]
  refine p.adds_setParams (fun r' hr' => ?_) _
  obtain rfl : r = r' := Option.some.inj (hr.symm.trans hr')
  exact h

/-- What is done to a node unless it is switched off. -/
theorem adds_unlessOff (p : Pass) (id : Nat) {q : Pass} (h : (p.disabled id).2.Adds q) :
    p.Adds (if (p.disabled id).1 then (p.disabled id).2 else q) := by
  have hlearn := Adds.of_learns (p.disabled_learns id)
  exact .ite (fun _ => hlearn) fun _ => hlearn.trans h

theorem addToAtRule_adds (prefixer : Prefixer) (p : Pass) (rule : Nat) : p.Adds (p.addToAtRule prefixer rule) := by
  unfold addToAtRule
  split
  · exact .refl p
  · rename_i r hr
    have hr' : (p.disabled rule).2.sheet.atRule? rule = some r := by
      rw [(p.disabled_learns rule).sheet]
      exact hr
    dsimp only
    refine .ite (fun _ => ?_) fun _ => .ite (fun hsupports => ?_) fun _ => .ite (fun hmedia => ?_) fun _ => .refl p
    · refine p.adds_unlessOff rule ?_
      split
      · exact AtRuleVariants.process_adds _ _ rule
      · exact .refl _
    · refine .ite (fun _ => p.adds_unlessOff rule ?_) fun _ => .refl p
      have hfree : Node.hasFreeParams r.name = true := by
        rw [hsupports]
        rfl
      exact editParams_adds _ hr' hfree (Supports.update prefixer)
    · refine p.adds_unlessOff rule ?_
      have hfree : Node.hasFreeParams r.name = true := by
        rw [of_decide_eq_true (Bool.and_eq_true_iff.1 hmedia).1]
        rfl
      split
      · refine (Adds.of_scope _ rule).trans (editParams_adds _ (r := r) ?_ hfree _)
        rw [scope_sheet]
        exact hr'
      · exact .refl _

theorem addToRule_adds (p : Pass) (rule : Nat) : p.Adds (p.addToRule rule) := by
  unfold addToRule
  dsimp only
  refine p.adds_unlessOff rule ?_
  exact .foldl (fun v _ q => v.process_adds q rule) _

/-! ## Transitions -/

theorem insertTransition_adds (p : Pass) (decl : Nat) (prop value : Text) :
    p.Adds (p.insertTransition decl prop value) :=
  .ite (fun _ => .refl p) fun _ => p.adds_cloneBefore decl fun n => n.isGridSwitch_mapDeclaration _

theorem warnAssociated_learns (p : Pass) (decl : Nat) : p.Learns (p.warnAssociated decl) := by
  unfold warnAssociated
  split
  · split
    · exact p.warn_learns decl _
    · exact .refl p
  · exact .refl p

theorem insertOther_adds (es : List Transition.Entry) (prop : Text) (decl : Nat) (p : Pass) (planned : Text) :
    p.Adds (insertOther es prop decl p planned) :=
  .ite (fun _ => .refl p) fun _ => p.insertTransition_adds decl _ _

/-- A list of properties gets copies before it, and then a value of its own. -/
theorem addTransitions_adds (p : Pass) {decl : Nat} {d : Declaration} (hd : p.sheet.declaration? decl = some d)
    (h : Transition.properties.contains d.prop = true) : p.Adds (p.addTransitions decl) := by
  unfold addTransitions
  rw [hd]
  dsimp only
  refine .ite (fun _ => .refl p) fun _ => ?_
  generalize hes : Transition.entries d.value ++ _ = es
  generalize hplanned : (p.ruleVendors? decl).getD _ = planned
  -- the copies, one vendor after the other
  let p₁ :=
    if planned.contains "-webkit-".toList then
      p.insertTransition decl ("-webkit-" ++ d.prop) (Transition.render (Transition.forVendorAlone "-webkit-" es))
    else p
  let p₂ := p₁.insertTransition decl d.prop (Transition.render (Transition.forVendorAlone "-webkit-" es))
  let p₃ :=
    if planned.contains "-o-".toList then
      p₂.insertTransition decl ("-o-" ++ d.prop) (Transition.render (Transition.forVendorAlone "-o-" es))
    else p₂
  let p₄ := planned.foldl (insertOther es d.prop decl) p₃
  have h₁ : p.Adds p₁ := .ite (fun _ => p.insertTransition_adds decl _ _) fun _ => .refl p
  have h₂ : p.Adds p₂ := h₁.trans (p₁.insertTransition_adds decl _ _)
  have h₃ : p.Adds p₃ := .ite (fun _ => h₂.trans (p₂.insertTransition_adds decl _ _)) fun _ => h₂
  have h₄ : p.Adds p₄ := h₃.trans (.foldl (fun planned _ q => insertOther_adds es d.prop decl q planned) p₃)
  refine .ite (fun _ => h₄) fun _ => ?_
  let p₅ := (p₄.warnAssociated decl).edit fun s => s.cloneBefore decl fun n => n
  have h₅ : p.Adds p₅ :=
    (h₄.trans (.of_learns (p₄.warnAssociated_learns decl))).trans (adds_cloneBefore _ decl fun _ => rfl)
  refine h₅.bind fun hp hfrom => p₅.adds_setValue (fun _ d' hd' => ?_) _
  obtain ⟨d'', hd'', hprop⟩ := hfrom.prop_eq hp hd
  obtain rfl : d'' = d' := Option.some.inj (hd''.symm.trans hd')
  rw [Node.hasFreeValue, hprop, h]
  rfl

/-! ## Declarations -/

theorem raise_learns (p : Pass) (decl : Nat) (a : Advice) : p.Learns (p.raise decl a) :=
  Learns.foldl (f := fun p (x : Text × Option Text) => p.warnAbout decl x.1 x.2)
    (fun p x => p.warnAbout_learns decl x.1 x.2) a.remarks p

theorem addVariantsOf_adds (p : Pass) (decl : Nat) {prop : Text} (hg : isGridProperty prop = false)
    (hplace : prop ≠ "place-self") : p.Adds (p.addVariantsOf decl prop) := by
  unfold addVariantsOf
  split
  · rename_i v hv
    intro hp
    have hname : v.name = prop := eq_of_beq (List.find?_some (p := fun (v : PropertyVariants) => v.name == prop) hv)
    have hdialect := hp.rules.dialect v (List.mem_of_find?_eq_some hv)
    refine v.process_adds ?_ p decl hp
    rw [hdialect, hname]
    exact PropertyDialect.writesGrid_ofName hg hplace
  · exact .refl p

theorem addGridVariantsOf_adds (p : Pass) (decl : Nat) (prop : Text) : p.Adds (p.addGridVariantsOf decl prop) := by
  intro hp
  have hmode := (gridMode_off hp.grids decl).1
  unfold addGridVariantsOf
  dsimp only
  rw [hmode]
  exact Adds.of_gridMode p decl hp

theorem addByProperty_adds (p : Pass) (decl : Nat) {prop : Text} (hg : isGridProperty prop = false) :
    p.Adds (p.addByProperty decl prop) := by
  unfold addByProperty
  refine .ite (fun halign => ?_) fun _ => .ite (fun _ => p.addGridVariantsOf_adds decl _) fun _ =>
    .ite (fun _ => p.addGridVariantsOf_adds decl _) fun hplace => p.addVariantsOf_adds decl hg hplace
  refine Adds.trans (.ite (fun _ => .refl p) fun _ => p.addVariantsOf_adds decl hg ?_) (addGridVariantsOf_adds _ decl _)
  rw [halign]
  decide

/-- A declaration of a grid is skipped, where grids are left alone. -/
theorem skipsDeclaration_adds (p : Pass) (decl : Nat) : p.Adds (p.skipsDeclaration decl).2 := by
  unfold skipsDeclaration
  split
  · exact .of_learns (p.disabled_learns decl)
  · dsimp only
    split
    · exact .of_gridMode p decl
    · exact (Adds.of_gridMode p decl).trans (.of_learns (disabled_learns _ decl))

theorem skipsDeclaration_sheet {p : Pass} (hp : p.IsReady) (decl : Nat) :
    (p.skipsDeclaration decl).2.sheet = p.sheet := by
  have hgrid := (gridMode_off hp.grids decl).2.sheet
  unfold skipsDeclaration
  split
  · exact (p.disabled_learns decl).sheet
  · dsimp only
    split
    · exact hgrid
    · exact (disabled_learns _ decl).sheet.trans hgrid

theorem isGridProperty_of_skipsDeclaration {p : Pass} (hp : p.IsReady) {decl : Nat} {d : Declaration}
    (hd : p.sheet.declaration? decl = some d) (h : ¬(p.skipsDeclaration decl).1 = true) :
    isGridProperty d.prop = false := by
  have hmode := (gridMode_off hp.grids decl).1
  unfold skipsDeclaration at h
  rw [hd] at h
  dsimp only at h
  rw [hmode] at h
  cases hg : isGridProperty d.prop with
  | false => rfl
  | true => simp [hg, GridMode.isEnabled] at h

theorem addToDeclaration_adds (grids : Bool) (p : Pass) (decl : Nat) : p.Adds (p.addToDeclaration grids decl) := by
  unfold addToDeclaration
  dsimp only
  have hskips := p.skipsDeclaration_adds decl
  split
  · exact hskips
  · rename_i d hd
    refine .ite (fun _ => hskips) fun hskip => ?_
    refine hskips.bind fun hp _ => ?_
    have hgrid : isGridProperty d.prop = false := by
      rw [skipsDeclaration_sheet hp decl] at hd
      exact isGridProperty_of_skipsDeclaration hp hd hskip
    generalize (p.skipsDeclaration decl).2 = q at hd
    -- the advice on the declaration is raised, and followed
    generalize hadvice : (q.gridMode decl).2.adviceOn decl d _ = advice
    have hraise : q.Adds ((q.gridMode decl).2.raise decl advice) :=
      (Adds.of_gridMode q decl).trans (.of_learns (raise_learns _ decl advice))
    refine .ite (fun _ => hraise) fun _ => (hraise.bind fun hq hfrom => ?_).trans (addByProperty_adds _ decl hgrid)
    refine .ite (fun htransition => ?_) fun _ => .refl _
    obtain ⟨d', hd', hprop⟩ := hfrom.prop_eq hq hd
    refine addTransitions_adds _ hd' ?_
    rw [hprop]
    exact htransition

/-! ## Values -/

theorem skipsValue_adds (p : Pass) (decl : Nat) : p.Adds (p.skipsValue decl).2 := by
  unfold skipsValue
  split
  · exact .of_learns (p.disabled_learns decl)
  · dsimp only
    split
    · exact .of_gridMode p decl
    · exact (Adds.of_gridMode p decl).trans (.of_learns (disabled_learns _ decl))

theorem addToValue_adds (p : Pass) (decl : Nat) : p.Adds (p.addToValue decl) := by
  unfold addToValue
  dsimp only
  have hskips := p.skipsValue_adds decl
  split
  · exact hskips
  · rename_i d _
    refine .ite (fun _ => hskips) fun _ => hskips.trans ?_
    intro hq
    refine Adds.trans (.foldl (fun v hv q => ?_) _) (saveValues_adds _ decl) hq
    exact v.process_adds (hq.rules.planned v (Rules.mem_of_mem_applying hv)) q decl

/-! ## The pass -/

theorem addMissing_adds (p : Pass) (prefixer : Prefixer) : p.Adds (p.addMissing prefixer) := by
  let p₁ := (p.sheet.atRules Sheet.rootId).foldl (addToAtRule prefixer) p
  let p₂ := (p₁.sheet.rules Sheet.rootId).foldl addToRule p₁
  let p₃ := (p₂.gridMode Sheet.rootId).2
  have h₁ : p.Adds p₁ := .foldl (fun rule _ q => q.addToAtRule_adds prefixer rule) p
  have h₂ : p.Adds p₂ := h₁.trans (.foldl (fun rule _ q => q.addToRule_adds rule) p₁)
  intro hp
  have hmode : (p₂.gridMode Sheet.rootId).1 = .off := (gridMode_off (h₂ hp).ready.grids Sheet.rootId).1
  let p₄ := (p₃.sheet.declarations Sheet.rootId).foldl (addToDeclaration false) p₃
  have h₃ : p.Adds p₃ := h₂.trans (.of_gridMode p₂ Sheet.rootId)
  have h₄ : p.Adds p₄ := h₃.trans (.foldl (fun decl _ q => q.addToDeclaration_adds false decl) p₃)
  -- areas are inserted only where grids are written
  have heq : p.addMissing prefixer = (p₄.sheet.declarations Sheet.rootId).foldl addToValue p₄ := by
    unfold addMissing
    dsimp only
    rw [hmode]
    rfl
  rw [heq]
  exact h₄.trans (.foldl (fun decl _ q => q.addToValue_adds decl) p₄) hp

/-- A pass with compiled rules that has learned nothing about grids and spelled no value is ready. -/
theorem isReady_of_compile {p : Pass} {table : CapabilityTable} {selection : Selection} {options : Options}
    (hrules : p.rules = Rules.compile table selection options) (hgrid : options.grid = .off)
    (hplan : ∀ f ∈ p.rules.plan.add, ∀ planned ∈ f.prefixes, planned ≠ []) (hsheet : p.sheet.IsNumbered)
    (hswitch : ∀ id text, p.sheet.comment? id = some text → Control.isGridSwitch text = false)
    (hmemory : p.memory.grid = []) (hvalues : p.memory.values = []) : p.IsReady where
  rules := by
    rw [hrules] at hplan ⊢
    exact Rules.isSound_compile hplan
  numbered := hsheet
  grids := {
    options := by rw [hrules]; exact hgrid
    switches := fun x hx => by
      rw [Node.isGridSwitch]
      cases hc : x.2.comment? with
      | none => rfl
      | some text =>
        refine hswitch x.1 text ?_
        rw [Sheet.comment?, hsheet.node?_eq hx]
        exact hc
    facts := by rw [hmemory]; simp }
  values := by rw [hvalues]; simp

/-- Adding, with grids left alone, keeps every node: below each old node the old nodes stand in their order, each has
its parent, and its frame. -/
theorem addMissing_keeps (p : Pass) (prefixer : Prefixer) (table : CapabilityTable) (selection : Selection)
    (options : Options) (hrules : p.rules = Rules.compile table selection options) (hgrid : options.grid = .off)
    (hplan : ∀ f ∈ p.rules.plan.add, ∀ planned ∈ f.prefixes, planned ≠ [])
    (hsheet : p.sheet.IsNumbered)
    (hswitch : ∀ id text, p.sheet.comment? id = some text → Control.isGridSwitch text = false)
    (hmemory : p.memory.grid = []) (hvalues : p.memory.values = []) :
    ∀ id < p.sheet.next,
      ((p.addMissing prefixer).sheet.descendants id).filter (· < p.sheet.next) = p.sheet.descendants id ∧
        (p.addMissing prefixer).sheet.parent? id = p.sheet.parent? id ∧
        ((p.addMissing prefixer).sheet.node? id).map Node.frame = (p.sheet.node? id).map Node.frame := by
  intro id hid
  have hready := isReady_of_compile hrules hgrid hplan hsheet hswitch hmemory hvalues
  have hgrows := (p.addMissing_adds prefixer hready).grows
  refine ⟨hgrows.descendants_filter hid hsheet, hgrows.parent?_eq hid, ?_⟩
  have hrel := hgrows.node?_rel hid
  generalize p.sheet.node? id = old, (p.addMissing prefixer).sheet.node? id = new at hrel
  cases hrel with
  | none => rfl
  | some hframe => exact congrArg some hframe.symm

/-- A table of one property, which one browser has under a prefix. -/
def userSelectTable : CapabilityTable where
  features :=
    [{ name := "user-select", names := ["user-select"], support := [⟨⟨"chrome", "4"⟩, "-webkit-", none⟩],
       props := none, mistakes := [], selector := false }]
  featureQueries := []

/-- That browser. -/
def userSelectSelection : Selection where
  agents := default
  targets := [⟨"chrome", "4"⟩]
  vendors := ["-webkit-"]

/-- A pass over a rule with that property. -/
def userSelectPass : Pass where
  rules := Rules.compile userSelectTable userSelectSelection {}
  sheet := Sheet.parse "a\x7buser-select:none\x7d"

theorem addMissing_keeps_userSelect :
    let prefixer := Prefixer.compile userSelectTable userSelectSelection {}
    ((userSelectPass.addMissing prefixer).sheet.descendants Sheet.rootId).filter (· < 3) = [1, 2] := by
  intro prefixer
  have hswitch : ∀ id text, userSelectPass.sheet.comment? id = some text → Control.isGridSwitch text = false := by
    intro id text h
    obtain ⟨n, hn, ht⟩ := Option.bind_eq_some_iff.1 h
    have hnone : ∀ x ∈ userSelectPass.sheet.nodes, x.2.comment? = none := by decide
    rw [hnone _ (Sheet.mem_nodes_of_node? hn)] at ht
    cases ht
  exact (addMissing_keeps userSelectPass prefixer userSelectTable userSelectSelection {} rfl rfl
    (PrefixPlan.prefixes_ne_nil (by decide)) (Sheet.isNumbered_parse _) hswitch rfl rfl Sheet.rootId (by decide)).1

end Pass

end VendorCss
