import VendorCss.Proofs.Pass.Addition
import VendorCss.Proofs.Pass.GridModes
import VendorCss.Proofs.Pass.PlainCopies
import VendorCss.Proofs.Pass.Scopes
import VendorCss.Proofs.SwitchedOff

/-!
# Sheets with plain prefixes only

Rules prefix a node plainly if all they have to do with it is to write copies of a declaration with a planned prefix
before its property (`Rules.PrefixesPlainly`): nothing of it is outdated, its value, params or selector are not spelled
for vendors, and it is no comment that switches the pass. Over a sheet of such nodes each question is answered as the
tree has it, and all other steps of a run leave the sheet alone (`Pass.Calm`); the one step that is left writes the
variants of a declaration, unless the rules pass over it (`Pass.Calm.addToDeclaration`).
-/

namespace VendorCss

/-! ## Plain rules -/

namespace Rules

/-- No copies of a declaration are written, wherever it stands: it belongs to grids, which are left alone, or to
flexboxes, where these are left alone too, or its author is advised to write something else. -/
def passesOver (r : Rules) (d : Declaration) : Bool :=
  Pass.isGridProperty d.prop || (r.options.flexbox = .off && Pass.isFlexProperty d.prop) ||
    (Advice.on [] [] none d).skip || d.prop = "justify-self" || d.prop = "place-self"

/-- Nothing of a declaration is outdated, and its value is not spelled for vendors. -/
structure LeavesWhole (r : Rules) (d : Declaration) : Prop where
  name : r.removes d.prop = false
  value : ∀ o ∈ r.outdatedValuesFor (PropertyName.standard d.prop), o.accepts d.value = false
  tokens : ∀ v ∈ r.valuesFor (PropertyName.standard d.prop), v.dialect.accepts v.token d = false
  lists : d.prop ∉ Transition.properties

/-- The variants of a declaration are copies with a prefix before its property, to which there is nothing to add. -/
structure CopiesPlainly (r : Rules) (d : Declaration) (v : PropertyVariants) : Prop where
  dialect : v.dialect = .plain
  unprefixed : Vendor.ofName d.prop = []
  name : d.prop ≠ "align-self"
  nodup : v.prefixes.Nodup
  vendors : ∀ planned ∈ v.prefixes, Vendor.IsVendor planned
  whole : ∀ planned ∈ v.prefixes, r.LeavesWhole { d with prop := planned ++ d.prop }
  done : ∀ planned ∈ v.prefixes, r.property? (planned ++ d.prop) = none

/-- An at-rule is neither outdated nor written in other ways. -/
structure LeavesAtRule (r : Rules) (a : AtRule) : Prop where
  name : r.removesAtRule a.name = false
  variants : a.name = "keyframes" ∨ a.name = "viewport" → r.atRule? a.name = none
  supports : a.name = "supports" → r.options.supports = false
  resolution : a.name = "media" → a.params.contains "-resolution" = true →
    r.resolution = none ∧ r.outdatedResolution = none

/-- All that there is to do with a node is to write plain copies of a declaration. -/
structure PrefixesPlainly (r : Rules) (n : Node) : Prop where
  declaration : ∀ d, n.declaration? = some d →
    r.LeavesWhole d ∧ ∀ v, r.property? d.prop = some v → r.passesOver d = false → r.CopiesPlainly d v
  atRule : ∀ a, n.atRule? = some a → r.LeavesAtRule a
  selector : ∀ s, n.selector? = some s →
    (∀ v ∈ r.selectors, v.accepts s = false) ∧ ∀ o ∈ r.outdatedSelectors, Selector.uses s o.spelled = false
  comment : ∀ t, n.comment? = some t →
    Control.isSwitch t = false ∧ Control.isGridSwitch t = false ∧ Control.ignoresNext t = false

end Rules

/-- Rules that leave grids alone prefix every node of a sheet plainly. -/
structure Sheet.IsPlainFor (r : Rules) (s : Sheet) : Prop where
  numbered : s.IsNumbered
  grids : r.options.grid = .off
  nodes : ∀ x ∈ s.nodes, r.PrefixesPlainly x.2

theorem Sheet.IsPlainFor.node {r : Rules} {s : Sheet} (h : s.IsPlainFor r) {id : Nat} {n : Node}
    (hn : s.node? id = some n) : r.PrefixesPlainly n := h.nodes (id, n) (mem_nodes_of_node? hn)

/-! ## Advice that does not look around -/

namespace Advice

variable (ds : List Declaration) (selector : Text) (d : Declaration)

theorem skip_and (a b : Advice) : (a.and b).skip = (a.skip || b.skip) := rfl

theorem skip_when_remark (condition : Bool) (message : Text) : (when condition (remark message)).skip = false := by
  cases condition <;> rfl

theorem skip_onRadial (value : Text) : (onRadial value).skip = false := by
  have hword (c : Component) : (onRadialWord c).skip = false := by
    unfold onRadialWord
    cases c with
    | word w =>
      dsimp only
      split
      · rfl
      · split <;> rfl
    | _ => rfl
  have hfold (as : List Advice) (has : ∀ a ∈ as, a.skip = false) (a : Advice) (ha : a.skip = false) :
      (as.foldl Advice.and a).skip = false := by
    induction as generalizing a with
    | nil => exact ha
    | cons b as ih =>
      refine ih (fun x hx => has x (List.mem_cons_of_mem _ hx)) _ ?_
      rw [skip_and, ha, has b List.mem_cons_self]
      rfl
  unfold onRadial
  split
  · rfl
  split
  · rfl
  refine hfold _ (fun a ha => ?_) _ rfl
  obtain ⟨c, -, rfl⟩ := List.mem_map.1 ha
  exact hword c

theorem skip_onLinear (value : Text) : (onLinear value).skip = false := skip_when_remark _ _

/-- Where grids are left alone, what stands around a declaration has no part in whether it is left without prefixes. -/
theorem skip_onProperty : (onProperty ds selector .none d).skip = (onProperty [] [] .none d).skip := by
  have hsyntax : (Advice.none.and ((onRadial d.value).and (onLinear d.value))).skip = false := by
    rw [skip_and, skip_and, skip_onRadial, skip_onLinear]
    rfl
  unfold onProperty
  dsimp only
  split
  · rw [skip_when_remark, skip_when_remark]
  split
  · rfl
  split
  · rfl
  split
  · rfl
  · -- what is left looks around in one place, and skips nothing
    refine Eq.trans (b := false) ?_ (Eq.symm ?_) <;> split
    · exact skip_when_remark _ _
    · split
      · rfl
      · exact hsyntax
    · exact skip_when_remark _ _
    · split
      · rfl
      · exact hsyntax

theorem skip_on : (on ds selector .none d).skip = (on [] [] .none d).skip := by
  have hskip (a : Advice) : (if a.skip then a else a.and (onSize d)).skip = (a.skip || (onSize d).skip) := by
    cases ha : a.skip with
    | false =>
      rw [if_neg Bool.false_ne_true, skip_and, ha]
    | true =>
      rw [if_pos rfl, ha]
      rfl
  rw [on, on, hskip, hskip, skip_onProperty]

end Advice

namespace Pass

variable {s : Sheet} {r : Rules} {p q : Pass} {id : Nat}

/-! ## Questions -/

/-- A pass over a sheet has found no node to be switched off, no grid to be written and no value to be spelled; what it
knows of scopes is true of the sheet. -/
structure Calm (s : Sheet) (r : Rules) (p : Pass) : Prop where
  sheet : p.sheet = s
  rules : p.rules = r
  grid : ∀ x ∈ p.memory.grid, x.2 = .off
  disabled : ∀ x ∈ p.memory.disabled, x.2 = false
  values : p.memory.values = []
  scopes : p.RemembersScopes

/-- A pass that has learned nothing of these. -/
theorem Calm.of_same (h : Calm s r p) (hrules : q.rules = p.rules) (hsheet : q.sheet = p.sheet)
    (hmemory : q.memory = p.memory) : Calm s r q where
  sheet := hsheet.trans h.sheet
  rules := hrules.trans h.rules
  grid := by rw [hmemory]; exact h.grid
  disabled := by rw [hmemory]; exact h.disabled
  values := by rw [hmemory]; exact h.values
  scopes := by
    unfold RemembersScopes
    rw [hmemory, hrules, hsheet]
    exact h.scopes

theorem Calm.warn (h : Calm s r p) (id : Nat) (message : Text) : Calm s r (p.warn id message) := h.of_same rfl rfl rfl

theorem Calm.raise (h : Calm s r p) (id : Nat) (a : Advice) : Calm s r (p.raise id a) := by
  have hlearns := p.raise_learns id a
  refine h.of_same hlearns.rules hlearns.sheet ?_
  rw [Pass.raise]
  generalize a.remarks = remarks
  clear hlearns
  induction remarks generalizing p with
  | nil => rfl
  | cons x remarks ih => exact ih (h.of_same rfl rfl rfl)

theorem Calm.foldl {α : Type} (h : Calm s r p) (f : Pass → α → Pass) (xs : List α)
    (hf : ∀ {p x}, x ∈ xs → Calm s r p → Calm s r (f p x)) : Calm s r (xs.foldl f p) := by
  induction xs generalizing p with
  | nil => exact h
  | cons x xs ih => exact ih (hf List.mem_cons_self h) fun hx => hf (List.mem_cons_of_mem x hx)

section

variable (hs : s.IsPlainFor r) (h : Calm s r p)

include hs h

/-- No comment tells a pass anything. -/
theorem Calm.noComment {test : Text → Bool}
    (htest : ∀ {n : Node} {t : Text}, r.PrefixesPlainly n → n.comment? = some t → test t = false) :
    ∀ x ∈ p.sheet.nodes, x.2.comment?.any test = false := by
  intro x hx
  rw [h.sheet] at hx
  cases hc : x.2.comment? with
  | none => rfl
  | some t => exact htest (hs.nodes x hx) hc

theorem Calm.isIgnored_eq (id : Nat) : isIgnored p.sheet id = false := by
  rw [isIgnored]
  cases hprev : (p.sheet.prev? id).bind p.sheet.comment? with
  | none => rfl
  | some t =>
    obtain ⟨i, -, ht⟩ := Option.bind_eq_some_iff.1 hprev
    obtain ⟨n, hn, ht⟩ := Option.bind_eq_some_iff.1 ht
    rw [h.sheet] at hn
    exact ((hs.node hn).comment t ht).2.2

theorem Calm.disabledAlong (chain : List Nat) :
    (disabledAlong chain p).1 = false ∧ Calm s r (Pass.disabledAlong chain p).2 := by
  induction chain with
  | nil => exact ⟨rfl, h⟩
  | cons id above ih =>
    have hswitch : switchIn p.sheet id Control.isSwitch = (none, []) :=
      switchIn_eq_none (h.noComment hs fun hn ht => (hn.comment _ ht).1) id
    have hlearn {q : Pass} (hq : Calm s r q) : Calm s r (q.learnDisabled id false) :=
      ⟨hq.sheet, hq.rules, hq.grid, List.forall_mem_cons.2 ⟨rfl, hq.disabled⟩, hq.values, hq.scopes⟩
    rw [Pass.disabledAlong]
    split
    · rename_i known hknown
      exact ⟨h.disabled _ (Facts.mem_of_get? hknown), h⟩
    · rw [h.isIgnored_eq hs, Bool.and_false, if_neg Bool.false_ne_true, hswitch]
      cases above with
      | nil => exact ⟨rfl, hlearn h⟩
      | cons parent above =>
        dsimp only [List.foldl_nil]
        rw [ih.1, Bool.false_and]
        exact ⟨rfl, hlearn ih.2⟩

/-- No node is switched off. -/
theorem Calm.disabled_eq (id : Nat) : (p.disabled id).1 = false ∧ Calm s r (p.disabled id).2 := h.disabledAlong hs _

/-- Grids are written nowhere. -/
theorem Calm.gridMode_eq (id : Nat) : (p.gridMode id).1 = .off ∧ Calm s r (p.gridMode id).2 := by
  have hleaves : p.LeavesGrids := {
    options := by rw [h.rules]; exact hs.grids
    switches := h.noComment hs fun hn ht => (hn.comment _ ht).2.1
    facts := h.grid }
  obtain ⟨hmode, hlearns⟩ := gridMode_off hleaves id
  obtain ⟨diagnostics, grid, heq⟩ := gridModeAlong_keeps (id :: p.sheet.ancestors id) p
  change (p.gridMode id).2 = _ at heq
  refine ⟨hmode, ?_⟩
  have hgrid := hlearns.facts
  rw [heq] at hgrid ⊢
  exact ⟨h.sheet, h.rules, hgrid, h.disabled, h.values, h.scopes⟩

theorem Calm.skipsValue (id : Nat) : Calm s r (p.skipsValue id).2 := by
  unfold Pass.skipsValue
  split
  · exact (h.disabled_eq hs id).2
  · have hgrid := (h.gridMode_eq hs id).2
    dsimp only
    split
    · exact hgrid
    · exact (hgrid.disabled_eq hs id).2

/-! ## Steps that find nothing to do -/

theorem Calm.leavesAtRule {a : AtRule} (ha : p.sheet.atRule? id = some a) : r.LeavesAtRule a := by
  obtain ⟨n, hn, ha⟩ := Option.bind_eq_some_iff.1 ha
  rw [h.sheet] at hn
  exact (hs.node hn).atRule a ha

theorem Calm.leavesWhole {d : Declaration} (hd : p.sheet.declaration? id = some d) : r.LeavesWhole d := by
  obtain ⟨n, hn, hd⟩ := Option.bind_eq_some_iff.1 hd
  rw [h.sheet] at hn
  exact ((hs.node hn).declaration d hd).1

theorem Calm.cleanAtRule (rule : Nat) : Calm s r (p.cleanAtRule rule) := by
  unfold Pass.cleanAtRule
  split
  · exact h
  · rename_i a ha
    have hleaves := h.leavesAtRule hs ha
    rw [h.rules, hleaves.name, if_neg Bool.false_ne_true]
    split
    · rename_i hmedia
      rw [Bool.and_eq_true, decide_eq_true_iff] at hmedia
      rw [(hleaves.resolution hmedia.1 hmedia.2).2]
      exact h
    · exact h

theorem Calm.cleanRule {o : OutdatedSelector} (ho : o ∈ r.outdatedSelectors) (rule : Nat) :
    Calm s r (p.cleanRule o rule) := by
  have hfresh : p.sheet.isOutdatedRule o rule = false := by
    unfold Sheet.isOutdatedRule
    split
    · rename_i selector hselector
      obtain ⟨n, hn, hselector⟩ := Option.bind_eq_some_iff.1 hselector
      rw [h.sheet] at hn
      rw [OutdatedSelector.accepts, ((hs.node hn).selector _ hselector).2 o ho, Bool.false_and]
    · rfl
  rw [Pass.cleanRule, hfresh, if_neg Bool.false_ne_true]
  exact h

theorem Calm.cleanDeclaration (decl : Nat) : Calm s r (p.cleanDeclaration decl) := by
  obtain ⟨hoff, hcalm⟩ := h.disabled_eq hs decl
  unfold Pass.cleanDeclaration
  dsimp only
  rw [hoff, if_neg Bool.false_ne_true]
  split
  · exact hcalm
  · rename_i d hd
    have hleaves := hcalm.leavesWhole hs hd
    have hlists : Transition.properties.contains d.prop = false := by simpa using hleaves.lists
    rw [hlists, if_neg Bool.false_ne_true, cleanProperty, hcalm.rules, hleaves.name, Bool.not_false, if_pos rfl,
      if_neg Bool.false_ne_true, cleanValue, hcalm.rules, if_neg]
    · exact hcalm
    · rw [Bool.not_eq_true, List.any_eq_false]
      intro o ho
      rw [hleaves.value o ho, Bool.false_and]
      exact Bool.false_ne_true

/-- Nothing is outdated. -/
theorem Calm.removeOutdated : Calm s r p.removeOutdated := by
  have hatRules := h.foldl Pass.cleanAtRule (p.sheet.atRules Sheet.rootId) fun _ h => h.cleanAtRule hs _
  unfold Pass.removeOutdated
  dsimp only
  generalize (p.sheet.atRules Sheet.rootId).foldl Pass.cleanAtRule p = p at hatRules
  have hrules := hatRules.foldl Pass.cleanRules p.rules.outdatedSelectors fun ho h => by
    rw [hatRules.rules] at ho
    exact h.foldl _ _ fun _ h => h.cleanRule hs ho _
  exact hrules.foldl Pass.cleanDeclaration _ fun _ h => h.cleanDeclaration hs _

theorem Calm.addToAtRule (x : Prefixer) (rule : Nat) : Calm s r (p.addToAtRule x rule) := by
  unfold Pass.addToAtRule
  split
  · exact h
  · rename_i a ha
    have hleaves := h.leavesAtRule hs ha
    obtain ⟨hoff, hcalm⟩ := h.disabled_eq hs rule
    dsimp only
    rw [hoff]
    simp only [Bool.false_eq_true, if_false]
    split
    · rename_i hname
      rw [Bool.or_eq_true, decide_eq_true_iff, decide_eq_true_iff] at hname
      rw [hcalm.rules, hleaves.variants hname]
      exact hcalm
    split
    · rename_i hname
      rw [h.rules, hleaves.supports hname, if_neg Bool.false_ne_true]
      exact h
    split
    · rename_i hmedia
      rw [Bool.and_eq_true, decide_eq_true_iff] at hmedia
      rw [hcalm.rules, (hleaves.resolution hmedia.1 hmedia.2).1]
      exact hcalm
    · exact h

theorem Calm.addToRule (rule : Nat) : Calm s r (p.addToRule rule) := by
  obtain ⟨hoff, hcalm⟩ := h.disabled_eq hs rule
  unfold Pass.addToRule
  dsimp only
  rw [hoff, if_neg Bool.false_ne_true]
  refine hcalm.foldl _ _ fun {q v} hv hq => ?_
  rw [hcalm.rules] at hv
  have hrefused : (q.sheet.selector? rule).any v.accepts = false := by
    cases hselector : q.sheet.selector? rule with
    | none => rfl
    | some selector =>
      obtain ⟨n, hn, hselector⟩ := Option.bind_eq_some_iff.1 hselector
      rw [hq.sheet] at hn
      exact ((hs.node hn).selector _ hselector).1 v hv
  rw [SelectorVariants.process, hrefused, if_neg Bool.false_ne_true]
  exact hq

theorem Calm.addToValue (decl : Nat) : Calm s r (p.addToValue decl) := by
  have hcalm := h.skipsValue hs decl
  unfold Pass.addToValue
  dsimp only
  split
  · exact hcalm
  · rename_i d hd
    split
    · exact hcalm
    · have hleaves := hcalm.leavesWhole hs hd
      have hspelled := hcalm.foldl (fun p (v : ValueVariants) => v.process p decl)
        ((p.skipsValue decl).2.rules.valuesFor (PropertyName.standard d.prop)) fun {q v} hv hq => by
          rw [hcalm.rules] at hv
          have hrefused : (q.sheet.declaration? decl).any (v.dialect.accepts v.token) = false := by
            rw [hq.sheet, ← hcalm.sheet, hd, Option.any_some, hleaves.tokens v hv]
          rw [ValueVariants.process, hrefused, if_neg Bool.false_ne_true]
          exact hq
      have hnone : ((((p.skipsValue decl).2.rules.valuesFor (PropertyName.standard d.prop)).foldl
          (fun p (v : ValueVariants) => v.process p decl) (p.skipsValue decl).2).spelledValues decl) = [] := by
        rw [spelledValues, hspelled.values]
        rfl
      rw [Supports.addValues, saveValues, hnone]
      exact hspelled

/-! ## Variants of declarations -/

theorem Calm.skipsDeclaration {decl : Nat} {d : Declaration} (hd : p.sheet.declaration? decl = some d) :
    (p.skipsDeclaration decl).1 =
        (isGridProperty d.prop || (r.options.flexbox = .off && isFlexProperty d.prop)) ∧
      Calm s r (p.skipsDeclaration decl).2 := by
  obtain ⟨hmode, hcalm⟩ := h.gridMode_eq hs decl
  unfold Pass.skipsDeclaration
  rw [hd]
  dsimp only
  rw [hmode, hcalm.rules]
  cases hskip : isGridProperty d.prop || (r.options.flexbox = .off && isFlexProperty d.prop) with
  | true =>
    rw [if_pos (by simpa [GridMode.isEnabled] using hskip)]
    exact ⟨rfl, hcalm⟩
  | false =>
    rw [if_neg (by simpa [GridMode.isEnabled] using hskip)]
    exact hcalm.disabled_eq hs decl

omit hs in
theorem Calm.addVariantsOf_none {decl : Nat} {prop : Text} (hnone : r.property? prop = none) :
    p.addVariantsOf decl prop = p := by
  rw [addVariantsOf, h.rules, hnone]

theorem Calm.addGridVariantsOf (decl : Nat) (prop : Text) : Calm s r (p.addGridVariantsOf decl prop) := by
  obtain ⟨hmode, hcalm⟩ := h.gridMode_eq hs decl
  unfold Pass.addGridVariantsOf
  dsimp only
  rw [hmode, if_neg (by decide)]
  exact hcalm

/-- The variants of a declaration are those of its property, unless the rules pass over it. -/
theorem Calm.addToDeclaration {decl : Nat} {d : Declaration} (hd : p.sheet.declaration? decl = some d) :
    ∃ q, Calm s r q ∧
      (r.passesOver d = true ∨ r.property? d.prop = none → p.addToDeclaration false decl = q) ∧
      (r.passesOver d = false → d.prop ≠ "align-self" → p.addToDeclaration false decl = q.addVariantsOf decl d.prop) := by
  obtain ⟨hskip, hskipped⟩ := h.skipsDeclaration hs hd
  have hd' : (p.skipsDeclaration decl).2.sheet.declaration? decl = some d := by rw [hskipped.sheet, ← h.sheet, hd]
  have hmode := (hskipped.gridMode_eq hs decl).2
  have hlists : Transition.properties.contains d.prop = false := by simpa using (h.leavesWhole hs hd).lists
  unfold Pass.addToDeclaration
  dsimp only
  rw [hd', hskip]
  dsimp only
  rw [Bool.false_and, if_neg Bool.false_ne_true, hlists, if_neg Bool.false_ne_true]
  generalize hadvice : ((p.skipsDeclaration decl).2.gridMode decl).2.adviceOn decl d none = advice
  have hadvised : advice.skip = (Advice.on [] [] none d).skip := by rw [← hadvice, adviceOn, Advice.skip_on]
  have hraised := hmode.raise decl advice
  generalize ((p.skipsDeclaration decl).2.gridMode decl).2.raise decl advice = q at hraised
  cases hoption : isGridProperty d.prop || (r.options.flexbox = .off && isFlexProperty d.prop) with
  | true =>
    refine ⟨_, hskipped, fun _ => rfl, fun hpasses => ?_⟩
    rw [Rules.passesOver, hoption, Bool.true_or, Bool.true_or, Bool.true_or] at hpasses
    cases hpasses
  | false =>
    have hpasses : r.passesOver d = (advice.skip || d.prop = "justify-self" || d.prop = "place-self") := by
      rw [Rules.passesOver, hoption, hadvised, Bool.false_or]
    rw [hpasses, if_neg Bool.false_ne_true]
    cases advice.skip with
    | true => exact ⟨q, hraised, fun _ => rfl, fun hfalse => absurd hfalse (by simp)⟩
    | false =>
      rw [if_neg Bool.false_ne_true]
      unfold addByProperty
      by_cases halign : d.prop = "align-self"
      · rw [if_pos halign]
        refine ⟨_, hraised.addGridVariantsOf hs decl "grid-row-align", fun hnone => ?_, fun _ hne => absurd halign hne⟩
        have hnone : r.property? d.prop = none := hnone.resolve_left (by rw [halign]; decide)
        dsimp only
        rw [hraised.addVariantsOf_none hnone, ite_self]
      by_cases hjustify : d.prop = "justify-self"
      · rw [if_neg halign, if_pos hjustify]
        refine ⟨_, hraised.addGridVariantsOf hs decl _, fun _ => rfl, fun hfalse => ?_⟩
        rw [hjustify] at hfalse
        exact absurd hfalse (by decide)
      by_cases hplace : d.prop = "place-self"
      · rw [if_neg halign, if_neg hjustify, if_pos hplace]
        refine ⟨_, hraised.addGridVariantsOf hs decl _, fun _ => rfl, fun hfalse => ?_⟩
        rw [hplace] at hfalse
        exact absurd hfalse (by decide)
      · rw [if_neg halign, if_neg hjustify, if_neg hplace]
        rw [decide_eq_false hjustify, decide_eq_false hplace]
        exact ⟨q, hraised, fun hnone => hraised.addVariantsOf_none (hnone.resolve_left (by decide)), fun _ _ => rfl⟩

end

end Pass

end VendorCss
