import VendorCss.Pass.Removal
import VendorCss.Proofs.Pass.Learning
import VendorCss.Proofs.Sheet.Numbering
import VendorCss.Proofs.Sheet.Shrinking
import VendorCss.Proofs.Text.Cuts

/-!
# Removing only takes away

What removing may do to a node that stays is `Node.Reduced`: a media query loses queries, a list of properties loses
entries, and white space before a declaration loses the end of its last line. The first two happen at most once to a
node, since each node is visited once; so a step says at which number it may do them, and steps at different numbers
compose (`Takes.trans`). The whole pass then reduces every node that it leaves (`removeOutdated_takes`).
-/

namespace VendorCss

/-! ## What may become of a node -/

/-- What a node may say after removing; `params` and `value` tell whether these may have changed. -/
inductive Content.Reduced (params value : Prop) : Content → Content → Prop
  | same (c : Content) : Reduced params value c c
  /-- A media query that speaks of resolutions keeps some of its queries. -/
  | params {r : AtRule} {kept : List Text} (h : params) (hname : r.name = "media")
      (hresolution : Text.contains r.params "-resolution" = true) (hkept : kept.Sublist (Separated.byComma r.params)) :
      Reduced params value (.atRule r)
        (.atRule { r with params := Text.join (Resolution.separator r.params) kept })
  /-- A list of properties keeps some of its entries. -/
  | value {d : Declaration} {kept : List Transition.Entry} (h : value)
      (hprop : Transition.properties.contains d.prop = true) (hkept : kept.Sublist (Transition.entries d.value)) :
      Reduced params value (.declaration d) (.declaration { d with value := Transition.render kept })

/-- A node after removing: only white space before a declaration may be shorter, by the end of its last line. -/
structure Node.Reduced (params value : Prop) (n n' : Node) : Prop where
  content : n.content.Reduced params value n'.content
  before : ∃ lost, n.raws.before = n'.raws.before ++ lost ∧ '\n' ∉ lost
  raws : n'.raws = { n.raws with before := n'.raws.before }
  raws_eq : n.isDeclaration = false → n'.raws = n.raws
  source : n'.source = n.source

namespace Content.Reduced

variable {P P' V V' : Prop} {a b c : Content}

theorem mono (hP : P → P') (hV : V → V') (h : Reduced P V a b) : Reduced P' V' a b := by
  cases h with
  | same => exact .same a
  | params hp hname hres hkept => exact .params (hP hp) hname hres hkept
  | value hv hprop hkept => exact .value (hV hv) hprop hkept

/-- A change of the params is followed by no other one, and so for the value. -/
theorem trans (hP : P → ¬P') (hV : V → ¬V') (h : Reduced P V a b) (h' : Reduced P' V' b c) :
    Reduced (P ∨ P') (V ∨ V') a c := by
  cases h with
  | same => exact h'.mono .inr .inr
  | params hp hname hres hkept =>
    cases h' with
    | same => exact .params (.inl hp) hname hres hkept
    | params hp' => exact absurd hp' (hP hp)
  | value hv hprop hkept =>
    cases h' with
    | same => exact .value (.inl hv) hprop hkept
    | value hv' => exact absurd hv' (hV hv)

end Content.Reduced

namespace Node

variable {P P' V V' : Prop} {n a b c : Node}

theorem isDeclaration_of_content_reduced {C C' : Content} (h : Content.Reduced P V C C') (r r' : Raws)
    (p p' : Option Position) : isDeclaration ⟨C', r', p'⟩ = isDeclaration ⟨C, r, p⟩ := by
  cases h <;> rfl

theorem Reduced.isDeclaration_eq (h : a.Reduced P V b) : b.isDeclaration = a.isDeclaration :=
  isDeclaration_of_content_reduced h.content a.raws b.raws a.source b.source

theorem Reduced.refl (n : Node) : n.Reduced P V n where
  content := .same _
  before := ⟨[], (List.append_nil _).symm, List.not_mem_nil⟩
  raws := rfl
  raws_eq := fun _ => rfl
  source := rfl

theorem Reduced.mono (hP : P → P') (hV : V → V') (h : a.Reduced P V b) : a.Reduced P' V' b :=
  ⟨h.content.mono hP hV, h.before, h.raws, h.raws_eq, h.source⟩

theorem Reduced.trans (hP : P → ¬P') (hV : V → ¬V') (h : a.Reduced P V b) (h' : b.Reduced P' V' c) :
    a.Reduced (P ∨ P') (V ∨ V') c where
  content := h.content.trans hP hV h'.content
  before := by
    obtain ⟨lost, hlost, hline⟩ := h.before
    obtain ⟨lost', hlost', hline'⟩ := h'.before
    refine ⟨lost' ++ lost, by rw [hlost, hlost', List.append_assoc], fun hmem => ?_⟩
    exact (List.mem_append.1 hmem).elim hline' hline
  raws := by rw [h'.raws, h.raws]
  raws_eq := fun hn => (h'.raws_eq (h.isDeclaration_eq.trans hn)).trans (h.raws_eq hn)
  source := h'.source.trans h.source

/-- Fewer queries. -/
theorem reduced_setParams {r : AtRule} (hr : n.atRule? = some r) (hname : r.name = "media")
    (hres : Text.contains r.params "-resolution" = true) (vendors : List Text) :
    n.Reduced True V (n.mapAtRule fun a => { a with params := Resolution.dropQueries vendors r.params }) := by
  obtain ⟨content, raws, source⟩ := n
  cases content with
  | atRule a =>
    obtain rfl : a = r := Option.some.inj hr
    exact {
      content := .params trivial hname hres List.filter_sublist
      before := ⟨[], (List.append_nil _).symm, List.not_mem_nil⟩
      raws := rfl
      raws_eq := fun _ => rfl
      source := rfl }
  | root | rule _ | comment _ | declaration _ => cases hr

/-- Fewer entries. -/
theorem reduced_setValue {d : Declaration} (hd : n.declaration? = some d)
    (hprop : Transition.properties.contains d.prop = true) {kept : List Transition.Entry}
    (hkept : kept.Sublist (Transition.entries d.value)) :
    n.Reduced P True (n.mapDeclaration fun c => { c with value := Transition.render kept }) := by
  obtain ⟨content, raws, source⟩ := n
  cases content with
  | declaration c =>
    obtain rfl : c = d := Option.some.inj hd
    exact {
      content := .value trivial hprop hkept
      before := ⟨[], (List.append_nil _).symm, List.not_mem_nil⟩
      raws := rfl
      raws_eq := fun _ => rfl
      source := rfl }
  | root | rule _ | comment _ | atRule _ => cases hd

/-- A shorter last line. -/
theorem reduced_withBefore (hn : n.isDeclaration = true) {before lost : Text}
    (hlost : n.raws.before = before ++ lost) (hline : '\n' ∉ lost) : n.Reduced P V (n.withBefore before) where
  content := .same _
  before := ⟨lost, hlost, hline⟩
  raws := rfl
  raws_eq := fun hfalse => by rw [hn] at hfalse; cases hfalse
  source := rfl

end Node

/-! ## The last line -/

namespace Pass

theorem notMem_lastLine (before : Text) : '\n' ∉ lastLine before := by
  unfold lastLine
  cases h : (Text.pieces '\n' before).getLast? with
  | none => exact List.not_mem_nil
  | some line => exact Text.notMem_of_mem_pieces (List.mem_of_getLast? h)

/-- Taking from the last line takes from the end of the text. -/
theorem withLastLine_take (before : Text) (k : Nat) :
    before = withLastLine before ((lastLine before).take k) ++ (lastLine before).drop k := by
  have hne : Text.pieces '\n' before ≠ [] := Text.piecesBy_ne_nil _ before
  have hlast : (Text.pieces '\n' before).dropLast ++ [lastLine before] = Text.pieces '\n' before := by
    rw [lastLine, List.getLast?_eq_getLast_of_ne_nil hne, Option.getD_some]
    exact List.dropLast_append_getLast hne
  rw [withLastLine, ← Text.join_concat, List.take_append_drop, hlast, Text.join_pieces]

/-! ## Steps that take away -/

/-- At no number. -/
def nowhere (_ : Nat) : Prop := False

/-- The second pass is reached by taking away, with the params or the value changed at some numbers. -/
structure Takes (params value : Nat → Prop) (p q : Pass) : Prop where
  rules : q.rules = p.rules
  values : q.memory.values = p.memory.values
  grid : q.memory.grid = p.memory.grid
  scope : q.memory.scope = p.memory.scope
  shrinks : p.sheet.IsNumbered → p.sheet.Shrinks (fun i => Node.Reduced (params i) (value i)) q.sheet

namespace Takes

variable {P P' V V' : Nat → Prop} {p q r : Pass}

theorem of_learns (h : p.Learns q) : p.Takes P V q where
  rules := h.rules
  values := h.values
  grid := h.grid
  scope := h.scope
  shrinks := fun _ => by
    rw [h.sheet]
    exact .refl (fun _ => Node.Reduced.refl) _

theorem refl (p : Pass) : p.Takes P V p := of_learns (.refl p)

theorem mono (hP : ∀ i, P i → P' i) (hV : ∀ i, V i → V' i) (h : p.Takes P V q) : p.Takes P' V' q :=
  ⟨h.rules, h.values, h.grid, h.scope, fun hs => (h.shrinks hs).mono fun i _ _ => Node.Reduced.mono (hP i) (hV i)⟩

theorem trans (hP : ∀ i, P i → ¬P' i) (hV : ∀ i, V i → ¬V' i) (h : p.Takes P V q) (h' : q.Takes P' V' r) :
    p.Takes (fun i => P i ∨ P' i) (fun i => V i ∨ V' i) r where
  rules := h'.rules.trans h.rules
  values := h'.values.trans h.values
  grid := h'.grid.trans h.grid
  scope := h'.scope.trans h.scope
  shrinks := fun hs => by
    have hcompose : ∀ i a b c, Node.Reduced (P i) (V i) a b → Node.Reduced (P' i) (V' i) b c →
        Node.Reduced (P i ∨ P' i) (V i ∨ V' i) a c := fun i _ _ _ => Node.Reduced.trans (hP i) (hV i)
    exact (h.shrinks hs).trans hcompose (h'.shrinks ((h.shrinks hs).isNumbered hs))

/-- A step that changes no params and no value. -/
theorem andThen (h : p.Takes P V q) (h' : q.Takes nowhere nowhere r) : p.Takes P V r :=
  (h.trans (fun _ _ hn => hn) (fun _ _ hn => hn) h').mono (fun _ h => h.elim id False.elim)
    fun _ h => h.elim id False.elim

theorem after (h : p.Takes nowhere nowhere q) (h' : q.Takes P V r) : p.Takes P V r :=
  (h.trans (fun _ hn => hn.elim) (fun _ hn => hn.elim) h').mono (fun _ h => h.elim False.elim id)
    fun _ h => h.elim False.elim id

theorem ite {c : Prop} [Decidable c] (h : c → p.Takes P V q) (h' : ¬c → p.Takes P V r) :
    p.Takes P V (if c then q else r) := by
  split
  · exact h ‹_›
  · exact h' ‹_›

theorem of_remove (p : Pass) (id : Nat) : p.Takes P V (p.edit fun s => s.remove id) where
  rules := rfl
  values := rfl
  grid := rfl
  scope := rfl
  shrinks := fun _ => Sheet.shrinks_remove (fun _ => Node.Reduced.refl) p.sheet id

theorem of_modify (p : Pass) (id : Nat) {edit : Node → Node}
    (h : ∀ n, p.sheet.node? id = some n → n.Reduced (P id) (V id) (edit n)) :
    p.Takes P V (p.edit fun s => s.modify id edit) where
  rules := rfl
  values := rfl
  grid := rfl
  scope := rfl
  shrinks := fun hs => Sheet.shrinks_modify (fun _ => Node.Reduced.refl) hs h

theorem foldl_nowhere {f : Pass → α → Pass} (h : ∀ p x, Takes nowhere nowhere p (f p x)) (xs : List α) (p : Pass) :
    p.Takes nowhere nowhere (xs.foldl f p) := by
  induction xs generalizing p with
  | nil => exact refl p
  | cons x xs ih => exact (h p x).after (ih (f p x))

/-- Visits to different nodes, each of which changes the params or the value of its own node only. -/
theorem foldl {f : Pass → Nat → Pass} {P V : Prop}
    (h : ∀ id p, Takes (fun i => P ∧ i = id) (fun i => V ∧ i = id) p (f p id)) {ids : List Nat} (hids : ids.Nodup)
    (p : Pass) : p.Takes (fun i => P ∧ i ∈ ids) (fun i => V ∧ i ∈ ids) (ids.foldl f p) := by
  induction ids generalizing p with
  | nil => exact refl p
  | cons id ids ih =>
    obtain ⟨hid, hids⟩ := List.nodup_cons.1 hids
    have hother : ∀ i {Q : Prop}, Q ∧ i = id → ¬(Q ∧ i ∈ ids) := fun i _ hi hmem => hid (hi.2 ▸ hmem.2)
    have hmem : ∀ i {Q : Prop}, Q ∧ i = id ∨ Q ∧ i ∈ ids → Q ∧ i ∈ id :: ids := fun i _ hi =>
      hi.elim (fun hi => ⟨hi.1, List.mem_cons.2 (.inl hi.2)⟩) fun hi => ⟨hi.1, List.mem_cons_of_mem _ hi.2⟩
    exact ((h id p).trans (fun i => hother i) (fun i => hother i) (ih hids (f p id))).mono (fun i => hmem i)
      fun i => hmem i

end Takes

/-! ## At-rules and rules -/

theorem cleanAtRule_takes (p : Pass) (rule : Nat) :
    p.Takes (fun i => True ∧ i = rule) (fun i => False ∧ i = rule) (p.cleanAtRule rule) := by
  unfold cleanAtRule
  split
  · exact .refl p
  · rename_i r hr
    have hoff := p.disabled_learns rule
    refine .ite (fun _ => .ite (fun _ => .of_learns hoff) fun _ => ?_) fun _ => .ite (fun hmedia => ?_) fun _ => .refl p
    · exact Takes.after (.of_learns hoff) (.of_remove _ rule)
    · obtain ⟨hname, hres⟩ := Bool.and_eq_true_iff.1 hmedia
      split
      · rename_i vendors _
        unfold dropResolutions editParams
        rw [hr]
        refine Takes.of_modify p rule fun n hn => ?_
        have hnr : n.atRule? = some r := by
          rw [Sheet.atRule?, hn] at hr
          exact hr
        exact (Node.reduced_setParams (V := False) hnr (of_decide_eq_true hname) hres vendors).mono
          (fun _ => ⟨trivial, rfl⟩) False.elim
      · exact .refl p

theorem cleanRule_takes (o : OutdatedSelector) (p : Pass) (rule : Nat) :
    p.Takes nowhere nowhere (cleanRule o p rule) := by
  have hoff := p.disabled_learns rule
  exact .ite (fun _ => .ite (fun _ => .of_learns hoff) fun _ => .after (.of_learns hoff) (.of_remove _ rule))
    fun _ => .refl p

theorem cleanRules_takes (p : Pass) (o : OutdatedSelector) : p.Takes nowhere nowhere (p.cleanRules o) :=
  .foldl_nowhere (cleanRule_takes o) _ p

/-! ## Declarations -/

/-- Members that are declarations are moved back. -/
theorem shiftBack_shrinks (start : Nat) (members : List Nat) (shift : Option Nat) {s : Sheet} (hs : s.IsNumbered)
    (hd : ∀ i ∈ members, ∀ n, s.node? i = some n → n.isDeclaration = true) :
    s.Shrinks (fun _ => Node.Reduced False False) (shiftBack start members shift s) := by
  induction members generalizing shift s with
  | nil => exact .refl (fun _ => Node.Reduced.refl) s
  | cons i members ih =>
    have hrest : ∀ j ∈ members, ∀ n, s.node? j = some n → n.isDeclaration = true := fun j hj =>
      hd j (List.mem_cons_of_mem _ hj)
    rw [shiftBack]
    dsimp only
    split
    · exact ih shift hs hrest
    · generalize (shift.getD _) = width
      -- the line that is taken from is that of the member as it stands
      have hstep : s.Shrinks (fun _ => Node.Reduced False False)
          (s.setBefore i (withLastLine (s.before i)
            ((lastLine (s.before i)).take ((lastLine (s.before i)).length - width)))) := by
        refine Sheet.shrinks_modify (fun _ => Node.Reduced.refl) hs fun n hn => ?_
        have hbefore : s.before i = n.raws.before := by
          rw [Sheet.before, Sheet.raws?, hn]
          rfl
        refine Node.reduced_withBefore (hd i List.mem_cons_self n hn) (hbefore.symm.trans (withLastLine_take _ _)) ?_
        exact fun hmem => notMem_lastLine (s.before i) (List.mem_of_mem_drop hmem)
      refine (hstep.trans ?_ (ih (some width) (hstep.isNumbered hs) fun j hj n' hn' => ?_))
      · exact fun _ _ _ _ h h' => (h.trans False.elim False.elim h').mono (fun h => h.elim id id) fun h => h.elim id id
      · obtain ⟨_, n, hn, hreduced⟩ := hstep.node?_rel hs hn'
        rw [hreduced.isDeclaration_eq]
        exact hrest j hj n hn

theorem mem_of_mem_membersBelow {r : Rules} {standard : Text} {ds : List (Nat × Declaration)} {x : Nat × Declaration}
    (h : x ∈ membersBelow r standard ds) : x ∈ ds := by
  induction ds with
  | nil => cases h
  | cons y ds ih =>
    rw [membersBelow] at h
    split at h
    · cases h
    · split at h
      · rw [List.mem_singleton.1 h]
        exact List.mem_cons_self
      · rcases List.mem_cons.1 h with rfl | h
        · exact List.mem_cons_self
        · exact List.mem_cons_of_mem _ (ih h)

/-- The members of a group are declarations. -/
theorem isDeclaration_of_mem_groupBelow {p : Pass} {decl i : Nat} (h : i ∈ (p.groupBelow decl).map Prod.fst) {n : Node}
    (hn : p.sheet.node? i = some n) : n.isDeclaration = true := by
  obtain ⟨⟨j, d⟩, hx, rfl⟩ := List.mem_map.1 h
  unfold groupBelow at hx
  split at hx
  · obtain ⟨k, _, hk⟩ := List.mem_filterMap.1 (mem_of_mem_membersBelow hx)
    obtain ⟨d', hd', heq⟩ := Option.map_eq_some_iff.1 hk
    obtain ⟨rfl, rfl⟩ := Prod.mk.inj heq
    rw [Sheet.declaration?, hn] at hd'
    exact Option.isSome_of_eq_some hd'
  · cases hx

theorem reduceIndentation_takes (p : Pass) (decl : Nat) : p.Takes nowhere nowhere (p.reduceIndentation decl) := by
  unfold reduceIndentation
  refine .ite (fun _ => ⟨rfl, rfl, rfl, rfl, fun hs => ?_⟩) fun _ => .refl p
  exact shiftBack_shrinks _ _ none hs fun i hi n hn => isDeclaration_of_mem_groupBelow hi hn

theorem removeTransitions_takes (p : Pass) {decl : Nat} {d : Declaration} (hd : p.sheet.declaration? decl = some d)
    (hprop : Transition.properties.contains d.prop = true) :
    p.Takes nowhere (· = decl) (p.removeTransitions decl) := by
  unfold removeTransitions
  rw [hd]
  dsimp only
  refine .ite (fun _ => .refl p) fun _ => .ite (fun _ => .of_remove p decl) fun _ => ?_
  split
  · exact .refl p
  · refine .ite (fun _ => .of_remove p decl) fun _ => .of_modify p decl fun n hn => ?_
    have hnd : n.declaration? = some d := by
      rw [Sheet.declaration?, hn] at hd
      exact hd
    exact (Node.reduced_setValue (P := False) hnd hprop List.filter_sublist).mono False.elim fun _ => rfl

/-- A property that is not outdated. -/
theorem cleanProperty_of_not_removes {p : Pass} {decl : Nat} {d : Declaration} (h : p.rules.removes d.prop = false) :
    p.cleanProperty decl d = (false, p) := by
  unfold cleanProperty
  rw [h]
  rfl

/-- No value is outdated. -/
theorem cleanValue_of_nil {p : Pass} {decl : Nat} {d : Declaration} (h : p.rules.outdatedValues = []) :
    p.cleanValue decl d = p := by
  unfold cleanValue
  rw [Rules.outdatedValuesFor, h]
  rfl

theorem cleanProperty_takes (p : Pass) (decl : Nat) (d : Declaration) :
    p.Takes nowhere nowhere (p.cleanProperty decl d).2 := by
  unfold cleanProperty
  split
  · exact .refl p
  · split
    · exact .refl p
    · split
      · exact Takes.after (.ite (fun _ => p.reduceIndentation_takes decl) fun _ => .refl p) (.of_remove _ decl)
      · exact .refl p

theorem cleanValue_takes (p : Pass) (decl : Nat) (d : Declaration) : p.Takes nowhere nowhere (p.cleanValue decl d) :=
  .ite (fun _ => .of_remove p decl) fun _ => .refl p

theorem cleanDeclaration_takes (p : Pass) (decl : Nat) :
    p.Takes (fun i => False ∧ i = decl) (fun i => True ∧ i = decl) (p.cleanDeclaration decl) := by
  have hoff := p.disabled_learns decl
  unfold cleanDeclaration
  dsimp only
  refine .ite (fun _ => .of_learns hoff) fun _ => ?_
  generalize (p.disabled decl).2 = q at hoff
  cases hd : q.sheet.declaration? decl with
  | none => exact .of_learns hoff
  | some d =>
    have htransitions : q.Takes (fun i => False ∧ i = decl) (fun i => True ∧ i = decl)
        (if Transition.properties.contains d.prop then q.removeTransitions decl else q) :=
      .ite (fun hprop => (q.removeTransitions_takes hd hprop).mono (fun _ h => h.elim) fun _ h => ⟨trivial, h⟩)
        fun _ => .refl q
    have hproperty := htransitions.andThen (cleanProperty_takes _ decl d)
    refine Takes.after (.of_learns hoff) ?_
    exact .ite (fun _ => hproperty) fun _ => hproperty.andThen (cleanValue_takes _ decl d)

/-! ## The pass -/

/-- The whole pass takes away, and changes the params or the value of a node once at most. -/
theorem removeOutdated_takes (p : Pass) (hs : p.sheet.IsNumbered) :
    p.Takes (fun _ => True) (fun _ => True) p.removeOutdated := by
  let p₁ := (p.sheet.atRules Sheet.rootId).foldl cleanAtRule p
  let p₂ := p₁.rules.outdatedSelectors.foldl cleanRules p₁
  have h₁ := Takes.foldl (fun rule p => p.cleanAtRule_takes rule)
    (hs.nodup_descendantsWhere Sheet.rootId Node.isAtRule) p
  have h₂ : p.Takes _ _ p₂ := h₁.andThen (.foldl_nowhere cleanRules_takes _ p₁)
  have hs₂ : p₂.sheet.IsNumbered := (h₂.shrinks hs).isNumbered hs
  have h₃ := Takes.foldl (fun decl p => p.cleanDeclaration_takes decl)
    (hs₂.nodup_descendantsWhere Sheet.rootId Node.isDeclaration) p₂
  exact (h₂.trans (fun _ _ h => h.1) (fun _ h => h.1.elim) h₃).mono (fun _ _ => trivial) fun _ _ => trivial

/-- Removing only takes away: below each node the nodes that are left stood there before, in the same order; each was
there before under the same parent, and is what it was but for queries, entries and the end of the last line before
it. -/
theorem removeOutdated_keeps (p : Pass) (hs : p.sheet.IsNumbered) :
    (∀ id, (p.removeOutdated.sheet.descendants id).Sublist (p.sheet.descendants id)) ∧
      ∀ id n', p.removeOutdated.sheet.node? id = some n' →
        p.removeOutdated.sheet.parent? id = p.sheet.parent? id ∧
          ∃ n, p.sheet.node? id = some n ∧ n.Reduced True True n' := by
  have hshrinks := (p.removeOutdated_takes hs).shrinks hs
  exact ⟨fun id => hshrinks.descendants_sublist hs id, fun id n' hn => hshrinks.node?_rel hs hn⟩

/-! ## An entry that starts with a divider -/

/-- A pass with rules for no browser, over a rule whose list of properties starts with a divider. -/
def dividerPass : Pass where
  rules := Rules.compile ⟨[], []⟩ { agents := default, targets := [], vendors := [] } {}
  sheet :=
    let list : Node := { content := .declaration { prop := "transition", value := "/all 1s" } }
    .ofRoot .root (.tree 1 { content := .rule "a" } (.tree 2 list .nil)) 3

theorem removeOutdated_keeps_divider : dividerPass.sheet.IsNumbered ∧
    (dividerPass.removeOutdated.sheet.descendants Sheet.rootId).Sublist [1, 2] := by
  have hs : dividerPass.sheet.IsNumbered := ⟨by decide, by decide⟩
  have hdescendants : dividerPass.sheet.descendants Sheet.rootId = [1, 2] := by cbv
  exact ⟨hs, hdescendants ▸ (dividerPass.removeOutdated_keeps hs).1 Sheet.rootId⟩

/-- Nothing is outdated, and the list is written anew. -/
theorem cleanDeclaration_divider : (dividerPass.cleanDeclaration 2).sheet.declaration? 2 =
    some { prop := "transition", value := "all 1s" } := by
  have hoff : (dividerPass.disabled 2).1 = false := rfl
  have hlearn := dividerPass.disabled_learns 2
  unfold cleanDeclaration
  -- what was learned about the node is not looked at again
  generalize dividerPass.disabled 2 = r at hoff hlearn
  obtain ⟨off, rules, sheet, memory, diagnostics⟩ := r
  obtain rfl : off = false := hoff
  obtain rfl : rules = dividerPass.rules := hlearn.rules
  obtain rfl : sheet = dividerPass.sheet := hlearn.sheet
  let q : Pass := ⟨dividerPass.rules, dividerPass.sheet, memory, diagnostics⟩
  let d : Declaration := { prop := "transition", value := "/all 1s" }
  have hd : dividerPass.sheet.declaration? 2 = some d := by cbv
  have hlist : Transition.properties.contains d.prop = true := by cbv
  let written : Pass := q.edit fun s => s.setValue 2 "all 1s"
  have hset : q.removeTransitions 2 = written := by
    let entry : Transition.Entry := [.div "/" [] [], .word "all", .space " ", .word "1s"]
    have hkept : ((Transition.entries d.value).filter fun e => !q.rules.removes (Transition.propertyOf e)) = [entry] :=
      rfl
    have hrender : Transition.render [entry] = "all 1s" := rfl
    have hnonempty : ¬[entry].isEmpty = true := Bool.false_ne_true
    have hparent : q.sheet.parent? 2 = some 1 := rfl
    have hothers : q.sheet.childDeclarationsOf 1 = [(2, d)] := by cbv
    have hd : q.sheet.declaration? 2 = some d := hd
    unfold removeTransitions
    rw [hd]
    dsimp only
    rw [hkept, hrender, if_neg (by decide), if_neg hnonempty, hparent]
    dsimp only
    rw [hothers]
    rfl
  have hremoves : written.rules.removes d.prop = false := by cbv
  have hvalues : written.rules.outdatedValues = [] := by cbv
  dsimp only
  rw [hd]
  dsimp only
  rw [if_pos hlist, hset, cleanProperty_of_not_removes hremoves, if_neg Bool.false_ne_true,
    if_neg Bool.false_ne_true, cleanValue_of_nil hvalues]
  cbv

/-- The divider at the start of the only entry is gone from what is written, which is no list of entries of the text. -/
theorem removeOutdated_divider :
    dividerPass.sheet.declaration? 2 = some { prop := "transition", value := "/all 1s" } ∧
      dividerPass.removeOutdated.sheet.declaration? 2 = some { prop := "transition", value := "all 1s" } ∧
      ∀ separator kept, kept.Sublist (Separated.byComma "/all 1s") → Text.join separator kept ≠ "all 1s" := by
  have hatRules : dividerPass.sheet.atRules Sheet.rootId = [] := by cbv
  have hselectors : dividerPass.rules.outdatedSelectors = [] := by cbv
  have hdeclarations : dividerPass.sheet.declarations Sheet.rootId = [2] := by cbv
  have hpass : dividerPass.removeOutdated = dividerPass.cleanDeclaration 2 := by
    unfold removeOutdated
    dsimp only
    rw [hatRules, List.foldl_nil, hselectors, List.foldl_nil, hdeclarations, List.foldl_cons, List.foldl_nil]
  refine ⟨by cbv, by rw [hpass, cleanDeclaration_divider], fun separator kept hkept => ?_⟩
  have hitems : Separated.byComma "/all 1s" = ["/all 1s".toList] := by decide
  rw [hitems] at hkept
  rcases List.sublist_singleton.1 hkept with rfl | rfl
  · simp [Text.join]
  · simp [Text.join]

end Pass

end VendorCss
