import VendorCss.Proofs.Pass.Learning
import VendorCss.Proofs.Sheet.Kinship

/-!
# What switches a node off

Whether a node is switched off is told by the tree alone: by a comment directly before the node, by the first switch
inside it, or by its parent (`Sheet.isOff`, `Sheet.isOff_eq`). A pass finds it out by going up to the root, and
remembers what it found about every node on the way, together with the nodes that a comment before them switches off.

What it remembers is true of the sheet (`Pass.Remembers`), and stays so with every question; so the answers do not
depend on what was asked before. A question about a node that was met before asks nothing of the tree, so the second
switches of a block are warned about once, when its node is met first (`Pass.Meets`). Both are told for one question
and then for any number of them (`Pass.disabledAll_eq`).
-/

namespace VendorCss

namespace Sheet

open Pass

variable {s : Sheet} {id i : Nat}

/-! ## What the tree tells -/

/-- A comment directly before a node switches it off; a node without a parent is none that a comment stands before. -/
def ignores (s : Sheet) (id : Nat) : Bool := (s.parent? id).isSome && isIgnored s id

/-- The first switch of a block. -/
def switch? (s : Sheet) (id : Nat) : Option Text := (switchIn s id Control.isSwitch).1

/-- The switches of a block that come too late. -/
def laterSwitches (s : Sheet) (id : Nat) : List Nat := (switchIn s id Control.isSwitch).2

/-- The first node of a chain that goes up to the root is switched off. -/
def isOffAlong (s : Sheet) : (chain : List Nat) → Bool
  | [] => false
  | id :: above =>
    if s.ignores id then true
    else
      match s.switch? id with
      | some comment => !Control.switchesOn comment
      | none => s.isOffAlong above && !above.head?.any s.ignores

/-- A node is switched off. -/
def isOff (s : Sheet) (id : Nat) : Bool := s.isOffAlong (id :: s.ancestors id)

/-- A node that nothing switches by itself is switched as its parent is, unless that one is only ignored itself. -/
theorem isOff_eq (hs : s.IsNumbered) (id : Nat) : s.isOff id =
    if s.ignores id then true
    else
      match s.switch? id, s.parent? id with
      | some comment, _ => !Control.switchesOn comment
      | none, some parent => !s.ignores parent && s.isOff parent
      | none, none => false := by
  rw [isOff, isOffAlong]
  split
  · rfl
  · cases s.switch? id with
    | some comment => rfl
    | none =>
      cases hparent : s.parent? id with
      | none =>
        rw [ancestors_eq_nil hparent]
        rfl
      | some parent =>
        rw [hs.ancestors_of_parent? hparent]
        exact Bool.and_comm _ _

/-! ## Second switches -/

/-- The switches of a block stand in it in their order. -/
theorem laterSwitches_sublist (s : Sheet) (id : Nat) : (s.laterSwitches id).Sublist (s.children id) := by
  have hfound : ∀ is : List Nat, ((is.filterMap fun i =>
      (s.comment? i).bind fun t => if Control.isSwitch t then some (i, t) else none).map Prod.fst).Sublist is := by
    intro is
    induction is with
    | nil => exact .slnil
    | cons i is ih =>
      rw [List.filterMap_cons]
      split
      · exact ih.cons i
      · rename_i x hx
        obtain ⟨t, -, ht⟩ := Option.bind_eq_some_iff.1 hx
        split at ht
        · obtain rfl := Option.some.inj ht
          exact ih.cons_cons i
        · cases ht
  exact ((List.tail_sublist _).map Prod.fst).trans (hfound (s.children id))

/-- The second switches that are warned about when a node is met. -/
def warned (s : Sheet) (id : Nat) : List Nat := if s.ignores id then [] else s.laterSwitches id

theorem warned_sublist (s : Sheet) (id : Nat) : (s.warned id).Sublist (s.laterSwitches id) := by
  rw [warned]
  split
  · exact List.nil_sublist _
  · exact .refl _

/-- A comment stands in one block only. -/
theorem IsNumbered.nodup_flatMap_warned (hs : s.IsNumbered) {ids : List Nat} (hids : ids.Nodup) :
    (ids.flatMap s.warned).Nodup := by
  have hchildren : ∀ id, (s.warned id).Sublist (s.children id) := fun id =>
    (s.warned_sublist id).trans (s.laterSwitches_sublist id)
  refine List.nodup_flatMap.2 ⟨fun id _ => (hchildren id).nodup (hs.nodup_children id), ?_⟩
  refine hids.imp fun {a b} hab i hia hib => hab ?_
  have ha := hs.mem_children.1 ((hchildren a).mem hia)
  have hb := hs.mem_children.1 ((hchildren b).mem hib)
  exact Option.some.inj (ha.symm.trans hb)

/-- The warning about a node. -/
def warning (s : Sheet) (message : Text) (id : Nat) : Diagnostic :=
  { message, word := none, position := (s.node? id).bind Node.source }

end Sheet

namespace Pass

variable {s : Sheet} {p q r : Pass} {id : Nat}

/-! ## What a pass remembers of nodes -/

/-- The nodes that a pass has met when it was asked which ones are switched off. -/
def met (p : Pass) : List Nat := p.memory.disabled.map Prod.fst

/-- What a pass remembers of nodes that are switched off is true of the sheet, and is remembered once. -/
structure Remembers (s : Sheet) (p : Pass) : Prop where
  sheet : p.sheet = s
  disabled : ∀ x ∈ p.memory.disabled, x.2 = s.isOff x.1
  ignored : ∀ i, i ∈ p.memory.ignored ↔ i ∈ p.met ∧ s.ignores i = true
  nodup : p.met.Nodup

/-- The second pass has met some more nodes, and has warned about the second switches in them. -/
structure Meets (s : Sheet) (ids : List Nat) (p q : Pass) : Prop where
  rules : q.rules = p.rules
  met : q.met.Perm (ids ++ p.met)
  diagnostics : q.diagnostics = p.diagnostics ++ (ids.flatMap s.warned).map (s.warning secondSwitch)

theorem Meets.refl (s : Sheet) (p : Pass) : Meets s [] p p := ⟨rfl, .refl _, (List.append_nil _).symm⟩

theorem Meets.trans {ids ids' : List Nat} (h : Meets s ids p q) (h' : Meets s ids' q r) :
    Meets s (ids ++ ids') p r where
  rules := h'.rules.trans h.rules
  met := by
    refine h'.met.trans ((h.met.append_left ids').trans ?_)
    rw [← List.append_assoc]
    exact List.perm_append_comm.append_right p.met
  diagnostics := by
    rw [h'.diagnostics, h.diagnostics, List.flatMap_append, List.map_append, List.append_assoc]

/-- Warnings are all that warning adds. -/
theorem foldl_warn_eq (later : List Nat) (message : Text) (p : Pass) :
    later.foldl (fun p i => p.warn i message) p =
      { p with diagnostics := p.diagnostics ++ later.map (p.sheet.warning message) } := by
  induction later generalizing p with
  | nil => simp
  | cons i later ih =>
    rw [List.foldl_cons, ih]
    simp [warn, warnAbout, Sheet.warning]

theorem notMem_met_of_get? (h : p.memory.disabled.get? id = none) : id ∉ p.met := by
  intro hmem
  obtain ⟨x, hx, rfl⟩ := List.mem_map.1 hmem
  exact List.find?_eq_none.1 (Option.map_eq_none_iff.1 h) x hx (beq_self_eq_true _)

/-! ## One question -/

theorem Remembers.warn (h : Remembers s p) (diagnostics : List Diagnostic) : Remembers s { p with diagnostics } :=
  ⟨h.sheet, h.disabled, h.ignored, h.nodup⟩

/-- A node is met that a comment before it switches off. -/
theorem Remembers.learnIgnored (h : Remembers s p) (hnew : id ∉ p.met) (hignored : s.ignores id = true) :
    Remembers s { p with memory := { p.memory with
      disabled := (id, true) :: p.memory.disabled, ignored := id :: p.memory.ignored } } where
  sheet := h.sheet
  disabled x hx := by
    rcases List.mem_cons.1 hx with rfl | hx
    · rw [Sheet.isOff, Sheet.isOffAlong, if_pos hignored]
    · exact h.disabled x hx
  ignored i := by
    simp only [List.mem_cons, h.ignored, met, List.map_cons]
    constructor
    · rintro (rfl | ⟨hi, hoff⟩)
      · exact ⟨.inl rfl, hignored⟩
      · exact ⟨.inr hi, hoff⟩
    · rintro ⟨rfl | hi, hoff⟩
      · exact .inl rfl
      · exact .inr ⟨hi, hoff⟩
  nodup := List.nodup_cons.2 ⟨hnew, h.nodup⟩

/-- A node is met that no comment before it switches off. -/
theorem Remembers.learnDisabled (h : Remembers s p) (hnew : id ∉ p.met) (hignored : s.ignores id = false) :
    Remembers s (p.learnDisabled id (s.isOff id)) where
  sheet := h.sheet
  disabled x hx := by
    rcases List.mem_cons.1 hx with rfl | hx
    · rfl
    · exact h.disabled x hx
  ignored i := by
    refine (h.ignored i).trans ⟨fun ⟨hi, hoff⟩ => ⟨.tail _ hi, hoff⟩, fun ⟨hi, hoff⟩ => ?_⟩
    rcases List.mem_cons.1 hi with rfl | hi
    · rw [hignored] at hoff
      cases hoff
    · exact ⟨hi, hoff⟩
  nodup := List.nodup_cons.2 ⟨hnew, h.nodup⟩

/-- The pass that warns about the second switches in a node. -/
def warns (p : Pass) (s : Sheet) (id : Nat) : Pass :=
  { p with diagnostics := p.diagnostics ++ (s.laterSwitches id).map (s.warning secondSwitch) }

/-- A node is met after those above it, and its switches are warned about before theirs. -/
theorem Meets.learnDisabled {ids : List Nat} (hignored : s.ignores id = false) (h : Meets s ids (p.warns s id) q)
    (value : Bool) : Meets s (id :: ids) p (q.learnDisabled id value) where
  rules := h.rules
  met := h.met.cons id
  diagnostics := by
    have hwarned : s.warned id = s.laterSwitches id := if_neg (Bool.eq_false_iff.1 hignored)
    rw [List.flatMap_cons, List.map_append, ← List.append_assoc, hwarned]
    exact h.diagnostics

/-- A question about a node is answered by the tree; the nodes met on the way up are new ones. -/
structure Answers (s : Sheet) (id : Nat) (p : Pass) (answer : Bool × Pass) : Prop where
  isOff : answer.1 = s.isOff id
  remembers : Remembers s answer.2
  mem_met : id ∈ answer.2.met
  meets : ∃ ids, Meets s ids p answer.2 ∧ ∀ i ∈ ids, i ∈ id :: s.ancestors id

/-- The node is learned last, after those above it. -/
theorem Answers.learnDisabled {answer : Bool} {ids : List Nat} (hs : s.IsNumbered) (hnew : id ∉ p.met)
    (hignored : s.ignores id = false) (hoff : answer = s.isOff id) (hfound : Remembers s q)
    (hmeets : Meets s ids (p.warns s id) q) (hids : ∀ i ∈ ids, i ∈ s.ancestors id) :
    Answers s id p (answer, q.learnDisabled id answer) where
  isOff := hoff
  remembers := by
    rw [hoff]
    refine hfound.learnDisabled (fun hmem => ?_) hignored
    rcases List.mem_append.1 (hmeets.met.mem_iff.1 hmem) with hmem | hmem
    · exact hs.notMem_ancestors id (hids id hmem)
    · exact hnew hmem
  mem_met := List.mem_cons_self
  meets := ⟨id :: ids, hmeets.learnDisabled hignored answer, fun i hi =>
    (List.mem_cons.1 hi).elim (fun h => h ▸ List.mem_cons_self) fun hi => .tail _ (hids i hi)⟩

/-- The node was met before. -/
theorem Remembers.answers_known (h : Remembers s p) {known : Bool} (hknown : p.memory.disabled.get? id = some known) :
    Answers s id p (known, p) :=
  have hmem := Facts.mem_of_get? hknown
  ⟨h.disabled _ hmem, h, List.mem_map_of_mem hmem, [], .refl s p, by simp⟩

/-- The node is one that a comment before it switches off. -/
theorem Remembers.answers_ignored (h : Remembers s p) (hnew : id ∉ p.met) (hignored : s.ignores id = true) :
    Answers s id p (true, { p with memory := { p.memory with
      disabled := (id, true) :: p.memory.disabled, ignored := id :: p.memory.ignored } }) := by
  have hwarned : s.warned id = [] := if_pos hignored
  refine ⟨?_, h.learnIgnored hnew hignored, List.mem_cons_self, [id], ⟨rfl, .refl _, ?_⟩, by simp⟩
  · rw [Sheet.isOff, Sheet.isOffAlong, if_pos hignored]
  · simp [hwarned]

/-- The node is told by what stands inside it, or has nothing above it. -/
theorem Remembers.answers_here (hs : s.IsNumbered) (h : Remembers s p) (hnew : id ∉ p.met)
    (hignored : s.ignores id = false) {answer : Bool} (hoff : answer = s.isOff id) :
    Answers s id p (answer, (p.warns s id).learnDisabled id answer) :=
  .learnDisabled hs hnew hignored hoff (h.warn _) (.refl s _) (by simp)

/-- What is asked of the first node of a chain that goes up to the root is answered by the tree. -/
theorem Remembers.answersAlong (hs : s.IsNumbered) {chain : List Nat} (h : Remembers s p)
    (hchain : chain = id :: s.ancestors id) : Answers s id p (disabledAlong chain p) := by
  induction chain generalizing id p with
  | nil => cases hchain
  | cons i above ih =>
    obtain ⟨rfl, rfl⟩ := List.cons.inj hchain
    rw [Pass.disabledAlong, h.sheet]
    cases hknown : p.memory.disabled.get? i with
    | some known => exact h.answers_known hknown
    | none =>
      have hnew := notMem_met_of_get? hknown
      have hignores : (!(s.ancestors i).isEmpty && isIgnored s i) = s.ignores i := by
        rw [Sheet.ignores, Sheet.parent?_eq_head?]
        cases s.ancestors i <;> rfl
      have hwarns : (switchIn s i Control.isSwitch).2.foldl (fun p i => p.warn i secondSwitch) p = p.warns s i := by
        rw [foldl_warn_eq, ← h.sheet]
        rfl
      dsimp only
      rw [hignores, hwarns]
      cases hignored : s.ignores i with
      | true => exact h.answers_ignored hnew hignored
      | false =>
        have hoff := Sheet.isOff_eq hs i
        rw [hignored, if_neg Bool.false_ne_true, Sheet.switch?] at hoff
        rw [if_neg Bool.false_ne_true]
        cases hswitch : (switchIn s i Control.isSwitch).1 with
        | some comment =>
          rw [hswitch] at hoff
          exact h.answers_here hs hnew hignored hoff.symm
        | none =>
          rw [hswitch] at hoff
          cases hparent : s.parent? i with
          | none =>
            rw [hparent] at hoff
            rw [Sheet.ancestors_eq_nil hparent]
            exact h.answers_here hs hnew hignored hoff.symm
          | some parent =>
            rw [hparent] at hoff
            have habove := hs.ancestors_of_parent? hparent
            have hwarned : Remembers s (p.warns s i) := h.warn _
            obtain ⟨hanswer, hremembers, hmem, ids, hmeets, hids⟩ := ih hwarned habove
            rw [habove] at hanswer hremembers hmem hmeets ⊢
            have hcontains : (Pass.disabledAlong (parent :: s.ancestors parent) (p.warns s i)).2.memory.ignored.contains
                parent = s.ignores parent := by
              rw [Bool.eq_iff_iff, List.contains_iff_mem, hremembers.ignored]
              exact and_iff_right hmem
            refine .learnDisabled hs hnew hignored ?_ hremembers hmeets (by rwa [habove])
            dsimp only
            rw [hanswer, hcontains, hoff]
            exact Bool.and_comm _ _

/-- What is asked of a node is answered by the tree. -/
theorem Remembers.answers (hs : s.IsNumbered) (h : Remembers s p) (id : Nat) : Answers s id p (p.disabled id) := by
  rw [Pass.disabled, h.sheet]
  exact h.answersAlong hs rfl

/-! ## Any number of questions -/

/-- Nodes asked about one after the other, and what is answered. -/
def disabledAll : (ids : List Nat) → Pass → List Bool × Pass
  | [], p => ([], p)
  | id :: ids, p =>
    let (answer, p) := p.disabled id
    let (answers, p) := disabledAll ids p
    (answer :: answers, p)

theorem Remembers.answersAll (hs : s.IsNumbered) (h : Remembers s p) (queries : List Nat) :
    (disabledAll queries p).1 = queries.map s.isOff ∧ Remembers s (disabledAll queries p).2 ∧
      ∃ ids, Meets s ids p (disabledAll queries p).2 := by
  induction queries generalizing p with
  | nil => exact ⟨rfl, h, [], .refl s p⟩
  | cons id queries ih =>
    obtain ⟨hanswer, hremembers, -, ids, hmeets, -⟩ := h.answers hs id
    obtain ⟨hanswers, hlast, ids', hmeets'⟩ := ih hremembers
    refine ⟨?_, hlast, ids ++ ids', hmeets.trans hmeets'⟩
    rw [List.map_cons, ← hanswer, ← hanswers]
    rfl

/-- In a sheet that stays as it is, the answer for a node does not depend on what was asked before: a node that an ignore
comment stands before is switched off, one with a switch inside it is switched as the first of them says, and any other
one is switched as its parent is, unless that one is only ignored itself. However often blocks are asked about, each of
their later switches is warned about once at most. -/
theorem disabledAll_eq (rules : Rules) {s : Sheet} (hs : s.IsNumbered) (queries : List Nat) :
    (disabledAll queries { rules, sheet := s }).1 = queries.map s.isOff ∧
      (∀ id, s.isOff id =
        if (s.parent? id).isSome && isIgnored s id then true
        else
          match (switchIn s id Control.isSwitch).1, s.parent? id with
          | some comment, _ => !Control.switchesOn comment
          | none, some parent => if (s.parent? parent).isSome && isIgnored s parent then false else s.isOff parent
          | none, none => false) ∧
      ∃ warned : List Nat, warned.Nodup ∧ (∀ i ∈ warned, ∃ id, i ∈ (switchIn s id Control.isSwitch).2) ∧
        (disabledAll queries { rules, sheet := s }).2.diagnostics = warned.map (s.warning secondSwitch) := by
  have hfresh : Remembers s { rules, sheet := s } :=
    ⟨rfl, fun _ hx => absurd hx List.not_mem_nil, fun i => by simp [met], List.nodup_nil⟩
  obtain ⟨hanswers, hremembers, ids, hmeets⟩ := hfresh.answersAll hs queries
  refine ⟨hanswers, fun id => ?_, ids.flatMap s.warned, hs.nodup_flatMap_warned ?_, fun i hi => ?_, hmeets.diagnostics⟩
  · rw [Sheet.isOff_eq hs id, Sheet.ignores, Sheet.switch?]
    congr 1
    split <;> simp_all [Sheet.ignores]
  · have hnodup := hmeets.met.nodup_iff.1 hremembers.nodup
    exact (List.nodup_append.1 hnodup).1
  · obtain ⟨id, -, hid⟩ := List.mem_flatMap.1 hi
    exact ⟨id, (s.warned_sublist id).mem hid⟩

/-- A rule that is ignored, and one that is switched off and then on. -/
def twoRules : Sheet :=
  .ofRoot .root
    (.cons 1 (.comment "autoprefixer: ignore next") .nil
      (.cons 2 (.rule "a") (.tree 3 (.declaration "b" "c") .nil)
        (.tree 4 (.rule "d") (.cons 5 (.comment "autoprefixer: off") .nil
          (.cons 6 (.comment "autoprefixer: on") .nil (.tree 7 (.declaration "e" "f") .nil)))))) 8

/-- The declaration in the ignored rule is not switched off, and the second switch counts nowhere. -/
theorem disabledAll_eq_twoRules : twoRules.IsNumbered ∧
    (disabledAll [3, 2, 7, 4, 7] { rules := default, sheet := twoRules }).1 = [false, true, true, true, true] ∧
      ∃ warned : List Nat, warned.Nodup ∧ (∀ i ∈ warned, ∃ id, i ∈ (switchIn twoRules id Control.isSwitch).2) ∧
        (disabledAll [3, 2, 7, 4, 7] { rules := default, sheet := twoRules }).2.diagnostics =
          warned.map (twoRules.warning secondSwitch) := by
  have hs : twoRules.IsNumbered := ⟨by decide, by decide⟩
  obtain ⟨hanswers, -, hwarned⟩ := disabledAll_eq default hs [3, 2, 7, 4, 7]
  exact ⟨hs, hanswers.trans (by decide +kernel), hwarned⟩

end Pass

end VendorCss
