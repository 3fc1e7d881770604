import VendorCss.Proofs.Pass.Switches

/-!
# How grids are treated at a node

What the tree says of a node is `Sheet.gridModeAt`: the treatment that the node names itself, or else that of the nearest
block around it that names one, or else that of the options. A pass tells the same, except that it leaves grids alone
where it goes through a block that it knows to be ignored; and which blocks it knows depends on what it was asked before,
since only a question about a node that is switched off finds out that a node is ignored. Each answer is kept.

So every answer is what the tree says, or "left alone" where some block on the way is ignored (`Sheet.MayBeTold`); what a
pass remembers keeps to that, whatever it is asked (`Recalls.ask`, `Recalls.askAll`). Both answers occur: a pass that was
asked nothing tells the first one, and a pass that was asked about the ignored block tells the second
(`gridModeAlong_of_forgetful`). Hence the answers do not depend on the questions before exactly where the two are the
same or no block on the way is ignored (`gridMode_steady_iff`).
-/

namespace VendorCss

namespace Sheet

open Pass

variable {s : Sheet} {id parent : Nat} {preset mode : GridMode}

/-! ## What the tree tells -/

/-- The treatment of grids that a node names itself. -/
def ownGridMode? (s : Sheet) (id : Nat) : Option GridMode :=
  if (s.node? id).any asksForAutoplace then some .off
  else (switchIn s id Control.isGridSwitch).1.map Control.gridModeOf

/-- The treatment of grids at the first node of a chain that goes up to the root, with grids left alone below the nodes
of a list. -/
def gridModeAlong (s : Sheet) (preset : GridMode) (ignored : List Nat) : (chain : List Nat) → GridMode
  | [] => preset
  | id :: above =>
    (s.ownGridMode? id).getD
      (if above.head?.any ignored.contains then .off else s.gridModeAlong preset ignored above)

/-- The treatment of grids at a node, by its own words and those of the blocks around it. -/
def gridModeAt (s : Sheet) (preset : GridMode) (id : Nat) : GridMode := s.gridModeAlong preset [] (id :: s.ancestors id)

/-- The nodes that the first node of a chain has its treatment of grids from: those above it up to the first one that
names a treatment itself. -/
def gridSourcesAlong (s : Sheet) : (chain : List Nat) → List Nat
  | [] => []
  | id :: above => if (s.ownGridMode? id).isSome then [] else above.take 1 ++ s.gridSourcesAlong above

/-- The blocks that a node has its treatment of grids from, the nearest first. -/
def gridSources (s : Sheet) (id : Nat) : List Nat := s.gridSourcesAlong (id :: s.ancestors id)

theorem gridModeAt_eq : s.gridModeAt preset id =
    (s.ownGridMode? id).getD
      (if (s.ancestors id).head?.any ([] : List Nat).contains then .off
        else s.gridModeAlong preset [] (s.ancestors id)) := rfl

theorem gridSources_eq : s.gridSources id =
    if (s.ownGridMode? id).isSome then []
    else (s.ancestors id).take 1 ++ s.gridSourcesAlong (s.ancestors id) := rfl

theorem gridModeAt_of_own (h : s.ownGridMode? id = some mode) : s.gridModeAt preset id = mode := by
  rw [gridModeAt_eq, h]
  rfl

theorem gridModeAt_of_parent (hs : s.IsNumbered) (h : s.ownGridMode? id = none) (hparent : s.parent? id = some parent) :
    s.gridModeAt preset id = s.gridModeAt preset parent := by
  rw [gridModeAt_eq, h, hs.ancestors_of_parent? hparent]
  rfl

theorem gridModeAt_of_top (h : s.ownGridMode? id = none) (hparent : s.parent? id = none) :
    s.gridModeAt preset id = preset := by
  rw [gridModeAt_eq, h, ancestors_eq_nil hparent]
  rfl

theorem gridSources_of_own (h : s.ownGridMode? id = some mode) : s.gridSources id = [] := by
  rw [gridSources_eq, h]
  rfl

theorem gridSources_of_parent (hs : s.IsNumbered) (h : s.ownGridMode? id = none)
    (hparent : s.parent? id = some parent) : s.gridSources id = parent :: s.gridSources parent := by
  rw [gridSources_eq, h, hs.ancestors_of_parent? hparent]
  rfl

theorem gridSources_of_top (h : s.ownGridMode? id = none) (hparent : s.parent? id = none) : s.gridSources id = [] := by
  rw [gridSources_eq, h, ancestors_eq_nil hparent]
  rfl

/-- Below a node of the list that the treatment comes through, grids are left alone. -/
theorem gridModeAlong_of_mem {ignored chain : List Nat} {i : Nat} (hi : i ∈ ignored)
    (h : i ∈ s.gridSourcesAlong chain) : s.gridModeAlong preset ignored chain = .off := by
  induction chain with
  | nil => cases h
  | cons id above ih =>
    rw [gridSourcesAlong] at h
    split at h
    · cases h
    · rename_i hown
      rw [gridModeAlong, Option.not_isSome_iff_eq_none.1 hown, Option.getD_none]
      split
      · rfl
      · rename_i hnot
        rcases List.mem_append.1 h with h | h
        · have hhead : above.head? = some i := by
            cases above with
            | nil => cases h
            | cons parent above => rw [List.head?_cons, List.mem_singleton.1 h]
          rw [hhead, Option.any_some] at hnot
          exact absurd (List.contains_iff_mem.2 hi) hnot
        · exact ih h

/-- What a pass may tell of the treatment of grids at a node. -/
def MayBeTold (s : Sheet) (preset : GridMode) (id : Nat) (mode : GridMode) : Prop :=
  mode = s.gridModeAt preset id ∨ mode = .off ∧ ∃ i ∈ s.gridSources id, s.ignores i = true

end Sheet

namespace Pass

variable {s : Sheet} {p : Pass} {id : Nat} {preset : GridMode}

/-! ## One question about grids -/

/-- The pass that warns about the second grid switches in a node. -/
def warnsOfGrids (p : Pass) (id : Nat) : Pass :=
  { p with diagnostics := p.diagnostics ++
      (switchIn p.sheet id Control.isGridSwitch).2.map (p.sheet.warning secondGridSwitch) }

/-- A node that nothing is known of: its own word counts, then what is told of the one above it. -/
theorem gridModeAlong_cons (above : List Nat) (h : p.memory.grid.get? id = none) :
    gridModeAlong (id :: above) p =
      match p.sheet.ownGridMode? id with
      | some mode => (mode, (p.warnsOfGrids id).learnGrid id mode)
      | none =>
        let (inherited, q) := gridModeAlong above (p.warnsOfGrids id)
        let mode := if above.head?.any q.memory.ignored.contains then .off else inherited
        (mode, q.learnGrid id mode) := by
  have hwarns : (switchIn p.sheet id Control.isGridSwitch).2.foldl (fun p i => p.warn i secondGridSwitch) p =
      p.warnsOfGrids id := foldl_warn_eq _ _ _
  have hown : (if ((p.warnsOfGrids id).sheet.node? id).any asksForAutoplace then some GridMode.off
      else (switchIn p.sheet id Control.isGridSwitch).1.map Control.gridModeOf) = p.sheet.ownGridMode? id := rfl
  rw [gridModeAlong, h]
  dsimp only
  rw [hwarns, hown]
  cases p.sheet.ownGridMode? id with
  | some mode => rfl
  | none => cases above <;> rfl

/-- A question about grids adds warnings and what was found out about grids, and nothing else. -/
theorem gridModeAlong_keeps (chain : List Nat) (p : Pass) : ∃ diagnostics grid,
    (gridModeAlong chain p).2 = { p with diagnostics, memory := { p.memory with grid } } := by
  induction chain generalizing p with
  | nil => exact ⟨_, _, rfl⟩
  | cons id above ih =>
    cases hknown : p.memory.grid.get? id with
    | some known =>
      rw [gridModeAlong, hknown]
      exact ⟨_, _, rfl⟩
    | none =>
      rw [gridModeAlong_cons above hknown]
      split
      · exact ⟨_, _, rfl⟩
      · obtain ⟨diagnostics, grid, heq⟩ := ih (p.warnsOfGrids id)
        dsimp only
        rw [heq]
        exact ⟨_, _, rfl⟩

/-- Where nothing is known about grids, only the blocks that are known to be ignored count beside the tree. -/
theorem gridModeAlong_of_forgetful (chain : List Nat) (h : p.memory.grid = []) :
    (gridModeAlong chain p).1 = p.sheet.gridModeAlong p.rules.options.grid p.memory.ignored chain := by
  induction chain generalizing p with
  | nil => rfl
  | cons id above ih =>
    rw [gridModeAlong_cons above (by rw [h]; rfl), Sheet.gridModeAlong]
    cases p.sheet.ownGridMode? id with
    | some mode => rfl
    | none =>
      obtain ⟨diagnostics, grid, heq⟩ := gridModeAlong_keeps above (p.warnsOfGrids id)
      have hinherited := ih (p := p.warnsOfGrids id) h
      dsimp only
      rw [hinherited, heq]
      rfl

/-- What a pass remembers is true of the sheet, or is what may be told of it. -/
structure Recalls (s : Sheet) (preset : GridMode) (p : Pass) : Prop extends Remembers s p where
  preset_eq : p.rules.options.grid = preset
  grid : ∀ x ∈ p.memory.grid, s.MayBeTold preset x.1 x.2

/-- One more node is remembered. -/
theorem Recalls.learnGrid (h : Recalls s preset p) {mode : GridMode} (hmode : s.MayBeTold preset id mode) :
    Recalls s preset (p.learnGrid id mode) where
  toRemembers := ⟨h.sheet, h.disabled, h.ignored, h.nodup⟩
  preset_eq := h.preset_eq
  grid x hx := by
    rcases List.mem_cons.1 hx with rfl | hx
    · exact hmode
    · exact h.grid x hx

theorem Recalls.warnsOfGrids (h : Recalls s preset p) (id : Nat) : Recalls s preset (p.warnsOfGrids id) :=
  ⟨h.toRemembers.warn _, h.preset_eq, h.grid⟩

/-- What is told of the first node of a chain that goes up to the root may be told, and the pass still remembers only
what may be. -/
theorem Recalls.gridModeAlong (hs : s.IsNumbered) {chain : List Nat} (h : Recalls s preset p)
    (hchain : chain = id :: s.ancestors id) :
    s.MayBeTold preset id (gridModeAlong chain p).1 ∧ Recalls s preset (gridModeAlong chain p).2 := by
  induction chain generalizing id p with
  | nil => cases hchain
  | cons i above ih =>
    obtain ⟨rfl, rfl⟩ := List.cons.inj hchain
    cases hknown : p.memory.grid.get? i with
    | some known =>
      rw [Pass.gridModeAlong, hknown]
      exact ⟨h.grid _ (Facts.mem_of_get? hknown), h⟩
    | none =>
      have hwarned := h.warnsOfGrids i
      rw [gridModeAlong_cons _ hknown, h.sheet]
      cases hown : s.ownGridMode? i with
      | some mode =>
        have hmode : s.MayBeTold preset i mode := .inl (Sheet.gridModeAt_of_own hown).symm
        exact ⟨hmode, hwarned.learnGrid hmode⟩
      | none =>
        cases hparent : s.parent? i with
        | none =>
          have hmode : s.MayBeTold preset i p.rules.options.grid :=
            .inl (h.preset_eq.trans (Sheet.gridModeAt_of_top hown hparent).symm)
          rw [Sheet.ancestors_eq_nil hparent]
          exact ⟨hmode, hwarned.learnGrid hmode⟩
        | some parent =>
          have habove := hs.ancestors_of_parent? hparent
          obtain ⟨htold, hrecalls⟩ := ih hwarned habove
          rw [habove] at htold hrecalls ⊢
          have hsources := Sheet.gridSources_of_parent hs hown hparent
          dsimp only
          rw [List.head?_cons, Option.any_some]
          generalize Pass.gridModeAlong (parent :: s.ancestors parent) (p.warnsOfGrids i) = answer at htold hrecalls
          have hmode : s.MayBeTold preset i
              (if answer.2.memory.ignored.contains parent then .off else answer.1) := by
            split
            · rename_i hignored
              have hmem := (hrecalls.ignored parent).1 (List.contains_iff_mem.1 hignored)
              exact .inr ⟨rfl, parent, by rw [hsources]; exact List.mem_cons_self, hmem.2⟩
            · rcases htold with heq | ⟨hoff, j, hj, hignored⟩
              · exact .inl (heq.trans (Sheet.gridModeAt_of_parent hs hown hparent).symm)
              · exact .inr ⟨hoff, j, by rw [hsources]; exact .tail _ hj, hignored⟩
          exact ⟨hmode, hrecalls.learnGrid hmode⟩

theorem Recalls.gridMode (hs : s.IsNumbered) (h : Recalls s preset p) (id : Nat) :
    s.MayBeTold preset id (p.gridMode id).1 ∧ Recalls s preset (p.gridMode id).2 := by
  rw [Pass.gridMode, h.sheet]
  exact h.gridModeAlong hs rfl

/-! ## Any questions before -/

/-- What a pass is asked about a node. -/
inductive Question
  | isOff (id : Nat)
  | grids (id : Nat)
  deriving DecidableEq, Repr

/-- The pass after a question. -/
def ask (p : Pass) : Question → Pass
  | .isOff id => (p.disabled id).2
  | .grids id => (p.gridMode id).2

/-- The pass after some questions, one after the other. -/
def askAll (p : Pass) (questions : List Question) : Pass := questions.foldl ask p

theorem Recalls.ask (hs : s.IsNumbered) (h : Recalls s preset p) (question : Question) :
    Recalls s preset (p.ask question) := by
  cases question with
  | grids id => exact (h.gridMode hs id).2
  | isOff id =>
    have hlearns := p.disabled_learns id
    exact
      { toRemembers := (h.toRemembers.answers hs id).remembers
        preset_eq := by rw [Pass.ask, hlearns.rules, h.preset_eq]
        grid := by rw [Pass.ask, hlearns.grid]; exact h.grid }

theorem Recalls.askAll (hs : s.IsNumbered) (h : Recalls s preset p) (questions : List Question) :
    Recalls s preset (p.askAll questions) := by
  induction questions generalizing p with
  | nil => exact h
  | cons question questions ih => exact ih (h.ask hs question)

theorem Recalls.fresh (rules : Rules) (s : Sheet) : Recalls s rules.options.grid { rules, sheet := s } where
  sheet := rfl
  disabled _ hx := absurd hx List.not_mem_nil
  ignored i := by simp [met]
  nodup := List.nodup_nil
  preset_eq := rfl
  grid _ hx := absurd hx List.not_mem_nil

/-- What a pass over a sheet tells of grids at a node, after some questions. -/
def gridModeAfter (rules : Rules) (s : Sheet) (questions : List Question) (id : Nat) : GridMode :=
  (((({ rules, sheet := s } : Pass).askAll questions).gridMode id).1)

theorem mayBeTold_gridModeAfter (rules : Rules) (hs : s.IsNumbered) (questions : List Question) (id : Nat) :
    s.MayBeTold rules.options.grid id (gridModeAfter rules s questions id) :=
  (((Recalls.fresh rules s).askAll hs questions).gridMode hs id).1

/-- Where nothing was asked, the tree alone counts. -/
theorem gridModeAfter_nil (rules : Rules) (s : Sheet) (id : Nat) :
    gridModeAfter rules s [] id = s.gridModeAt rules.options.grid id :=
  gridModeAlong_of_forgetful (p := { rules, sheet := s }) (id :: s.ancestors id) rfl

/-- Where an ignored block on the way was asked about, grids are left alone. -/
theorem gridModeAfter_isOff (rules : Rules) (hs : s.IsNumbered) {i : Nat} (hi : i ∈ s.gridSources id)
    (hignored : s.ignores i = true) : gridModeAfter rules s [.isOff i] id = .off := by
  let p : Pass := { rules, sheet := s }
  have hanswers := (Recalls.fresh rules s).toRemembers.answers hs i
  have hgrid : (p.disabled i).2.memory.grid = [] := (p.disabled_learns i).grid
  have hmem : i ∈ (p.disabled i).2.memory.ignored := (hanswers.remembers.ignored i).2 ⟨hanswers.mem_met, hignored⟩
  have htold : gridModeAfter rules s [.isOff i] id =
      (p.disabled i).2.sheet.gridModeAlong (p.disabled i).2.rules.options.grid (p.disabled i).2.memory.ignored
        (id :: (p.disabled i).2.sheet.ancestors id) := gridModeAlong_of_forgetful _ hgrid
  rw [htold, hanswers.remembers.sheet]
  exact Sheet.gridModeAlong_of_mem hmem hi

/-- In a sheet that stays as it is, what a pass tells of grids at a node is what the tree says, or that they are left
alone; the latter where one of the blocks that the node has its treatment from is ignored and the pass was asked about
it. So it does not depend on the questions before, exactly where the tree says that grids are left alone or none of these
blocks is ignored. There, two nodes of one block that name no treatment themselves, such as declarations, are told the
same, whatever was asked before each of them. -/
theorem gridMode_steady_iff (rules : Rules) {s : Sheet} (hs : s.IsNumbered) (id : Nat) :
    ((∀ questions questions', gridModeAfter rules s questions id = gridModeAfter rules s questions' id) ↔
      s.gridModeAt rules.options.grid id = .off ∨ ∀ i ∈ s.gridSources id, s.ignores i = false) ∧
    (∀ questions, gridModeAfter rules s questions id = s.gridModeAt rules.options.grid id ∨
      gridModeAfter rules s questions id = .off ∧ ∃ i ∈ s.gridSources id, s.ignores i = true) ∧
    ((s.gridModeAt rules.options.grid id = .off ∨ ∀ i ∈ s.gridSources id, s.ignores i = false) →
      ∀ other, s.parent? other = s.parent? id → s.ownGridMode? id = none → s.ownGridMode? other = none →
        ∀ questions questions', gridModeAfter rules s questions other = gridModeAfter rules s questions' id) := by
  have htold (i : Nat) (questions : List Question) := mayBeTold_gridModeAfter rules hs questions i
  have hsteady (i : Nat) (h : s.gridModeAt rules.options.grid i = .off ∨ ∀ j ∈ s.gridSources i, s.ignores j = false)
      (questions : List Question) : gridModeAfter rules s questions i = s.gridModeAt rules.options.grid i := by
    rcases htold i questions with heq | ⟨hoff, j, hj, hignored⟩
    · exact heq
    · rcases h with h | h
      · rw [hoff, h]
      · rw [h j hj] at hignored
        cases hignored
  refine ⟨⟨fun h => ?_, fun h questions questions' => ?_⟩, htold id, fun h other hparent hid hother => ?_⟩
  · by_contra hnot
    obtain ⟨hmode, hblocks⟩ := not_or.1 hnot
    obtain ⟨i, hblock⟩ := not_forall.1 hblocks
    obtain ⟨hi, hignored⟩ := Classical.not_imp.1 hblock
    have hoff := gridModeAfter_isOff rules hs hi (Bool.not_eq_false _ ▸ hignored)
    exact hmode ((gridModeAfter_nil rules s id).symm.trans ((h _ _).trans hoff))
  · rw [hsteady id h questions, hsteady id h questions']
  · have hsame : s.gridModeAt rules.options.grid other = s.gridModeAt rules.options.grid id ∧
        s.gridSources other = s.gridSources id := by
      cases hblock : s.parent? id with
      | none =>
        rw [hblock] at hparent
        rw [Sheet.gridModeAt_of_top hid hblock, Sheet.gridModeAt_of_top hother hparent,
          Sheet.gridSources_of_top hid hblock, Sheet.gridSources_of_top hother hparent]
        exact ⟨rfl, rfl⟩
      | some block =>
        rw [hblock] at hparent
        rw [Sheet.gridModeAt_of_parent hs hid hblock, Sheet.gridModeAt_of_parent hs hother hparent,
          Sheet.gridSources_of_parent hs hid hblock, Sheet.gridSources_of_parent hs hother hparent]
        exact ⟨rfl, rfl⟩
    intro questions questions'
    rw [hsteady id h questions', hsteady other (by rw [hsame.1, hsame.2]; exact h) questions, hsame.1]

/-- A page that is ignored, with two declarations. -/
def ignoredPage : Sheet :=
  .ofRoot .root
    (.cons 1 (.comment "autoprefixer: ignore next") .nil
      (.tree 2 (.atRule "page" []) (.cons 3 (.declaration "grid-row" "1") .nil
        (.tree 4 (.declaration "grid-column" "1") .nil)))) 5

/-- Grids are written. -/
def gridRules : Rules := { (default : Rules) with options := { grid := .noAutoplace } }

/-- The page itself is told the same in any case; its declarations are not. -/
theorem gridMode_steady_iff_ignoredPage : ignoredPage.IsNumbered ∧
    (∀ questions questions', gridModeAfter gridRules ignoredPage questions 2 =
      gridModeAfter gridRules ignoredPage questions' 2) ∧
    ¬∀ questions questions', gridModeAfter gridRules ignoredPage questions 4 =
      gridModeAfter gridRules ignoredPage questions' 4 := by
  have hs : ignoredPage.IsNumbered := ⟨by decide, by decide⟩
  have hpage := (gridMode_steady_iff gridRules hs 2).1
  have hdeclaration := (gridMode_steady_iff gridRules hs 4).1
  refine ⟨hs, hpage.2 (.inr (by decide)), fun h => ?_⟩
  exact absurd (hdeclaration.1 h) (by decide)

end Pass

end VendorCss
