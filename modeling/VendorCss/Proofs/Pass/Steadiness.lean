import VendorCss.Proofs.Pass.Switches
import VendorCss.Proofs.Pass.Undoing

/-!
# Questions that change no answer

What a pass answers about a node is told by the sheet and by what it remembers of the node and of those above it
(`Pass.verdict`, `Pass.disabled_spec`), be that true of the sheet or found out before the sheet was changed. What it
remembers after a question is what it would have answered before (`Pass.Learned`); so a question changes no answer
(`Pass.verdict_disabled`). Nor does an edit that keeps the comments before and in the nodes of the chain
(`Pass.verdict_congr`).
-/

namespace VendorCss.Pass

variable {s s' : Sheet} {m m' m'' : Memory} {p : Pass} {i j : Nat}

/-- Whether the first node of a chain is switched off, and whether it is remembered as one that a comment before it
switches off. -/
def verdictAlong (s : Sheet) (m : Memory) : (chain : List Nat) → Bool × Bool
  | [] => (false, false)
  | id :: above =>
    match m.disabled.get? id with
    | some known => (known, m.ignored.contains id)
    | none =>
      if s.ignores id then (true, true)
      else
        (match s.switch? id with
          | some comment => !Control.switchesOn comment
          | none => (verdictAlong s m above).1 && !(verdictAlong s m above).2,
          m.ignored.contains id)

/-- What will be remembered of a node once it is asked about. -/
def verdict (s : Sheet) (m : Memory) (id : Nat) : Bool × Bool := verdictAlong s m (id :: s.ancestors id)

theorem verdictAlong_cons (above : List Nat) :
    verdictAlong s m (i :: above) =
      match m.disabled.get? i with
      | some known => (known, m.ignored.contains i)
      | none =>
        if s.ignores i then (true, true)
        else
          (match s.switch? i with
            | some comment => !Control.switchesOn comment
            | none => (verdictAlong s m above).1 && !(verdictAlong s m above).2,
            m.ignored.contains i) := rfl

theorem verdict_known {known : Bool} (h : m.disabled.get? i = some known) :
    verdict s m i = (known, m.ignored.contains i) := by
  rw [verdict, verdictAlong_cons, h]

theorem verdict_ignored (h : m.disabled.get? i = none) (hignored : s.ignores i = true) :
    verdict s m i = (true, true) := by
  rw [verdict, verdictAlong_cons, h]
  exact if_pos hignored

theorem verdict_here (h : m.disabled.get? i = none) (hignored : s.ignores i = false) :
    verdict s m i =
      (match s.switch? i with
        | some comment => !Control.switchesOn comment
        | none => (verdictAlong s m (s.ancestors i)).1 && !(verdictAlong s m (s.ancestors i)).2,
        m.ignored.contains i) := by
  rw [verdict, verdictAlong_cons, h]
  exact if_neg (Bool.eq_false_iff.1 hignored)

/-- The verdict depends on the comments before and in the nodes of the chain. -/
theorem verdict_congr (hancestors : s'.ancestors i = s.ancestors i)
    (hchain : ∀ c ∈ i :: s.ancestors i, s'.ignores c = s.ignores c ∧ s'.switch? c = s.switch? c) :
    verdict s' m i = verdict s m i := by
  rw [verdict, verdict, hancestors]
  generalize i :: s.ancestors i = chain at hchain
  induction chain with
  | nil => rfl
  | cons c above ih =>
    obtain ⟨hignores, hswitch⟩ := hchain c List.mem_cons_self
    rw [verdictAlong_cons, verdictAlong_cons, hignores, hswitch, ih fun d hd => hchain d (List.mem_cons_of_mem _ hd)]

/-! ## What is learned -/

/-- Of every node the same is remembered as before, or what the verdict was. -/
def Learned (s : Sheet) (m m' : Memory) : Prop :=
  ∀ i, (m'.disabled.get? i = m.disabled.get? i ∧ m'.ignored.contains i = m.ignored.contains i) ∨
    (m'.disabled.get? i = some (verdict s m i).1 ∧ m'.ignored.contains i = (verdict s m i).2)

theorem Learned.refl (s : Sheet) (m : Memory) : Learned s m m := fun _ => .inl ⟨rfl, rfl⟩

theorem Learned.verdict_of_above (h : Learned s m m')
    (habove : verdictAlong s m' (s.ancestors i) = verdictAlong s m (s.ancestors i)) : verdict s m' i = verdict s m i := by
  rcases h i with ⟨hfact, hcontains⟩ | ⟨hfact, hcontains⟩
  · rw [verdict, verdict, verdictAlong_cons, verdictAlong_cons, hfact, hcontains, habove]
  · rw [verdict_known hfact, hcontains]

/-- Learning verdicts changes none. -/
theorem Learned.verdict_eq (hs : s.IsNumbered) (h : Learned s m m') (i : Nat) : verdict s m' i = verdict s m i := by
  -- upwards from the node
  generalize hlength : (s.ancestors i).length = l
  induction l generalizing i with
  | zero =>
    have hnil : s.ancestors i = [] := List.length_eq_zero_iff.1 hlength
    exact h.verdict_of_above (by rw [hnil]; rfl)
  | succ l ih =>
    obtain ⟨a, above, hcons⟩ := List.exists_cons_of_length_eq_add_one hlength
    have hparent : s.parent? i = some a := by rw [Sheet.parent?_eq_head?, hcons]; rfl
    have habove := hs.ancestors_of_parent? hparent
    rw [habove, List.length_cons] at hlength
    have ha : verdict s m' a = verdict s m a := ih a (Nat.succ.inj hlength)
    exact h.verdict_of_above (by rw [habove]; exact ha)

/-- One more fact is learned, the verdict about a node. -/
theorem Learned.learn (h : Learned s m m') {ignored : List Nat}
    (hi : ignored.contains i = (verdict s m i).2) (hothers : ∀ j, j ≠ i → ignored.contains j = m'.ignored.contains j) :
    Learned s m { m' with disabled := (i, (verdict s m i).1) :: m'.disabled, ignored } := by
  intro j
  by_cases hj : j = i
  · subst hj
    exact .inr ⟨Facts.get?_cons_self _ _ _, hi⟩
  · have hfact : Facts.get? ((i, (verdict s m i).1) :: m'.disabled) j = m'.disabled.get? j := Facts.get?_cons_of_ne _ _ hj
    rcases h j with ⟨hold, hcontains⟩ | ⟨hlearned, hcontains⟩
    · exact .inl ⟨hfact.trans hold, (hothers j hj).trans hcontains⟩
    · exact .inr ⟨hfact.trans hlearned, (hothers j hj).trans hcontains⟩

/-! ## Questions -/

/-- A question about the first node of a chain is answered by the verdict, and verdicts are learned. -/
structure Tells (s : Sheet) (m : Memory) (i : Nat) (answer : Bool × Pass) : Prop where
  verdict : answer.1 = (verdict s m i).1
  ignored : answer.2.memory.ignored.contains i = (Pass.verdict s m i).2
  learned : Learned s m answer.2.memory

theorem disabledAlong_tells (hs : p.sheet.IsNumbered) {chain : List Nat} (hchain : chain = i :: p.sheet.ancestors i) :
    Tells p.sheet p.memory i (disabledAlong chain p) := by
  induction chain generalizing i p with
  | nil => cases hchain
  | cons c above ih =>
    obtain ⟨rfl, rfl⟩ := List.cons.inj hchain
    rw [disabledAlong]
    cases hknown : p.memory.disabled.get? c with
    | some known =>
      have hverdict : Pass.verdict p.sheet p.memory c = (known, p.memory.ignored.contains c) := verdict_known hknown
      exact ⟨by rw [hverdict], by rw [hverdict], .refl _ _⟩
    | none =>
      have hignores : (!(p.sheet.ancestors c).isEmpty && isIgnored p.sheet c) = p.sheet.ignores c := by
        rw [Sheet.ignores, Sheet.parent?_eq_head?]
        cases p.sheet.ancestors c <;> rfl
      dsimp only
      rw [hignores]
      cases hignored : p.sheet.ignores c with
      | true =>
        have hverdict : Pass.verdict p.sheet p.memory c = (true, true) := verdict_ignored hknown hignored
        have hlearned : Learned p.sheet p.memory { p.memory with
            disabled := (c, (Pass.verdict p.sheet p.memory c).1) :: p.memory.disabled,
            ignored := c :: p.memory.ignored } :=
          (Learned.refl _ _).learn (by simp [hverdict]) fun j hj => by simp [hj]
        rw [hverdict] at hlearned
        exact ⟨by rw [hverdict]; rfl, by rw [hverdict]; simp, hlearned⟩
      | false =>
        have hverdict := verdict_here (s := p.sheet) hknown hignored
        generalize hwarned : (switchIn p.sheet c Control.isSwitch).2.foldl (fun p i => p.warn i secondSwitch) p = w
        have hsheet : w.sheet = p.sheet := hwarned ▸ sheet_foldl_warn _ _ p
        have hmemory : w.memory = p.memory := hwarned ▸ memory_foldl_warn _ _ p
        rw [if_neg Bool.false_ne_true]
        -- what is found out here is learned after what was found out above
        have hlearn : ∀ (answer : Bool) (q : Pass), answer = (Pass.verdict p.sheet p.memory c).1 →
            q.memory.ignored.contains c = p.memory.ignored.contains c → Learned p.sheet p.memory q.memory →
            Tells p.sheet p.memory c (answer, q.learnDisabled c answer) := by
          rintro answer q rfl hcontains hq
          have hsame : q.memory.ignored.contains c = (Pass.verdict p.sheet p.memory c).2 := by rw [hcontains, hverdict]
          exact ⟨rfl, hsame, hq.learn hsame fun _ _ => rfl⟩
        rw [Sheet.switch?] at hverdict
        cases hswitch : (switchIn p.sheet c Control.isSwitch).1 with
        | some comment =>
          rw [hswitch] at hverdict
          exact hlearn _ w (by rw [hverdict]) (by rw [hmemory]) (by rw [hmemory]; exact .refl _ _)
        | none =>
          rw [hswitch] at hverdict
          cases hparent : p.sheet.parent? c with
          | none =>
            rw [Sheet.ancestors_eq_nil hparent] at hverdict ⊢
            exact hlearn _ w (by rw [hverdict]; rfl) (by rw [hmemory]) (by rw [hmemory]; exact .refl _ _)
          | some parent =>
            have habove := hs.ancestors_of_parent? hparent
            have hrest := ih (p := w) (hsheet ▸ hs) (by rw [hsheet]; exact habove)
            rw [hsheet, hmemory] at hrest
            obtain ⟨hanswer, hcontains, hlearned⟩ := hrest
            rw [habove] at hverdict hanswer hcontains hlearned ⊢
            refine hlearn _ _ ?_ ?_ hlearned
            · dsimp only
              rw [hanswer, hcontains, hverdict]
              rfl
            · rcases hlearned c with ⟨-, hsame⟩ | ⟨-, hsame⟩
              · exact hsame
              · rw [hsame, hverdict]

/-- What a pass answers about a node is the verdict, and nothing but verdicts is learned from it. -/
theorem disabled_spec (hs : p.sheet.IsNumbered) (i : Nat) :
    (p.disabled i).1 = (verdict p.sheet p.memory i).1 ∧ Learned p.sheet p.memory (p.disabled i).2.memory :=
  have h : Tells p.sheet p.memory i (p.disabled i) := disabledAlong_tells hs rfl
  ⟨h.verdict, h.learned⟩

/-- A question changes no verdict. -/
theorem verdict_disabled (hs : p.sheet.IsNumbered) (i j : Nat) :
    verdict p.sheet (p.disabled i).2.memory j = verdict p.sheet p.memory j :=
  (disabled_spec hs i).2.verdict_eq hs j

end VendorCss.Pass
