import Mathlib.Data.List.Chain
import VendorCss.Css.Sheet.Parser
import VendorCss.Proofs.Sheet.Spelling

/-!
# The outline of a stylesheet

The outline of a text says, between two of its tokens, how many blocks are open, what the statement begun is and which
of its brackets are open. It builds no tree and has no spacing to keep; all it does is to cut the text into stretches
(`Outline.stretches`), which lose nothing (`flatMap_stretches`). A stretch ends where a statement ends or where a token
stands between statements, and it tells which white space at its end is loose: the blanks with which a declaration ends
before its semicolon.
-/

namespace VendorCss

/-- A part of a text, with the loose white space after it. -/
structure Stretch where
  kept : Text
  loose : Text := []
  deriving DecidableEq, Repr

/-- The characters of a stretch. -/
def Stretch.text (s : Stretch) : Text := s.kept ++ s.loose

/-- Where a text stands between two of its tokens. -/
structure Outline where
  /-- The number of blocks open. -/
  depth : Nat := 0
  /-- The statement begun. -/
  statement : Option Text := none
  /-- The brackets open in the statement, innermost first. -/
  skipping : List Bracket := []
  /-- The token before is a comment between statements that nothing closes. -/
  openComment : Bool := false
  deriving DecidableEq, Repr

namespace Outline

/-- The text of the statement begun; empty between statements. -/
def begun (o : Outline) : Text := o.statement.getD []

/-- A statement before the semicolon that ends it. Only a declaration has loose blanks; an at-rule keeps them. -/
def ended (statement : Text) : Stretch :=
  match statement with
  | '@' :: _ => ⟨statement, []⟩
  | _ => ⟨statement.trimEnd, statement.trailingBlanks⟩

/-- A token that belongs to the statement. -/
def extend (o : Outline) (t : Token) (skipping : List Bracket) : Outline :=
  { depth := o.depth, statement := some (o.begun ++ t.text), skipping }

/-- The brackets open after a token inside brackets: only the one opened last can be closed. -/
def bracketsAfter (skipping : List Bracket) (t : Token) : List Bracket :=
  match t.kind.opens?, t.kind.closes? with
  | some b, _ => b :: skipping
  | none, some b => if skipping.head? = some b then skipping.tail else skipping
  | none, none => skipping

/-- The stretches that a token ends, and the outline after it. -/
def step (o : Outline) (t : Token) : List Stretch × Outline :=
  if !o.skipping.isEmpty then ([], o.extend t (bracketsAfter o.skipping t))
  else
    match t.kind, o.statement, o.depth with
    | .blank, none, _ | .semicolon, none, _ => ([⟨t.text, []⟩], { depth := o.depth })
    | .comment _, none, _ => ([⟨t.text, []⟩], { depth := o.depth, openComment := t.isOpenComment })
    | .semicolon, some s, _ => ([ended s, ⟨t.text, []⟩], { depth := o.depth })
    | .openBracket .curly, _, _ =>
      -- the block of a custom property is part of its value
      if Statement.takesBlock o.begun then ([], o.extend t [.curly])
      else ([⟨o.begun ++ t.text, []⟩], { depth := o.depth + 1 })
    | .closeBracket .curly, _, depth + 1 => ([⟨o.begun ++ t.text, []⟩], { depth })
    | _, _, _ => ([], o.extend t t.kind.opens?.toList)

/-- The stretches of a text and the outline at its end. -/
def run (o : Outline) : List Token → List Stretch × Outline
  | [] => ([⟨o.begun, []⟩], o)
  | t :: ts =>
    let (stretches, o') := o.step t
    let (rest, last) := o'.run ts
    (stretches ++ rest, last)

/-- The stretches of a text, from its start to its end. -/
def stretches (t : Text) : List Stretch := (({} : Outline).run (tokens t)).1

/-- The outline at the end of a text. -/
def atEnd (t : Text) : Outline := (({} : Outline).run (tokens t)).2

/-- What closes everything still open: the mark of a comment between statements, then one bracket for each block. -/
def closing (o : Outline) : Text :=
  let mark : Text := if o.openComment then "*/" else []
  mark ++ List.replicate o.depth '\x7d'

/-! ## Nothing is lost -/

@[simp] theorem text_tight (t : Text) : Stretch.text ⟨t, []⟩ = t := List.append_nil t

@[simp] theorem text_ended (statement : Text) : (ended statement).text = statement := by
  unfold ended
  split
  · exact text_tight _
  · exact Text.trimEnd_append_trailingBlanks _

theorem ended_of_ne {statement : Text} (h : ∀ rest, statement ≠ '@' :: rest) :
    ended statement = ⟨statement.trimEnd, statement.trailingBlanks⟩ := by
  unfold ended
  split
  · exact absurd rfl (h _)
  · rfl

/-- A token adds its characters to those of the stretches and of the statement begun. -/
theorem step_text (o : Outline) (t : Token) :
    (o.step t).1.flatMap Stretch.text ++ (o.step t).2.begun = o.begun ++ t.text := by
  unfold step
  split
  · rfl
  · split
    case h_4 s hs => simp [begun, hs]
    case h_5 =>
      split
      · rfl
      · simp [begun]
    all_goals simp_all [extend, begun]

/-- Only an open comment leaves a comment open. -/
theorem isOpenComment_of_step {o : Outline} {t : Token} (h : (o.step t).2.openComment = true) :
    t.isOpenComment = true := by
  unfold step at h
  split at h
  · cases h
  · split at h
    case h_3 => exact h
    case h_5 => split at h <;> cases h
    all_goals cases h

theorem run_text (o : Outline) (ts : List Token) :
    (o.run ts).1.flatMap Stretch.text = o.begun ++ ts.flatMap Token.text := by
  induction ts generalizing o with
  | nil => simp [run, Stretch.text]
  | cons t ts ih =>
    simp only [run, List.flatMap_append, ih, List.flatMap_cons]
    rw [← List.append_assoc, step_text, List.append_assoc]

/-- The stretches of a text one after the other are the text. -/
theorem flatMap_stretches (t : Text) : (stretches t).flatMap Stretch.text = t := by
  rw [stretches, run_text, tokens_text]
  rfl

/-! ## Loose blanks -/

/-- Loose blanks are all blanks at the end of a declaration, and the next stretch is the semicolon that ends it. -/
def LooseEndsDeclaration (s next : Stretch) : Prop :=
  s.loose ≠ [] →
    (∀ rest, s.text ≠ '@' :: rest) ∧ s = ⟨s.text.trimEnd, s.text.trailingBlanks⟩ ∧ next = ⟨[';'], []⟩

theorem looseEndsDeclaration_of_tight {s : Stretch} (h : s.loose = []) (next : Stretch) :
    LooseEndsDeclaration s next := fun hne => absurd h hne

theorem looseEndsDeclaration_ended (statement : Text) : LooseEndsDeclaration (ended statement) ⟨[';'], []⟩ := by
  by_cases h : ∃ rest, statement = '@' :: rest
  · obtain ⟨rest, rfl⟩ := h
    exact looseEndsDeclaration_of_tight rfl _
  · have hne : ∀ rest, statement ≠ '@' :: rest := fun rest hr => h ⟨rest, hr⟩
    intro _
    rw [text_ended]
    exact ⟨hne, ended_of_ne hne, rfl⟩

/-- The stretches that a token ends: the last one is tight. -/
theorem step_loose (o : Outline) {t : Token} (ht : t.IsSpelled) :
    (o.step t).1.IsChain LooseEndsDeclaration ∧ ∀ s ∈ (o.step t).1.getLast?, s.loose = [] := by
  unfold step
  split
  · simp
  · split
    case h_4 s hkind hs =>
      rw [Token.IsSpelled, hkind] at ht
      simp only at ht
      rw [ht]
      exact ⟨List.isChain_pair.2 (looseEndsDeclaration_ended s), by simp⟩
    case h_5 => split <;> simp
    all_goals simp

theorem run_loose (o : Outline) {ts : List Token} (ht : ∀ t ∈ ts, t.IsSpelled) :
    (o.run ts).1.IsChain LooseEndsDeclaration ∧ ∀ s ∈ (o.run ts).1.getLast?, s.loose = [] := by
  induction ts generalizing o with
  | nil => simp [run]
  | cons t ts ih =>
    obtain ⟨hchain, hlast⟩ := o.step_loose (ht t List.mem_cons_self)
    obtain ⟨hrest, hend⟩ := ih (o.step t).2 fun x hx => ht x (List.mem_cons_of_mem _ hx)
    refine ⟨List.isChain_append.2 ⟨hchain, hrest, fun s hs next _ => ?_⟩, ?_⟩
    · exact looseEndsDeclaration_of_tight (hlast s hs) next
    · intro s hs
      simp only [run, List.getLast?_append, Option.mem_def, Option.or_eq_some_iff] at hs
      rcases hs with hs | ⟨_, hs⟩
      · exact hend s hs
      · exact hlast s hs

/-- A text without loose blanks is kept. -/
theorem flatMap_kept {ss : List Stretch} (h : ∀ s ∈ ss, s.loose = []) :
    ss.flatMap Stretch.kept = ss.flatMap Stretch.text := by
  refine List.flatMap_congr fun s hs => ?_
  rw [Stretch.text, h s hs, List.append_nil]

end Outline

end VendorCss
