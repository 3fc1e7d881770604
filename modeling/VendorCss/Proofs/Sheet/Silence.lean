import VendorCss.Proofs.Sheet.Positions
import VendorCss.Proofs.Sheet.Printing
import VendorCss.Proofs.Token.Rejoining

/-!
# Silent tokens

A token is silent where the outline ends no stretch with it (`Outline.Silent`): it belongs to a statement that goes on.
The reader puts silent tokens together, so it has read nothing but the text of the statement and the brackets open in it
(`SheetReader.foldl_begins`); how the text was cut does not matter.
-/

namespace VendorCss

/-! ## Silent runs -/

namespace Outline

/-- The outline after some tokens. -/
def after (o : Outline) (ts : List Token) : Outline := ts.foldl (fun o t => (o.step t).2) o

/-- Tokens that end no stretch: all of them belong to one statement. -/
inductive Silent : Outline → List Token → Prop
  | nil (o : Outline) : Silent o []
  | cons {o : Outline} {t : Token} {ts : List Token} (head : (o.step t).1 = []) (tail : Silent (o.step t).2 ts) :
    Silent o (t :: ts)

variable {o : Outline} {t : Token} {ts us : List Token}

theorem after_append (o : Outline) (ts us : List Token) : o.after (ts ++ us) = (o.after ts).after us :=
  List.foldl_append

theorem step_of_silent (h : (o.step t).1 = []) : (o.step t).2 = o.extend t (o.step t).2.skipping := by
  unfold step at h ⊢
  split at h
  · simp_all [extend]
  · split at h
    case h_5 => split at h <;> simp_all [extend]
    all_goals simp_all [extend]

theorem run_cons (o : Outline) (t : Token) (ts : List Token) :
    o.run (t :: ts) = ((o.step t).1 ++ ((o.step t).2.run ts).1, ((o.step t).2.run ts).2) := rfl

/-- The brackets open after a silent token. -/
theorem skipping_of_silent (h : (o.step t).1 = []) :
    (o.step t).2.skipping = if o.skipping = [] then t.kind.opens?.toList else bracketsAfter o.skipping t := by
  unfold step at h ⊢
  split at h
  · rename_i hk
    have hne : o.skipping ≠ [] := by simpa using hk
    rw [if_neg hne]
    simp [extend, hk]
  · rename_i hk
    have hnil : o.skipping = [] := by simpa using hk
    rw [if_pos hnil]
    split at h
    case h_5 hkind _ => split at h <;> simp_all [extend, TokenKind.opens?]
    all_goals simp_all [extend]

theorem Silent.append (h : Silent o ts) (h' : Silent (o.after ts) us) : Silent o (ts ++ us) := by
  induction h with
  | nil => exact h'
  | cons head tail ih => exact .cons head (ih h')

theorem Silent.of_append (h : Silent o (ts ++ us)) : Silent o ts ∧ Silent (o.after ts) us := by
  induction ts generalizing o with
  | nil => exact ⟨.nil o, h⟩
  | cons t ts ih =>
    obtain _ | ⟨head, tail⟩ := h
    exact ⟨.cons head (ih tail).1, (ih tail).2⟩

theorem Silent.run_append (h : Silent o ts) (us : List Token) : o.run (ts ++ us) = (o.after ts).run us := by
  induction h with
  | nil => rfl
  | cons head tail ih => rw [List.cons_append, run_cons, head, ih]; rfl

/-- A statement begun holds the tokens since then. -/
theorem Silent.after_eq (h : Silent o ts) (hne : ts ≠ []) :
    o.after ts =
      { depth := o.depth, statement := some (o.begun ++ ts.flatMap Token.text), skipping := (o.after ts).skipping } := by
  induction h with
  | nil => exact absurd rfl hne
  | @cons o t ts head tail ih =>
    have hstep := step_of_silent head
    cases ts with
    | nil =>
      show (o.step t).2 = _
      rw [List.flatMap_singleton]
      exact hstep
    | cons u us =>
      have hrest := ih (List.cons_ne_nil _ _)
      have hdepth : (o.step t).2.depth = o.depth := by rw [hstep]; rfl
      have hbegun : (o.step t).2.begun = o.begun ++ t.text := by rw [hstep]; rfl
      rw [hdepth, hbegun] at hrest
      rw [List.flatMap_cons, ← List.append_assoc]
      exact hrest

theorem Silent.begun_after (h : Silent o ts) : (o.after ts).begun = o.begun ++ ts.flatMap Token.text := by
  cases ts with
  | nil => exact (List.append_nil _).symm
  | cons t ts => rw [h.after_eq (List.cons_ne_nil _ _)]; rfl

theorem exists_speaking (o : Outline) (ts : List Token) :
    Silent o ts ∨ ∃ xs t us, ts = xs ++ t :: us ∧ Silent o xs ∧ ((o.after xs).step t).1 ≠ [] := by
  induction ts generalizing o with
  | nil => exact .inl (.nil o)
  | cons t ts ih =>
    by_cases head : (o.step t).1 = []
    · rcases ih (o.step t).2 with tail | ⟨xs, u, us, rfl, tail, hu⟩
      · exact .inl (.cons head tail)
      · exact .inr ⟨t :: xs, u, us, rfl, .cons head tail, hu⟩
    · exact .inr ⟨[], t, ts, rfl, .nil o, head⟩

/-- Words and blanks are silent inside a statement, and a word begins one. -/
theorem silent_plain (hplain : ∀ t ∈ ts, t.kind.isPlain = true) (hskipping : o.skipping = [])
    (hbegun : o.statement = none → ∀ t ∈ ts.head?, t.kind = .word) : Silent o ts ∧ (o.after ts).skipping = [] := by
  induction ts generalizing o with
  | nil => exact ⟨.nil o, hskipping⟩
  | cons t ts ih =>
    rw [List.forall_mem_cons] at hplain
    have hstep : o.step t = ([], o.extend t []) := by
      unfold step
      rw [hskipping]
      cases hkind : t.kind with
      | word => simp [TokenKind.opens?]
      | blank =>
        cases hs : o.statement with
        | none =>
          have hword := hbegun hs t rfl
          rw [hkind] at hword
          cases hword
        | some text => simp [TokenKind.opens?]
      | _ =>
        have hfalse := hplain.1
        rw [hkind] at hfalse
        cases hfalse
    obtain ⟨hsilent, hend⟩ := ih (o := (o.step t).2) hplain.2 (by rw [hstep]; rfl) (by rw [hstep]; intro hnone; cases hnone)
    exact ⟨.cons (by rw [hstep]) hsilent, hend⟩

/-- Words and blanks open and close no bracket. -/
theorem Silent.skipping_plain (h : Silent o ts) (hplain : ∀ t ∈ ts, t.kind.isPlain = true) :
    (o.after ts).skipping = o.skipping := by
  induction h with
  | nil => rfl
  | @cons o t ts head tail ih =>
    rw [List.forall_mem_cons] at hplain
    refine (ih hplain.2).trans ?_
    have hopens : t.kind.opens? = none := by
      cases hkind : t.kind <;> rw [hkind] at hplain <;> first | rfl | cases hplain.1
    have hcloses : t.kind.closes? = none := by
      cases hkind : t.kind <;> rw [hkind] at hplain <;> first | rfl | cases hplain.1
    rw [skipping_of_silent head, bracketsAfter, hopens, hcloses]
    by_cases hk : o.skipping = []
    · rw [if_pos hk, hk]
      rfl
    · rw [if_neg hk]

/-- A token that begins a statement is no blank. -/
theorem ne_blank_of_silent (h : (o.step t).1 = []) (hk : o.skipping = []) (hs : o.statement = none) :
    t.kind ≠ .blank := by
  intro hkind
  simp [step, hk, hs, hkind] at h

/-- Where a stretch ends, no bracket is open, and the statement is over. -/
theorem step_of_speaking (ht : t.IsSpelled) (h : (o.step t).1 ≠ []) :
    o.skipping = [] ∧ (o.step t).2.statement = none ∧ (o.step t).2.skipping = [] ∧
      ((o.statement = none ∧ (t.kind = .blank ∨ ∃ inside, t.kind = .comment inside) ∧ (o.step t).1 = [⟨t.text, []⟩]) ∨
        ∃ d, Token.isDivider d = true ∧ t.text = [d] ∧
          ((o.step t).1 = [⟨o.begun ++ [d], []⟩] ∨
            (t.kind = .semicolon ∧ o.statement.isSome = true ∧ (o.step t).1 = [ended o.begun, ⟨[d], []⟩]))) := by
  unfold Token.IsSpelled at ht
  unfold step at h ⊢
  by_cases hk : o.skipping = []
  · rw [hk] at h ⊢
    refine ⟨rfl, ?_⟩
    cases hkind : t.kind with
    | openBracket b =>
      rw [hkind] at ht h
      cases b with
      | curly =>
        by_cases htakes : Statement.takesBlock o.begun = true
        · simp [htakes] at h
        · exact ⟨by simp [htakes], by simp [htakes], .inr ⟨'\x7b', rfl, ht, .inl (by simp [htakes, ht])⟩⟩
      | paren | square => simp at h
    | closeBracket b =>
      rw [hkind] at ht h
      cases b with
      | curly =>
        cases hd : o.depth with
        | zero => simp [hd] at h
        | succ depth => exact ⟨rfl, rfl, .inr ⟨'\x7d', rfl, ht, .inl (by simp [ht])⟩⟩
      | paren | square => simp at h
    | semicolon =>
      rw [hkind] at ht h
      cases hs : o.statement with
      | none => exact ⟨rfl, rfl, .inr ⟨';', rfl, ht, .inl (by simp [begun, hs, ht])⟩⟩
      | some text => exact ⟨rfl, rfl, .inr ⟨';', rfl, ht, .inr ⟨rfl, rfl, by simp [begun, hs, ht]⟩⟩⟩
    | blank =>
      rw [hkind] at h
      cases hs : o.statement with
      | none => exact ⟨rfl, rfl, .inl ⟨rfl, .inl rfl, rfl⟩⟩
      | some text => simp [hs] at h
    | comment inside =>
      rw [hkind] at h
      cases hs : o.statement with
      | none => exact ⟨rfl, rfl, .inl ⟨rfl, .inr ⟨inside, rfl⟩, rfl⟩⟩
      | some text => simp [hs] at h
    | colon | comma | slash | string | function _ | word => simp [hkind] at h
  · simp [hk] at h

end Outline

namespace SheetReader

/-- Where a reader stands. -/
def outline (r : SheetReader) : Outline :=
  { depth := r.outer.length, statement := r.frame.statement.map Prod.fst, skipping := r.skipping }

/-- A reader that has begun a statement. -/
def saying (r : SheetReader) (text : Text) (skipping : List Bracket) : SheetReader :=
  { r with frame := { r.frame with statement := some (text, .start), semicolon := false }, skipping }

variable {r : SheetReader} {t : Token} {ts : List Token}

theorem Follows.outline_eq {o : Outline} {kept : Text} (h : Follows o r kept) (hc : o.openComment = false) :
    r.outline = o := by
  obtain ⟨depth, statement, skipping, openComment⟩ := o
  obtain ⟨hdepth, hstatement, hskipping⟩ := And.intro h.depth (And.intro h.statement h.skipping)
  cases hc
  rw [outline, ← hdepth, ← hstatement, ← hskipping]

/-- The reader follows the outline of where it stands. -/
def IsSteady (r : SheetReader) : Prop := ∃ kept, Follows r.outline r kept

theorem isSteady_start : start.IsSteady := ⟨[], follows_start⟩

/-- The reader goes where the outline goes. -/
theorem IsSteady.step (h : r.IsSteady) (ht : t.IsSpelled) (hc : t.isOpenComment = false) :
    (r.step t).outline = (r.outline.step t).2 ∧ (r.step t).IsSteady := by
  obtain ⟨kept, h⟩ := h
  have hnext := follows_step h rfl ht
  have hclosed : (r.outline.step t).2.openComment = false := Bool.eq_false_iff.2 fun ho => by
    rw [Outline.isOpenComment_of_step ho] at hc
    cases hc
  have heq := hnext.outline_eq hclosed
  rw [← heq] at hnext
  exact ⟨heq, _, hnext⟩

theorem IsSteady.foldl (h : r.IsSteady) (ht : ∀ t ∈ ts, t.IsSpelled) (hc : ∀ t ∈ ts, t.isOpenComment = false) :
    (ts.foldl SheetReader.step r).outline = r.outline.after ts ∧ (ts.foldl SheetReader.step r).IsSteady := by
  induction ts generalizing r with
  | nil => exact ⟨rfl, h⟩
  | cons t ts ih =>
    rw [List.forall_mem_cons] at ht hc
    obtain ⟨heq, hnext⟩ := h.step ht.1 hc.1
    obtain ⟨hrest, hlast⟩ := ih hnext ht.2 hc.2
    exact ⟨hrest.trans (by rw [heq]; rfl), hlast⟩

/-- A silent token outside brackets goes to the statement, which it begins if there is none. -/
theorem step_of_silent (hk : r.skipping = []) (h : (r.outline.step t).1 = []) :
    (r.step t).unplaced = (r.extend t).unplaced ∧ (r.outline.step t).2.skipping = t.kind.opens?.toList := by
  have hposition (r : SheetReader) (position : Position) : ({ r with position } : SheetReader).unplaced = r.unplaced :=
    rfl
  unfold Outline.step at h ⊢
  unfold step
  have hempty : (!r.skipping.isEmpty) = false := by rw [hk]; rfl
  have hempty' : (!r.outline.skipping.isEmpty) = false := hempty
  rw [hempty'] at h ⊢
  rw [hempty]
  simp only [Bool.false_eq_true, ↓reduceIte] at h ⊢
  cases hkind : t.kind with
  | openBracket b =>
    rw [hkind] at h
    cases b with
    | curly =>
      have hbegun : r.outline.begun = (r.frame.statement.getD ([], r.position)).1 := by
        cases hs : r.frame.statement <;> simp [outline, Outline.begun, hs]
      by_cases htakes : Statement.takesBlock r.outline.begun = true
      · simp [htakes, openBlock, ← hbegun, Outline.extend, TokenKind.opens?, hposition]
      · simp [htakes] at h
    | paren | square => simp [Outline.extend, hposition]
  | closeBracket b =>
    rw [hkind] at h
    cases b with
    | curly =>
      cases ho : r.outer with
      | nil => simp [outline, ho, Outline.extend, hposition]
      | cons outer rest => simp [outline, ho] at h
    | paren | square => simp [Outline.extend, hposition]
  | semicolon | blank | comment _ =>
    rw [hkind] at h
    cases hs : r.frame.statement <;> simp_all [outline, Outline.extend]
  | colon | comma | slash | string | function _ | word => simp [Outline.extend, hposition]

/-- A silent token begins a statement. -/
theorem step_begins (hs : r.frame.statement = none) (hk : r.skipping = []) (h : (r.outline.step t).1 = []) :
    (r.step t).unplaced = (r.saying t.text (r.outline.step t).2.skipping).unplaced := by
  obtain ⟨hstep, hskipping⟩ := step_of_silent hk h
  rw [hstep, hskipping]
  simp [extend, saying, unplaced, Frame.unplaced, hs]

/-- A silent token goes to the statement begun. -/
theorem step_saying {text : Text} {skipping : List Bracket} (h : ((r.saying text skipping).outline.step t).1 = []) :
    ((r.saying text skipping).step t).unplaced =
      (r.saying (text ++ t.text) ((r.saying text skipping).outline.step t).2.skipping).unplaced := by
  by_cases hk : skipping = []
  · obtain ⟨hstep, hskipping⟩ := step_of_silent (r := r.saying text skipping) hk h
    rw [hstep, hskipping]
    simp [extend, saying, unplaced, Frame.unplaced]
  · have hne : (!skipping.isEmpty) = true := by simpa using hk
    simp [step, Outline.step, outline, saying, hne, skip, unplaced, Frame.unplaced, Outline.extend,
      Outline.bracketsAfter]
    rfl

/-- The rest of a statement. -/
theorem foldl_saying {text : Text} {skipping : List Bracket} (h : Outline.Silent (r.saying text skipping).outline ts) :
    (ts.foldl step (r.saying text skipping)).unplaced =
      (r.saying (text ++ ts.flatMap Token.text) ((r.saying text skipping).outline.after ts).skipping).unplaced := by
  induction ts generalizing text skipping with
  | nil => rw [List.flatMap_nil, List.append_nil]; rfl
  | cons t ts ih =>
    obtain _ | ⟨head, tail⟩ := h
    have hnext : ((r.saying text skipping).outline.step t).2 =
        (r.saying (text ++ t.text) ((r.saying text skipping).outline.step t).2.skipping).outline :=
      Outline.step_of_silent head
    rw [hnext] at tail
    have hafter : (r.saying text skipping).outline.after (t :: ts) =
        (r.saying (text ++ t.text) ((r.saying text skipping).outline.step t).2.skipping).outline.after ts := by
      rw [← hnext]
      rfl
    rw [List.foldl_cons, unplaced_foldl (step_saying head), ih tail, hafter, List.flatMap_cons, List.append_assoc]

/-- A statement without what ends it. -/
theorem foldl_begins (hs : r.frame.statement = none) (hk : r.skipping = []) (h : Outline.Silent r.outline ts)
    (hne : ts ≠ []) :
    (ts.foldl step r).unplaced = (r.saying (ts.flatMap Token.text) (r.outline.after ts).skipping).unplaced := by
  cases h with
  | nil => exact absurd rfl hne
  | @cons _ t ts head tail =>
    have hnext : (r.outline.step t).2 = (r.saying t.text (r.outline.step t).2.skipping).outline := by
      rw [Outline.step_of_silent head]
      simp [Outline.extend, outline, saying, Outline.begun, hs]
    have hafter : r.outline.after (t :: ts) =
        (r.saying t.text (r.outline.step t).2.skipping).outline.after ts := by
      rw [← hnext]
      rfl
    rw [hnext] at tail
    rw [List.foldl_cons, unplaced_foldl (step_begins hs hk head), foldl_saying tail, hafter, List.flatMap_cons]

/-- A semicolon ends two statements with the same node. -/
theorem step_ends {text text' : Text} (hkind : t.kind = .semicolon)
    (h : Statement.node text false = Statement.node text' false) :
    ((r.saying text []).step t).unplaced = ((r.saying text' []).step t).unplaced := by
  simp [step, saying, hkind, h, unplaced, Frame.unplaced, Frame.push]

end SheetReader

end VendorCss
