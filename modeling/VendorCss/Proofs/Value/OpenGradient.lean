import VendorCss.Proofs.Component.Printing
import VendorCss.Proofs.Value.Settling

/-!
# A gradient that is never closed

A square bracket that a gradient leaves open makes a block, and of the brackets in a block only the one opened last can be
closed. So the parenthesis that is printed for the gradient is read as part of the block, the gradient is open as before,
and the next step prints one more parenthesis (`step?_openGradient`). The steps never end (`not_settles_openBracket`).
-/

namespace VendorCss

/-! ## Tokens -/

namespace Token

variable {s t : Text} {c : Char}

/-- A name ends before a character that no name has. -/
theorem nameLength_append_cons (hs : ∀ d ∈ s, isNamePart d = true) (hc : isNamePart c = false) (hescape : c ≠ '\\') :
    nameLength 0 (s ++ c :: t) = s.length := by
  induction s with
  | nil => simp [nameLength, hc, hescape]
  | cons d s ih =>
    rw [List.forall_mem_cons] at hs
    rw [List.cons_append, nameLength, if_pos hs.1, ih hs.2]
    rfl

/-- The names of other functions than `url` are tokens with their parenthesis. -/
theorem nameToken_append_cons (hs : ∀ d ∈ s, isNamePart d = true) (hnul : '\x00' ∉ s)
    (hurl : Text.sameIgnoringAsciiCase s "url" = false) :
    nameToken (s ++ '(' :: t) = (.function s, s.length + 1) := by
  have hescape : '\\' ∉ s := fun h => absurd (hs _ h) (by decide)
  unfold nameToken
  rw [nameLength_append_cons hs (by decide) (by decide)]
  dsimp only
  rw [List.drop_left, List.take_left, unescape_eq_self hescape hnul, hurl]
  rfl

end Token

theorem tokensWithin_replicate {fuel n : Nat} (h : n ≤ fuel) :
    tokensWithin fuel (List.replicate n ')') = List.replicate n ⟨.closeBracket .paren, [')']⟩ := by
  induction n generalizing fuel with
  | zero => cases fuel <;> rfl
  | succ n ih =>
    obtain ⟨fuel, rfl⟩ := Nat.exists_eq_add_of_lt h
    rw [show n + fuel + 1 = (n + fuel) + 1 from rfl, List.replicate_succ, tokensWithin]
    have hscan : Token.scan ')' (List.replicate n ')') = (.closeBracket .paren, 0) := rfl
    rw [hscan]
    dsimp only
    rw [List.take_zero, List.drop_zero, ih (Nat.le_add_right n fuel)]
    rfl

/-! ## The gradient -/

/-- The name of a gradient for WebKit. -/
def webkitGradient : Text := "-webkit-linear-gradient"

/-- A gradient whose only argument is an open square bracket, with parentheses after it. -/
def openGradient (n : Nat) : Text := webkitGradient ++ '(' :: '[' :: List.replicate n ')'

theorem tokens_openGradient (n : Nat) : tokens (openGradient n) =
    ⟨.function webkitGradient, webkitGradient ++ ['(']⟩ :: ⟨.openBracket .square, ['[']⟩ ::
      List.replicate n ⟨.closeBracket .paren, [')']⟩ := by
  obtain ⟨s, hs⟩ : ∃ s, webkitGradient = '-' :: 'w' :: s := ⟨_, rfl⟩
  have hscan : Token.scan '-' ('w' :: s ++ '(' :: '[' :: List.replicate n ')') =
      (.function webkitGradient, s.length + 2) := by
    have hname := Token.nameToken_append_cons (s := webkitGradient) (t := '[' :: List.replicate n ')') (by decide)
      (by decide) (by decide)
    rw [hs] at hname
    change (Token.nameToken ('-' :: 'w' :: s ++ '(' :: '[' :: List.replicate n ')')).map id (· - 1) = _
    rw [hname, hs]
    rfl
  have hlength : (openGradient n).length = n + s.length + 3 + 1 := by
    simp [openGradient, hs]
    omega
  rw [tokens, hlength, openGradient, hs, List.cons_append, tokensWithin, hscan]
  dsimp only
  have hsplit : 'w' :: s ++ '(' :: '[' :: List.replicate n ')' =
      ('w' :: s ++ ['(']) ++ '[' :: List.replicate n ')' := by simp
  have hname : ('w' :: s ++ ['(']).length = s.length + 2 := by simp
  have hbracket : Token.scan '[' (List.replicate n ')') = (.openBracket .square, 0) := rfl
  rw [hsplit, List.take_left' hname, List.drop_left' hname, tokensWithin, hbracket]
  dsimp only
  rw [List.take_zero, List.drop_zero, tokensWithin_replicate (by omega), hs]
  rfl

namespace Component

theorem foldl_step_replicate (n : Nat) (inside : Text) (outer : List (Text × Reversed)) :
    (List.replicate n ⟨.closeBracket .paren, [')']⟩).foldl Reader.step ⟨[word inside], outer, [.square]⟩ =
      ⟨[word (inside ++ List.replicate n ')')], outer, [.square]⟩ := by
  induction n generalizing inside with
  | zero => simp
  | succ n ih =>
    have hstep : Reader.step ⟨[word inside], outer, [.square]⟩ ⟨.closeBracket .paren, [')']⟩ =
        ⟨[word (inside ++ [')'])], outer, [.square]⟩ := rfl
    rw [List.replicate_succ, List.foldl_cons, hstep, ih, List.append_assoc]
    rfl

/-- The parentheses are read as part of the block. -/
theorem ofText_openGradient (n : Nat) :
    ofText (openGradient n) = [function webkitGradient [] [] [word ('[' :: List.replicate n ')')]] := by
  have hstart : Reader.step (Reader.step {} ⟨.function webkitGradient, webkitGradient ++ ['(']⟩)
      ⟨.openBracket .square, ['[']⟩ = ⟨[word ['[']], [(webkitGradient, [])], [.square]⟩ := rfl
  rw [ofText, tokens_openGradient, List.foldl_cons, List.foldl_cons, hstart, foldl_step_replicate]
  rfl

end Component

namespace ValueDialect

/-- One step adds a parenthesis. -/
theorem step?_openGradient (n : Nat) :
    gradient.step? "linear-gradient" "-webkit-" (openGradient n) = some (openGradient (n + 1)) := by
  have hne : webkitGradient ≠ "linear-gradient" := by decide
  change Gradient.spell? "linear-gradient" (openGradient n) "-webkit-" = _
  rw [Gradient.spell?, Component.ofText_openGradient, List.mapM_cons, Gradient.spellOne?, if_neg hne]
  simp [Component.renderAll, Component.render, openGradient, List.replicate_succ']

/-- **A gradient that is never closed.** With an open square bracket for its argument the steps of a gradient go on for
ever. -/
theorem not_settles_openBracket :
    ¬∃ result, gradient.Settles "linear-gradient" "-webkit-" "linear-gradient([" result := by
  have hforever (n : Nat) (result : Option Text) :
      ¬gradient.Settles "linear-gradient" "-webkit-" (openGradient n) result := by
    intro h
    generalize hvalue : openGradient n = value at h
    induction h generalizing n with
    | givenUp h =>
      rw [← hvalue, step?_openGradient] at h
      cases h
    | fixed h =>
      rw [← hvalue, step?_openGradient] at h
      have hlength := congrArg List.length (Option.some.inj h)
      simp [openGradient] at hlength
    | step h _ _ ih =>
      rw [← hvalue, step?_openGradient] at h
      exact ih (n + 1) (Option.some.inj h)
  have hfirst : gradient.step? "linear-gradient" "-webkit-" "linear-gradient([" = some (openGradient 1) := by
    decide +kernel
  rintro ⟨result, h⟩
  cases h with
  | givenUp h =>
    rw [hfirst] at h
    cases h
  | fixed h =>
    rw [hfirst] at h
    exact absurd (Option.some.inj h) (by decide)
  | step h _ hnext =>
    rw [hfirst] at h
    obtain rfl := Option.some.inj h
    exact hforever 1 result hnext

end ValueDialect

end VendorCss
