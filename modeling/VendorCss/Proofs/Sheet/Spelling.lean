import Mathlib.Data.List.Basic
import VendorCss.Css.Token

/-!
# The characters of tokens

The reader of stylesheets decides by the kinds of tokens and keeps their characters. The two agree: a semicolon or a
curly bracket is its one character, and a comment is its marks with the text between them (`tokens_isSpelled`). Only the
end of the text leaves a comment open, so an open comment is the last token (`tokens_pairwise`).
-/

namespace VendorCss

/-- The kind leaves the characters of its token open. -/
def TokenKind.isLoose : TokenKind → Bool
  | .semicolon | .openBracket .curly | .closeBracket .curly | .comment _ => false
  | _ => true

namespace Token

/-- The characters of a token are those of its kind; the closing mark of a comment may be missing. -/
def IsSpelled (t : Token) : Prop :=
  match t.kind with
  | .semicolon => t.text = [';']
  | .openBracket .curly => t.text = ['\x7b']
  | .closeBracket .curly => t.text = ['\x7d']
  | .comment inside => t.text = "/*" ++ inside ∨ t.text = "/*" ++ inside ++ "*/"
  | _ => True

/-- A comment that nothing closes. -/
def isOpenComment (t : Token) : Bool :=
  match t.kind with
  | .comment inside => t.text != "/*" ++ inside ++ "*/"
  | _ => false

theorem isSpelled_of_isLoose {t : Token} (h : t.kind.isLoose = true) : t.IsSpelled := by
  unfold IsSpelled
  split <;> simp_all [TokenKind.isLoose]

theorem isOpenComment_of_isLoose {t : Token} (h : t.kind.isLoose = true) : t.isOpenComment = false := by
  unfold isOpenComment
  split <;> simp_all [TokenKind.isLoose]

/-! ## Scanning -/

/-- A comment holds its closing mark, or the rest of the text. -/
theorem commentBody_cases (t : Text) :
    t.take (commentBody t).2 = (commentBody t).1 ++ "*/" ∨ ((commentBody t).1 = t ∧ (commentBody t).2 = t.length) := by
  fun_induction commentBody t with
  | case1 => exact .inr ⟨rfl, rfl⟩
  | case2 => exact .inl rfl
  | case3 c t _ inside n h ih =>
    rw [h] at ih
    rcases ih with ih | ⟨hi, hn⟩
    · exact .inl (by simpa using ih)
    · exact .inr ⟨by rw [← hi], by rw [List.length_cons, ← hn]⟩

theorem stringToken_isLoose (quote : Char) (skip : Nat) (t : Text) : (stringToken quote skip t).1.isLoose = true := by
  fun_induction stringToken quote skip t <;> first | rfl | assumption

theorem nameToken_isLoose (t : Text) : (nameToken t).1.isLoose = true := by
  unfold nameToken
  dsimp only
  split
  · split <;> rfl
  · rfl

/-- What the scanner answers for the text `c :: t` says how the token is spelled, and that an open comment takes the
whole rest. -/
def IsScanned (c : Char) (t : Text) (answer : TokenKind × Nat) : Prop :=
  IsSpelled ⟨answer.1, c :: t.take answer.2⟩ ∧
    (isOpenComment ⟨answer.1, c :: t.take answer.2⟩ = true → t.drop answer.2 = [])

theorem isScanned_of_isLoose {c : Char} {t : Text} {answer : TokenKind × Nat} (h : answer.1.isLoose = true) :
    IsScanned c t answer :=
  ⟨isSpelled_of_isLoose h, fun ho => by rw [isOpenComment_of_isLoose h] at ho; cases ho⟩

/-- A token of one character. -/
theorem isScanned_single {c : Char} {t : Text} {kind : TokenKind} (hs : IsSpelled ⟨kind, [c]⟩)
    (hc : isOpenComment ⟨kind, [c]⟩ = false) : IsScanned c t (kind, 0) :=
  ⟨hs, fun ho => by rw [List.take_zero, hc] at ho; cases ho⟩

theorem isScanned_comment (t : Text) :
    IsScanned '/' ('*' :: t) (.comment (commentBody t).1, (commentBody t).2 + 1) := by
  rcases commentBody_cases t with h | ⟨hi, hn⟩
  · -- the comment is closed
    have ht : '/' :: ('*' :: t).take ((commentBody t).2 + 1) = "/*" ++ (commentBody t).1 ++ "*/" := by
      rw [List.take_succ_cons, h]
      rfl
    have hc : isOpenComment ⟨.comment (commentBody t).1, '/' :: ('*' :: t).take ((commentBody t).2 + 1)⟩ = false := by
      rw [ht]
      exact bne_self_eq_false _
    exact ⟨.inr ht, fun ho => by rw [hc] at ho; cases ho⟩
  · exact ⟨.inl (by simp [hi, hn]), fun _ => by simp [hn]⟩

theorem isScanned_ite {c : Char} {t : Text} {p : Prop} [Decidable p] {x y : TokenKind × Nat}
    (hx : p → IsScanned c t x) (hy : ¬p → IsScanned c t y) : IsScanned c t (if p then x else y) := by
  split
  · exact hx ‹_›
  · exact hy ‹_›

theorem isScanned_slash (t : Text) : IsScanned '/' t
    (match t with
      | '*' :: rest => let (inside, n) := commentBody rest; (.comment inside, n + 1)
      | _ => (.slash, 0)) := by
  split
  · exact isScanned_comment _
  · exact isScanned_of_isLoose rfl

theorem scan_isScanned (c : Char) (t : Text) : IsScanned c t (scan c t) := by
  have name : IsScanned c t ((nameToken (c :: t)).map id (· - 1)) := isScanned_of_isLoose (nameToken_isLoose _)
  unfold scan
  refine isScanned_ite (fun _ => isScanned_of_isLoose rfl) fun _ => ?_
  refine isScanned_ite (fun _ => isScanned_of_isLoose (stringToken_isLoose _ _ _)) fun _ => ?_
  refine isScanned_ite (fun _ => isScanned_of_isLoose rfl) fun _ => ?_
  refine isScanned_ite (fun _ => isScanned_of_isLoose rfl) fun _ => ?_
  refine isScanned_ite (fun h => isScanned_single (by subst h; rfl) rfl) fun _ => ?_
  refine isScanned_ite (fun _ => isScanned_of_isLoose rfl) fun _ => ?_
  refine isScanned_ite (fun _ => isScanned_of_isLoose rfl) fun _ => ?_
  refine isScanned_ite (fun h => isScanned_single (by subst h; rfl) rfl) fun _ => ?_
  refine isScanned_ite (fun h => isScanned_single (by subst h; rfl) rfl) fun _ => ?_
  refine isScanned_ite (fun _ => isScanned_of_isLoose rfl) fun _ => ?_
  refine isScanned_ite (fun _ => isScanned_of_isLoose rfl) fun _ => ?_
  refine isScanned_ite (fun h => by subst h; exact isScanned_slash t) fun _ => ?_
  -- what follows are words, and names
  refine isScanned_ite (fun _ => isScanned_of_isLoose rfl) fun _ => ?_
  refine isScanned_ite (fun _ => isScanned_of_isLoose rfl) fun _ => ?_
  refine isScanned_ite (fun _ => isScanned_of_isLoose rfl) fun _ => ?_
  refine isScanned_ite (fun _ => isScanned_of_isLoose rfl) fun _ => ?_
  refine isScanned_ite (fun _ => isScanned_of_isLoose rfl) fun _ => ?_
  refine isScanned_ite (fun _ => isScanned_of_isLoose rfl) fun _ => ?_
  refine isScanned_ite (fun _ => ?_) fun _ => isScanned_ite (fun _ => name) fun _ => isScanned_of_isLoose rfl
  refine isScanned_ite (fun _ => isScanned_of_isLoose rfl) fun _ => ?_
  refine isScanned_ite (fun _ => isScanned_of_isLoose rfl) fun _ => ?_
  exact isScanned_ite (fun _ => name) fun _ => isScanned_of_isLoose rfl

/-! ## All tokens of a text -/

theorem tokensWithin_isSpelled (fuel : Nat) (t : Text) : ∀ x ∈ tokensWithin fuel t, x.IsSpelled := by
  fun_induction tokensWithin fuel t with
  | case1 | case2 => simp
  | case3 fuel c t kind n h ih =>
    intro x hx
    rcases List.mem_cons.1 hx with rfl | hx
    · have hs := (scan_isScanned c t).1
      rwa [h] at hs
    · exact ih x hx

theorem tokensWithin_pairwise (fuel : Nat) (t : Text) :
    (tokensWithin fuel t).Pairwise fun x _ => x.isOpenComment = false := by
  fun_induction tokensWithin fuel t with
  | case1 | case2 => exact .nil
  | case3 fuel c t kind n h ih =>
    refine .cons (fun y hy => Bool.eq_false_iff.2 fun ho => ?_) ih
    have hd := (scan_isScanned c t).2
    rw [h] at hd
    rw [hd ho] at hy
    cases fuel <;> cases hy

end Token

/-- Every token of a text is spelled as its kind says. -/
theorem tokens_isSpelled (t : Text) : ∀ x ∈ tokens t, x.IsSpelled := Token.tokensWithin_isSpelled _ t

/-- No token follows an open comment. -/
theorem tokens_pairwise (t : Text) : (tokens t).Pairwise fun x _ => x.isOpenComment = false :=
  Token.tokensWithin_pairwise _ t

end VendorCss
