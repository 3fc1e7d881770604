import Mathlib.Data.List.Infix
import Mathlib.Data.List.TakeWhile
import VendorCss.Proofs.Component.Printing

/-!
# Escapes at the end of a text

A backslash escapes the character after it unless it is escaped itself. A text whose last backslash escapes what comes
next is open at its end (`opensEscape`): put anything after it, and the first character of that is part of the escape.
The tokens of a text are cut between escapes, so that a token is open at its end only if nothing follows, or a line end,
which a backslash outside strings does not escape (`scan_closes`).
-/

namespace VendorCss.Token

/-- The last character of a text is a backslash that escapes what follows; `escaped` says that the first character is
escaped. -/
def opensEscape : (escaped : Bool) → Text → Bool
  | escaped, [] => escaped
  | escaped, c :: t => opensEscape (!escaped && c == '\\') t

section

variable {p q t : Text} {c : Char}

@[simp] theorem opensEscape_nil (escaped : Bool) : opensEscape escaped [] = escaped := rfl

@[simp] theorem opensEscape_true_cons (c : Char) (t : Text) : opensEscape true (c :: t) = opensEscape false t := rfl

theorem opensEscape_backslash (t : Text) : opensEscape false ('\\' :: t) = opensEscape true t := rfl

theorem opensEscape_cons (h : c ≠ '\\') (escaped : Bool) (t : Text) :
    opensEscape escaped (c :: t) = opensEscape false t := by
  rw [opensEscape, beq_eq_false_iff_ne.2 h, Bool.and_false]

theorem opensEscape_append (escaped : Bool) (p q : Text) :
    opensEscape escaped (p ++ q) = opensEscape (opensEscape escaped p) q := by
  induction p generalizing escaped with
  | nil => rfl
  | cons c p ih => exact ih _

/-- Where no backslash stands, nothing is opened. -/
theorem opensEscape_of_notMem (h : '\\' ∉ p) : opensEscape false p = false := by
  induction p with
  | nil => rfl
  | cons c p ih =>
    rw [List.mem_cons, not_or] at h
    rw [opensEscape_cons (Ne.symm h.1), ih h.2]

/-- A start without a backslash says nothing about the end. -/
theorem opensEscape_drop {n : Nat} (h : '\\' ∉ p.take n) : opensEscape false (p.drop n) = opensEscape false p := by
  have happend := opensEscape_append false (p.take n) (p.drop n)
  rw [List.take_append_drop, opensEscape_of_notMem h] at happend
  exact happend.symm

/-- A text that ends with another character than a backslash opens nothing. -/
theorem opensEscape_concat (h : c ≠ '\\') (escaped : Bool) (p : Text) : opensEscape escaped (p ++ [c]) = false := by
  rw [opensEscape_append, opensEscape_cons h]
  rfl

/-! ## Lengths of escapes -/

/-- The digits of an escape are the characters at its start that are digits, at most six. -/
theorem length_hexDigits (t : Text) :
    (hexDigits t).length = ((t.take 6).takeWhile fun c => (hexValue? c).isSome).length := by
  have h (s : Text) : (((s.map hexValue?).takeWhile Option.isSome).filterMap id).length =
      (s.takeWhile fun c => (hexValue? c).isSome).length := by
    induction s with
    | nil => rfl
    | cons c s ih =>
      cases hc : hexValue? c <;> simp_all
  exact h _

theorem take_hexDigits (t : Text) :
    t.take (hexDigits t).length = (t.take 6).takeWhile fun c => (hexValue? c).isSome := by
  rw [length_hexDigits]
  exact (List.prefix_iff_eq_take.1 ((List.takeWhile_prefix _).trans (List.take_prefix 6 t))).symm

theorem length_hexDigits_le (t : Text) : (hexDigits t).length ≤ t.length := by
  rw [length_hexDigits]
  exact ((List.takeWhile_prefix _).trans (List.take_prefix 6 t)).length_le

theorem notMem_takeWhile {f : Char → Bool} (hf : f c = false) (t : Text) : c ∉ t.takeWhile f := by
  intro h
  rw [List.mem_takeWhile_imp h] at hf
  cases hf

theorem notMem_take_hexDigits (t : Text) : '\\' ∉ t.take (hexDigits t).length := by
  rw [take_hexDigits]
  exact notMem_takeWhile (by decide) _

theorem notMem_take_spaceLength (t : Text) : '\\' ∉ t.take (spaceLength t) := by
  unfold spaceLength
  split
  · simp
  · split
    · rename_i c _ _ hc
      rw [List.take_succ_cons, List.take_zero, List.mem_singleton]
      rintro rfl
      revert hc
      decide
    · simp
  · simp

theorem escapeLength_pos (h : t ≠ []) : 0 < escapeLength t := by
  have ht := List.length_pos_iff.2 h
  unfold escapeLength
  split
  · omega
  · rename_i hne
    have := List.length_pos_iff.2 hne
    omega

/-- No backslash stands in an escape after its first character. -/
theorem notMem_take_escapeLength (c : Char) (t : Text) : '\\' ∉ t.take (escapeLength (c :: t) - 1) := by
  unfold escapeLength
  split
  · simp
  · set ds := hexDigits (c :: t) with hds
    have hall : '\\' ∉ (c :: t).take (ds.length + spaceLength ((c :: t).drop ds.length)) := by
      rw [List.take_add, List.mem_append, not_or]
      exact ⟨notMem_take_hexDigits _, notMem_take_spaceLength _⟩
    intro h
    refine hall ?_
    cases hn : ds.length + spaceLength ((c :: t).drop ds.length) with
    | zero => rw [hn] at h; cases h
    | succ n =>
      rw [hn] at h
      exact List.mem_cons_of_mem _ h

/-- The characters of an escape are passed over together; `p` is what is left of the text `t` that the escape reads. -/
theorem opensEscape_true (h : p <+: t) (hp : p ≠ []) :
    opensEscape true p = opensEscape false (p.drop (escapeLength t)) := by
  cases p with
  | nil => exact absurd rfl hp
  | cons c q =>
    obtain ⟨u, rfl⟩ := h
    have hpos := escapeLength_pos (List.cons_ne_nil c (q ++ u))
    have hmem := notMem_take_escapeLength c (q ++ u)
    rw [List.cons_append]
    obtain ⟨n, hn⟩ := Nat.exists_eq_add_of_lt hpos
    rw [Nat.zero_add] at hn
    rw [hn] at hmem ⊢
    rw [opensEscape_true_cons, List.drop_succ_cons]
    refine (opensEscape_drop fun hq => hmem ?_).symm
    exact (List.IsPrefix.take (List.prefix_append q u) n).subset hq

/-! ## Names -/

theorem ne_backslash_of_isNamePart (h : isNamePart c = true) : c ≠ '\\' := by
  rintro rfl
  revert h
  decide

/-- A name reaches over the escape begun. -/
theorem le_nameLength (skip : Nat) (t : Text) : min skip t.length ≤ nameLength skip t := by
  fun_induction nameLength skip t with
  | case1 => simp
  | case2 skip c t ih => rw [List.length_cons]; omega
  | case3 | case4 | case5 => simp

/-- A name that does not reach to the end of the text has its escapes whole. -/
theorem opensEscape_name (skip : Nat) (t : Text) :
    nameLength skip t = t.length ∨ opensEscape false ((t.take (nameLength skip t)).drop skip) = false := by
  fun_induction nameLength skip t with
  | case1 => exact .inl rfl
  | case2 skip c t ih =>
    rw [List.length_cons, List.take_succ_cons, List.drop_succ_cons]
    exact ih.imp_left (congrArg (· + 1))
  | case3 c t hc ih =>
    rw [List.length_cons, List.take_succ_cons, List.drop_zero, opensEscape_cons (ne_backslash_of_isNamePart hc)]
    exact ih.imp_left (congrArg (· + 1))
  | case4 c t _ hc ih =>
    obtain ⟨rfl, -⟩ : c = '\\' ∧ _ := by simpa using hc
    rw [List.length_cons, List.take_succ_cons, List.drop_zero, opensEscape_backslash]
    rcases ih with ih | ih
    · exact .inl (congrArg (· + 1) ih)
    · by_cases ht : t = []
      · exact .inl (by rw [ht]; rfl)
      · have hpos := escapeLength_pos ht
        have hlen := List.length_pos_iff.2 ht
        have hle := le_nameLength (escapeLength t) t
        have hne : t.take (nameLength (escapeLength t) t) ≠ [] := List.ne_nil_of_length_pos (by
          rw [List.length_take]; omega)
        exact .inr ((opensEscape_true (List.take_prefix _ t) hne).trans ih)
  | case5 => exact .inr rfl

end

/-! ## Numbers -/

section

variable {t : Text}

/-- The length of an unsigned number without its unit. -/
def numeralLength (t : Text) : Nat :=
  let a := digitsLength t
  let b := fractionLength (t.drop a)
  a + b + exponentLength (t.drop (a + b))

theorem unsignedLength_eq (t : Text) :
    unsignedLength t = numeralLength t + unitLength (t.drop (numeralLength t)) := rfl

theorem take_digitsLength (t : Text) : t.take (digitsLength t) = t.takeWhile isAsciiDigit :=
  (List.prefix_iff_eq_take.1 (List.takeWhile_prefix isAsciiDigit)).symm

/-- A character of numbers without their units. -/
def isNumeralChar (c : Char) : Bool := isAsciiDigit c || c == '.' || c == 'e' || c == 'E' || c == '+' || c == '-'

variable {d : Char}

theorem notMem_take_digits (hd : isNumeralChar d = false) (t : Text) : d ∉ t.take (digitsLength t) := by
  rw [take_digitsLength]
  exact notMem_takeWhile (by simp_all [isNumeralChar]) t

theorem notMem_take_fraction (hd : isNumeralChar d = false) (t : Text) : d ∉ t.take (fractionLength t) := by
  unfold fractionLength
  split
  · split
    · rw [List.take_succ_cons, List.mem_cons, not_or]
      exact ⟨by rintro rfl; revert hd; decide, notMem_take_digits hd _⟩
    · simp
  · simp

theorem notMem_take_exponent (hd : isNumeralChar d = false) (t : Text) : d ∉ t.take (exponentLength t) := by
  unfold exponentLength
  split
  · rename_i e s t
    split
    · simp
    · rename_i he
      have he : d ≠ e := by rintro rfl; simp_all [isNumeralChar]
      split
      · rw [List.take_succ_cons, List.mem_cons, not_or]
        exact ⟨he, notMem_take_digits hd _⟩
      · split
        · rename_i hs
          have hs : d ≠ s := by rintro rfl; simp_all [isNumeralChar]
          rw [List.take_succ_cons, List.take_succ_cons, List.mem_cons, List.mem_cons, not_or, not_or]
          exact ⟨he, hs, notMem_take_digits hd _⟩
        · simp
  · simp

/-- A number without its unit has the characters of numbers. -/
theorem notMem_take_numeral (hd : isNumeralChar d = false) (t : Text) : d ∉ t.take (numeralLength t) := by
  unfold numeralLength
  rw [List.take_add, List.take_add, List.mem_append, List.mem_append, not_or, not_or]
  exact ⟨⟨notMem_take_digits hd _, notMem_take_fraction hd _⟩, notMem_take_exponent hd _⟩

/-! ## Tokens -/

/-- The first `n` characters of a text are the whole text, or they end between escapes, or before a line end. -/
def Closes (t : Text) (n : Nat) : Prop :=
  t.length ≤ n ∨ startsWithLineEnd (t.drop n) = true ∨ opensEscape false (t.take n) = false

theorem closes_zero (t : Text) : Closes t 0 := .inr (.inr rfl)

theorem closes_cons {c : Char} (hc : c ≠ '\\') {n : Nat} (h : Closes t n) : Closes (c :: t) (n + 1) := by
  rcases h with h | h | h
  · exact .inl (Nat.succ_le_succ h)
  · exact .inr (.inl h)
  · exact .inr (.inr (by rw [List.take_succ_cons, opensEscape_cons hc, h]))

theorem closes_add {m n : Nat} (hm : '\\' ∉ t.take m) (h : Closes (t.drop m) n) : Closes t (m + n) := by
  rcases h with h | h | h
  · rw [List.length_drop] at h
    exact .inl (by omega)
  · exact .inr (.inl (by rwa [List.drop_drop] at h))
  · exact .inr (.inr (by rw [List.take_add, opensEscape_append, opensEscape_of_notMem hm, h]))

theorem closes_of_notMem {n : Nat} (h : '\\' ∉ t.take n) : Closes t n := .inr (.inr (opensEscape_of_notMem h))

/-- The first characters of a text are the whole text, or `c` is the last of them. -/
def EndsIn (c : Char) (t : Text) (n : Nat) : Prop := t.length ≤ n ∨ ∃ u, t.take n = u ++ [c]

theorem EndsIn.closes {c : Char} (hc : c ≠ '\\') {m n : Nat} (h : EndsIn c (t.drop m) n) : Closes t (m + n) := by
  rcases h with h | ⟨u, h⟩
  · rw [List.length_drop] at h
    exact .inl (by omega)
  · exact .inr (.inr (by rw [List.take_add, h, ← List.append_assoc, opensEscape_concat hc]))

theorem EndsIn.cons {c : Char} {n : Nat} (h : EndsIn c t n) (d : Char) : EndsIn c (d :: t) (n + 1) := by
  rcases h with h | ⟨u, h⟩
  · exact .inl (Nat.succ_le_succ h)
  · exact .inr ⟨d :: u, by rw [List.take_succ_cons, h]; rfl⟩

theorem closes_name (t : Text) : Closes t (nameLength 0 t) := by
  rcases opensEscape_name 0 t with h | h
  · exact .inl h.ge
  · exact .inr (.inr h)

theorem closes_unit (t : Text) : Closes t (unitLength t) := by
  unfold unitLength
  split
  · exact closes_of_notMem (by simp)
  · split
    · exact closes_name t
    · exact closes_zero t

theorem closes_unsigned (t : Text) : Closes t (unsignedLength t) :=
  closes_add (notMem_take_numeral (by decide) t) (closes_unit _)

theorem endsIn_comment (t : Text) : EndsIn '/' t (commentBody t).2 := by
  fun_induction commentBody t with
  | case1 => exact .inl (Nat.le_refl _)
  | case2 => exact .inr ⟨['*'], rfl⟩
  | case3 c t _ inside n h ih =>
    rw [h] at ih
    exact ih.cons c

/-- Only a closing parenthesis ends a URL. -/
theorem urlStep_eq_none {s : UrlState} {c : Char} {t : Text} : urlStep s c t = none ↔ c = ')' := by
  unfold urlStep
  grind

theorem endsIn_url (s : UrlState) (skip : Nat) (t : Text) : EndsIn ')' t (urlLength s skip t) := by
  fun_induction urlLength s skip t with
  | case1 => exact .inl (Nat.le_refl _)
  | case2 s skip c t ih => exact ih.cons c
  | case3 s c t h =>
    exact .inr ⟨[], by rw [urlStep_eq_none.1 h]; rfl⟩
  | case4 s c t s' skip h ih => exact ih.cons c

/-- A string ends with its quote, at the end of the text, or before a line end. -/
theorem endsIn_string (quote : Char) (skip : Nat) (t : Text) :
    EndsIn quote t (stringToken quote skip t).2 ∨
      startsWithLineEnd (t.drop (stringToken quote skip t).2) = true := by
  fun_induction stringToken quote skip t with
  | case1 => exact .inl (.inl (Nat.le_refl _))
  | case2 skip c t ih => exact ih.imp_left (·.cons c)
  | case3 t => exact .inl (.inr ⟨[], rfl⟩)
  | case4 c t _ hc => exact .inr hc
  | case5 | case6 => rename_i ih; exact ih.imp_left (·.cons _)

theorem closes_string {quote : Char} (hq : quote ≠ '\\') (t : Text) : Closes t (stringToken quote 0 t).2 := by
  rcases endsIn_string quote 0 t with h | h
  · have hclose : Closes t (0 + (stringToken quote 0 t).2) := EndsIn.closes hq (by rwa [List.drop_zero])
    rwa [Nat.zero_add] at hclose
  · exact .inr (.inl h)

theorem closes_nameToken (t : Text) : Closes t (nameToken t).2 := by
  have hparen {rest : Text} (h : t.drop (nameLength 0 t) = '(' :: rest) :
      t.take (nameLength 0 t + 1) = t.take (nameLength 0 t) ++ ['('] ∧ t.drop (nameLength 0 t + 1) = rest := by
    rw [List.take_add, ← List.drop_drop, h]
    exact ⟨rfl, rfl⟩
  unfold nameToken
  dsimp only
  split
  · rename_i rest h
    split
    · refine EndsIn.closes (c := ')') (by decide) ?_
      rw [(hparen h).2]
      exact endsIn_url _ _ _
    · exact .inr (.inr (by rw [(hparen h).1, opensEscape_concat (by decide)]))
  · exact closes_name t

theorem nameLength_pos {c : Char} {t : Text} (h : startsName (c :: t) = true) : 0 < nameLength 0 (c :: t) := by
  unfold startsName at h
  unfold nameLength
  split at h <;> grind [isNamePart]

theorem nameToken_pos {c : Char} {t : Text} (h : startsName (c :: t) = true) : 0 < (nameToken (c :: t)).2 := by
  have hpos := nameLength_pos h
  unfold nameToken
  dsimp only
  split
  · split
    · exact Nat.add_pos_left (Nat.succ_pos _) _
    · exact Nat.succ_pos _
  · exact hpos

theorem startsUnsigned_of_digit {c : Char} {t : Text} (h : isAsciiDigit c = true) :
    startsUnsigned (c :: t) = true := by
  unfold startsUnsigned
  split
  · rename_i heq
    cases heq
    exact absurd h (by decide)
  · exact h

theorem numeralLength_pos (h : startsUnsigned t = true) : 0 < numeralLength t := by
  have hdigit {s : Text} (h : startsDigit s = true) : 0 < digitsLength s := by
    cases s with
    | nil => cases h
    | cons d s =>
      rw [digitsLength, List.takeWhile_cons_of_pos (show isAsciiDigit d = true from h)]
      exact Nat.succ_pos _
  unfold numeralLength
  unfold startsUnsigned at h
  split at h
  · rename_i t
    have hfraction : 0 < fractionLength ('.' :: t) := by rw [fractionLength, if_pos h]; exact Nat.succ_pos _
    exact Nat.add_pos_left (Nat.add_pos_right _ hfraction) _
  · exact Nat.add_pos_left (Nat.add_pos_left (hdigit h) _) _

theorem unsignedLength_pos {c : Char} {t : Text} (h : startsUnsigned (c :: t) = true) :
    0 < unsignedLength (c :: t) := by
  rw [unsignedLength_eq]
  exact Nat.add_pos_left (numeralLength_pos h) _

theorem closes_ite {c : Char} {t : Text} {p : Prop} [Decidable p] {x y : TokenKind × Nat}
    (hx : p → Closes (c :: t) (x.2 + 1)) (hy : ¬p → Closes (c :: t) (y.2 + 1)) :
    Closes (c :: t) ((if p then x else y).2 + 1) := by
  split
  · exact hx ‹_›
  · exact hy ‹_›

theorem closes_opt {n : Nat} {p : Prop} [Decidable p] (h : Closes t n) : Closes t (if p then n else 0) := by
  split
  · exact h
  · exact closes_zero t

/-- A token is closed at its end, or nothing follows, or a line end. -/
theorem scan_closes (c : Char) (t : Text) : Closes (c :: t) ((scan c t).2 + 1) := by
  have single (hc : c ≠ '\\') : Closes (c :: t) (0 + 1) := closes_cons hc (closes_zero t)
  have unsigned (h : startsUnsigned (c :: t) = true) : Closes (c :: t) (unsignedLength (c :: t) - 1 + 1) := by
    rw [Nat.sub_add_cancel (unsignedLength_pos h)]
    exact closes_unsigned _
  have name (h : startsName (c :: t) = true) :
      Closes (c :: t) (((nameToken (c :: t)).map id (· - 1)).2 + 1) := by
    rw [Prod.map_snd, Nat.sub_add_cancel (nameToken_pos h)]
    exact closes_nameToken _
  unfold scan
  refine closes_ite (fun h => ?_) fun _ => ?_
  · refine closes_cons (by rintro rfl; revert h; decide) (closes_of_notMem ?_)
    rw [List.prefix_iff_eq_take.1 (List.takeWhile_prefix isSpace) |>.symm]
    exact notMem_takeWhile (by decide) t
  refine closes_ite (fun h => ?_) fun _ => ?_
  · have hc : c ≠ '\\' := by rintro rfl; revert h; decide
    exact closes_cons hc (closes_string hc t)
  iterate 9 refine closes_ite (fun h => single (by rw [h]; decide)) fun _ => ?_
  refine closes_ite (fun h => ?_) fun _ => ?_
  · have hc : c ≠ '\\' := by rw [h]; decide
    split
    · rename_i rest
      have hclose : Closes ('*' :: rest) ((commentBody rest).2 + 1) :=
        closes_cons (by decide) (by simpa using EndsIn.closes (m := 0) (by decide) (endsIn_comment rest))
      exact closes_cons hc hclose
    · exact single hc
  -- words of signs: a name, a number or nothing follows
  iterate 2
    refine closes_ite (fun h => closes_cons (by rw [h]; decide) (closes_opt (closes_name t))) fun _ => ?_
  refine closes_ite (fun h => closes_cons (by rw [h]; decide) ?_) fun _ => ?_
  · dsimp only
    split
    · rename_i hstart
      obtain ⟨rest, hrest⟩ := Option.isSome_iff_exists.1 hstart
      refine closes_of_notMem ?_
      rw [Text.dropStart?_eq_some hrest]
      exact (by decide : '\\' ∉ ("!--" : Text))
    · exact closes_zero t
  refine closes_ite (fun h => closes_cons (by rw [h]; decide) (closes_opt (closes_unsigned t))) fun _ => ?_
  refine closes_ite (fun h => ?_) fun _ => ?_
  · dsimp only
    split
    · exact unsigned (by rw [h]; assumption)
    · exact single (by rw [h]; decide)
  refine closes_ite (fun h => unsigned (startsUnsigned_of_digit h)) fun _ => ?_
  refine closes_ite (fun h => ?_) fun _ => ?_
  · have hc : c ≠ '\\' := by rw [h]; decide
    refine closes_ite (fun _ => closes_cons hc (closes_unsigned t)) fun _ => ?_
    refine closes_ite (fun hstart => closes_cons hc ?_) fun _ => ?_
    · obtain ⟨rest, hrest⟩ := Option.isSome_iff_exists.1 hstart
      refine closes_of_notMem ?_
      rw [Text.dropStart?_eq_some hrest]
      exact (by decide : '\\' ∉ ("->" : Text))
    · exact closes_ite name fun _ => single hc
  refine closes_ite name fun h => ?_
  -- a backslash that starts no name stands before a line end
  by_cases hc : c = '\\'
  · subst hc
    exact .inr (.inl (by simpa [startsName] using h))
  · exact single hc

end

end VendorCss.Token
