import VendorCss.Proofs.Token.Escapes

/-!
# Seams

A divider, a semicolon or a curly bracket, ends every name and number before it. Where the text `p` stands before blanks
and a divider, taking the blanks out moves the divider up to `p` and may put another text after it. No token then starts
or ends elsewhere in `p`, save that a name which ran into the blanks now stops with `p`.

`x` is the text after `p` as it was and `y` as it is now: `x` starts with a blank or a divider, `y` with a divider. What
is read before the end of `p` is the same before both, and what is read beyond it from `p ++ x` ends with `p` in `p ++ y`;
the lengths are `min n p.length`.
-/

namespace VendorCss

namespace Token

/-- The characters that end a statement or open a block. -/
def isDivider (c : Char) : Bool := c == ';' || c == '\x7b' || c == '\x7d'

/-- The characters that stand right after a seam. -/
def isSeam (c : Char) : Bool := isBlank c || isDivider c

/-- The text starts with a blank or a divider. -/
def StartsSeam (x : Text) : Prop := ∃ c t, x = c :: t ∧ isSeam c = true

/-- The text starts with a divider. -/
def StartsDivider (y : Text) : Prop := ∃ d t, y = d :: t ∧ isDivider d = true

theorem StartsDivider.startsSeam {y : Text} (h : StartsDivider y) : StartsSeam y := by
  obtain ⟨d, t, rfl, hd⟩ := h
  exact ⟨d, t, rfl, by rw [isSeam, hd, Bool.or_true]⟩

/-! ## Characters at a seam -/

section

variable {c d : Char}

theorem isDivider_cases (h : isDivider d = true) : d = ';' ∨ d = '\x7b' ∨ d = '\x7d' := by
  simpa [isDivider, or_assoc] using h

theorem ne_of_isSeam (h : isSeam c = true) (hd : isSeam d = false) : c ≠ d := by
  rintro rfl
  rw [h] at hd
  cases hd

/-- No letter and no digit of ASCII stands at a seam. -/
theorem classes_of_isSeam (h : isSeam c = true) :
    isAsciiDigit c = false ∧ isAsciiLetter c = false ∧ hexValue? c = none := by
  have hn : c.toNat < 48 ∨ (58 < c.toNat ∧ c.toNat < 65) ∨ c.toNat = 123 ∨ 124 < c.toNat := by
    simp only [isSeam, isBlank, isDivider, Bool.or_eq_true, Bool.and_eq_true, beq_iff_eq, decide_eq_true_eq] at h
    rcases h with h | (rfl | rfl) | rfl
    · omega
    all_goals decide
  have hle (c d : Char) : c ≤ d ↔ c.toNat ≤ d.toNat := Iff.rfl
  simp only [isAsciiDigit, isAsciiLetter, hexValue?, hle, Bool.or_eq_false_iff, Bool.and_eq_false_iff,
    decide_eq_false_iff_not, Bool.and_eq_true, decide_eq_true_eq, Char.reduceToNat]
  refine ⟨by omega, by omega, ?_⟩
  rw [if_neg (by omega), if_neg (by omega), if_neg (by omega)]

/-- Neither a number nor the hexadecimal digits of an escape go on with a character at a seam. -/
theorem endsNumber_of_isSeam (h : isSeam c = true) : isNumeralChar c = false ∧ hexValue? c = none := by
  obtain ⟨hdigit, -, hhex⟩ := classes_of_isSeam h
  have hne : c ≠ '.' ∧ c ≠ 'e' ∧ c ≠ 'E' ∧ c ≠ '+' ∧ c ≠ '-' := by
    refine ⟨?_, ?_, ?_, ?_, ?_⟩ <;> exact ne_of_isSeam h (by decide)
  exact ⟨by simp [isNumeralChar, hdigit, hne], hhex⟩

theorem isNamePart_of_isDivider (h : isDivider d = true) : isNamePart d = false := by
  rcases isDivider_cases h with rfl | rfl | rfl <;> decide

theorem isSpace_of_isDivider (h : isDivider d = true) : isSpace d = false := by
  rcases isDivider_cases h with rfl | rfl | rfl <;> decide

theorem isLineEnd_of_isDivider (h : isDivider d = true) : isLineEnd d = false := by
  rcases isDivider_cases h with rfl | rfl | rfl <;> decide

theorem isSeam_of_isBlank (h : isBlank c = true) : isSeam c = true := by
  rw [isSeam, h, Bool.true_or]

theorem isSeam_of_isDivider (h : isDivider c = true) : isSeam c = true := by
  rw [isSeam, h, Bool.or_true]

end

section

variable {p x y : Text}

/-! ## Runs of characters -/

/-- Neither a number nor the hexadecimal digits of an escape go on with the text. -/
def EndsNumber (x : Text) : Prop := ∀ c ∈ x.head?, isNumeralChar c = false ∧ hexValue? c = none

theorem StartsSeam.endsNumber (h : StartsSeam x) : EndsNumber x := by
  obtain ⟨c, t, rfl, hc⟩ := h
  rintro _ ⟨⟩
  exact endsNumber_of_isSeam hc

theorem isAsciiDigit_of_isNumeralChar {c : Char} (h : isNumeralChar c = false) : isAsciiDigit c = false := by
  simp_all [isNumeralChar]

/-- A run of characters that the text after it does not go on with ends within `p`. -/
theorem takeWhile_append_of_head {f : Char → Bool} (hx : ∀ c ∈ x.head?, f c = false) :
    (p ++ x).takeWhile f = p.takeWhile f := by
  induction p with
  | nil =>
    cases x with
    | nil => rfl
    | cons c t => rw [List.nil_append, List.takeWhile_cons_of_neg (by simp [hx c rfl])]; rfl
  | cons d p ih => rw [List.cons_append, List.takeWhile_cons, List.takeWhile_cons, ih]

/-- A run of characters that no divider belongs to ends with `p` at the latest. -/
theorem length_takeWhile_seam {f : Char → Bool} (hf : ∀ d, isDivider d = true → f d = false) (hy : StartsDivider y)
    (p x : Text) : ((p ++ y).takeWhile f).length = min ((p ++ x).takeWhile f).length p.length := by
  obtain ⟨d, t, rfl, hd⟩ := hy
  induction p with
  | nil => simp [hf d hd]
  | cons c p ih =>
    rw [List.cons_append, List.cons_append, List.takeWhile_cons, List.takeWhile_cons]
    split
    · rw [List.length_cons, List.length_cons, List.length_cons, ih, Nat.add_min_add_right]
    · simp

/-- A prefix with which the text `x` does not go on is found within `p`. -/
theorem dropStart?_append_of_head {s : Text} (hx : ∀ c ∈ x.head?, c ∉ s) :
    (Text.dropStart? s (p ++ x)).isSome = (Text.dropStart? s p).isSome := by
  induction s generalizing p with
  | nil => rfl
  | cons a s ih =>
    cases p with
    | nil =>
      cases x with
      | nil => rfl
      | cons c t =>
        have hne : a ≠ c := fun h => hx c rfl (h ▸ List.mem_cons_self)
        simp only [List.nil_append, Text.dropStart?, if_neg hne]
    | cons b p =>
      rw [List.cons_append, Text.dropStart?, Text.dropStart?]
      split
      · exact ih fun c hc hmem => hx c hc (List.mem_cons_of_mem _ hmem)
      · rfl

/-! ## Numbers -/

theorem digitsLength_append (hx : EndsNumber x) : digitsLength (p ++ x) = digitsLength p := by
  rw [digitsLength, digitsLength, takeWhile_append_of_head fun c hc => isAsciiDigit_of_isNumeralChar (hx c hc).1]

theorem startsDigit_append (hx : EndsNumber x) : startsDigit (p ++ x) = startsDigit p := by
  cases p with
  | nil =>
    cases x with
    | nil => rfl
    | cons c t => exact isAsciiDigit_of_isNumeralChar (hx c rfl).1
  | cons d p => rfl

theorem startsUnsigned_append (hx : EndsNumber x) : startsUnsigned (p ++ x) = startsUnsigned p := by
  cases p with
  | nil =>
    rw [List.nil_append, startsUnsigned]
    · exact startsDigit_append (p := []) hx
    · rintro _ rfl
      exact absurd (hx '.' rfl).1 (by decide)
  | cons d p =>
    rw [List.cons_append]
    unfold startsUnsigned
    split
    · rename_i heq
      cases heq
      exact startsDigit_append hx
    · rename_i hne
      split
      · rename_i heq
        cases heq
        exact absurd rfl (hne _)
      · rfl

theorem fractionLength_append (hx : EndsNumber x) : fractionLength (p ++ x) = fractionLength p := by
  cases p with
  | nil =>
    rw [List.nil_append]
    unfold fractionLength
    split
    · exact absurd (hx '.' rfl).1 (by decide)
    · rfl
  | cons d p =>
    rw [List.cons_append]
    by_cases hd : d = '.'
    · rw [hd, fractionLength, fractionLength, startsDigit_append hx, digitsLength_append hx]
    · rw [fractionLength, fractionLength]
      · exact fun _ heq => hd (List.cons.inj heq).1
      · exact fun _ heq => hd (List.cons.inj heq).1

theorem exponentLength_append (hx : EndsNumber x) : exponentLength (p ++ x) = exponentLength p := by
  have hhead {c : Char} {t : Text} (h : x = c :: t) :
      isAsciiDigit c = false ∧ (c ≠ 'e' ∧ c ≠ 'E') ∧ c ≠ '+' ∧ c ≠ '-' := by
    have hc := (hx c (by rw [h]; rfl)).1
    simp_all [isNumeralChar]
  rcases p with _ | ⟨e, _ | ⟨s, q⟩⟩
  · rcases x with _ | ⟨c, _ | ⟨d, t⟩⟩
    · rfl
    · rfl
    · simp [exponentLength, (hhead rfl).2.1]
  · cases x with
    | nil => rfl
    | cons c t => simp [exponentLength, hhead rfl]
  · have hdigits : digitsLength (s :: (q ++ x)) = digitsLength (s :: q) :=
      digitsLength_append (p := s :: q) hx
    simp only [List.cons_append, exponentLength, hdigits, digitsLength_append hx, startsDigit_append hx]

theorem digitsLength_le (t : Text) : digitsLength t ≤ t.length := (List.takeWhile_prefix _).length_le

theorem fractionLength_le (t : Text) : fractionLength t ≤ t.length := by
  unfold fractionLength
  split
  · split
    · exact Nat.succ_le_succ (digitsLength_le _)
    · exact Nat.zero_le _
  · exact Nat.zero_le _

theorem exponentLength_le (t : Text) : exponentLength t ≤ t.length := by
  unfold exponentLength
  split
  · rename_i e s t
    have h1 := digitsLength_le (s :: t)
    have h2 := digitsLength_le t
    simp only [List.length_cons] at h1 ⊢
    grind
  · exact Nat.zero_le _

theorem numeralLength_le (t : Text) : numeralLength t ≤ t.length := by
  unfold numeralLength
  have ha := digitsLength_le t
  have hb := fractionLength_le (t.drop (digitsLength t))
  have hc := exponentLength_le (t.drop (digitsLength t + fractionLength (t.drop (digitsLength t))))
  rw [List.length_drop] at hb hc
  dsimp only
  omega

/-- A number without its unit is read off `p` alone. -/
theorem numeralLength_append (hx : EndsNumber x) : numeralLength (p ++ x) = numeralLength p := by
  have ha := digitsLength_le p
  have hb := fractionLength_le (p.drop (digitsLength p))
  rw [List.length_drop] at hb
  unfold numeralLength
  dsimp only
  rw [digitsLength_append hx, List.drop_append_of_le_length ha, fractionLength_append hx,
    List.drop_append_of_le_length (by omega), exponentLength_append hx]

/-! ## Escapes -/

theorem hexDigits_append (hx : EndsNumber x) : hexDigits (p ++ x) = hexDigits p := by
  have hnone : ∀ c ∈ x.head?, (Option.isSome ∘ hexValue?) c = false := fun c hc => by
    rw [Function.comp, (hx c hc).2]
    rfl
  have hrun : ((p ++ x).take 6).takeWhile (Option.isSome ∘ hexValue?) =
      (p.take 6).takeWhile (Option.isSome ∘ hexValue?) := by
    rw [List.take_append]
    refine takeWhile_append_of_head fun c hc => hnone c ?_
    rw [List.head?_take] at hc
    split at hc
    · cases hc
    · exact hc
  rw [hexDigits, hexDigits, List.takeWhile_map, List.takeWhile_map, hrun]

theorem spaceLength_cons (c : Char) (t : Text) :
    spaceLength (c :: t) = if c = '\r' ∧ t.head? = some '\n' then 2 else if isSpace c then 1 else 0 := by
  unfold spaceLength
  split
  · rename_i heq
    obtain ⟨rfl, rfl⟩ := List.cons.inj heq
    simp
  · rename_i hne heq
    obtain ⟨rfl, rfl⟩ := List.cons.inj heq
    refine (if_neg fun ⟨hc, ht⟩ => ?_).symm
    cases t with
    | nil => cases ht
    | cons e t => exact hne t hc (by rw [Option.some.inj ht])
  · rename_i heq
    cases heq

theorem spaceLength_append (hy : StartsDivider y) (p x : Text) :
    spaceLength (p ++ y) = min (spaceLength (p ++ x)) p.length := by
  obtain ⟨d, t, rfl, hd⟩ := hy
  have hspace := isSpace_of_isDivider hd
  have hfeed : d ≠ '\n' := by rintro rfl; exact absurd hd (by decide)
  have hreturn : isSpace '\r' = true := by decide
  match p with
  | [] => simp [spaceLength_cons, hspace]; grind
  | [c] => simp only [List.cons_append, List.nil_append, spaceLength_cons]; grind
  | a :: b :: q => simp only [List.cons_append, spaceLength_cons, List.length_cons]; grind

theorem escapeLength_append (hx : StartsSeam x) (hy : StartsDivider y) (hp : p ≠ []) :
    escapeLength (p ++ y) = min (escapeLength (p ++ x)) p.length := by
  have hlen := List.length_pos_iff.2 hp
  have hle := length_hexDigits_le p
  unfold escapeLength
  rw [hexDigits_append hx.endsNumber, hexDigits_append hy.startsSeam.endsNumber]
  split
  · rw [List.length_append, List.length_append]
    omega
  · rw [List.drop_append_of_le_length hle, List.drop_append_of_le_length hle, spaceLength_append hy _ x,
      List.length_drop]
    omega

theorem startsWithLineEnd_append (hp : p ≠ []) (x : Text) : startsWithLineEnd (p ++ x) = startsWithLineEnd p := by
  cases p with
  | nil => exact absurd rfl hp
  | cons => rfl

/-! ## Names -/

theorem nameLength_divider (hy : StartsDivider y) : nameLength 0 y = 0 := by
  obtain ⟨d, t, rfl, hd⟩ := hy
  have hname := isNamePart_of_isDivider hd
  rcases isDivider_cases hd with rfl | rfl | rfl <;> simp [nameLength, hname]

/-- A name that reaches beyond `p` ends with `p` now. -/
theorem nameLength_append (hx : StartsSeam x) (hy : StartsDivider y) (skip : Nat)
    (hopen : opensEscape false (p.drop skip) = false) :
    nameLength (min skip p.length) (p ++ y) = min (nameLength skip (p ++ x)) p.length := by
  induction p generalizing skip with
  | nil => rw [List.length_nil, Nat.min_zero, Nat.min_zero, List.nil_append, nameLength_divider hy]
  | cons c p ih =>
    cases skip with
    | succ skip =>
      rw [List.length_cons, Nat.add_min_add_right, List.cons_append, List.cons_append, nameLength, nameLength,
        ih skip hopen, Nat.add_min_add_right]
    | zero =>
      rw [List.drop_zero] at hopen
      rw [Nat.zero_min, List.cons_append, List.cons_append, nameLength, nameLength, List.length_cons]
      by_cases hc : isNamePart c = true
      · rw [opensEscape_cons (ne_backslash_of_isNamePart hc)] at hopen
        have hrest := ih 0 hopen
        rw [Nat.zero_min] at hrest
        rw [if_pos hc, if_pos hc, hrest, Nat.add_min_add_right]
      · rw [if_neg hc, if_neg hc]
        by_cases hs : c = '\\'
        · subst hs
          rw [opensEscape_backslash] at hopen
          have hp : p ≠ [] := by
            rintro rfl
            cases hopen
          rw [opensEscape_true (List.prefix_append p x) hp] at hopen
          rw [startsWithLineEnd_append hp, startsWithLineEnd_append hp, escapeLength_append hx hy hp]
          split
          · rw [ih _ hopen, Nat.add_min_add_right]
          · rfl
        · simp [hs]

/-- Whether a name starts is settled within `p`, unless `p` is empty or a hyphen. -/
theorem startsName_append (hopen : opensEscape false p = false) (hp : p ≠ []) (hm : p ≠ ['-']) (x : Text) :
    startsName (p ++ x) = startsName p := by
  have hescape {q : Text} (h : opensEscape true q = false) : startsWithLineEnd (q ++ x) = startsWithLineEnd q :=
    startsWithLineEnd_append (by rintro rfl; cases h) x
  match p with
  | [] => exact absurd rfl hp
  | [c] =>
    have hc : c ≠ '-' := fun h => hm (by rw [h])
    by_cases hs : c = '\\'
    · rw [hs] at hopen
      cases hopen
    · simp [startsName, hc]
  | c :: e :: q =>
    by_cases hc : c = '-'
    · subst hc
      by_cases he : e = '\\'
      · subst he
        simp [startsName, hescape (show opensEscape true q = false from hopen)]
      · simp [startsName, beq_eq_false_iff_ne.2 he]
    · by_cases hs : c = '\\'
      · subst hs
        have hq : opensEscape true (e :: q) = false := hopen
        have hline := hescape hq
        rw [List.cons_append] at hline
        simp [startsName, hline]
      · simp [startsName, hc]

/-- After a seam, or a hyphen and a seam, a name starts if the first character starts one. -/
theorem startsName_seam {c : Char} (hc : isSeam c = true) (t : Text) :
    startsName (c :: t) = isNameStart c ∧ startsName ('-' :: c :: t) = isNameStart c := by
  have hhyphen : c ≠ '-' := ne_of_isSeam hc (by decide)
  have hescape : c ≠ '\\' := ne_of_isSeam hc (by decide)
  simp [startsName, hhyphen, beq_eq_false_iff_ne.2 hhyphen, beq_eq_false_iff_ne.2 hescape]

theorem startsName_divider (hy : StartsDivider y) : startsName y = false ∧ startsName ('-' :: y) = false := by
  obtain ⟨d, t, rfl, hd⟩ := hy
  have hname : isNameStart d = false := by
    rcases isDivider_cases hd with rfl | rfl | rfl <;> decide
  have h := startsName_seam (isSeam_of_isDivider hd) t
  rwa [hname] at h

/-- The lengths agree: what reached beyond `p` ends with `p`. A hyphen at the end of `p` may be left out, where it was
the start of a name. -/
def Cut (p : Text) (nx ny : Nat) : Prop :=
  ny = min nx p.length ∨ (p.getLast? = some '-' ∧ p.length < nx ∧ ny = p.length - 1)

/-- A name, if one starts. -/
theorem cut_name (hx : StartsSeam x) (hy : StartsDivider y) (hopen : opensEscape false p = false) :
    Cut p (if startsName (p ++ x) then nameLength 0 (p ++ x) else 0)
      (if startsName (p ++ y) then nameLength 0 (p ++ y) else 0) := by
  obtain ⟨hname, hhyphen⟩ := startsName_divider hy
  have hlength : nameLength 0 (p ++ y) = min (nameLength 0 (p ++ x)) p.length := by
    have h := nameLength_append hx hy (p := p) 0 hopen
    rwa [Nat.zero_min] at h
  by_cases hp : p = []
  · subst hp
    exact .inl (by simp [hname])
  by_cases hm : p = ['-']
  · subst hm
    obtain ⟨c, t, rfl, hc⟩ := hx
    by_cases hs : startsName ('-' :: c :: t) = true
    · -- the hyphen started a name that ran on; now it is a word of its own
      have hpart : isNamePart c = true := by
        rw [(startsName_seam hc t).2] at hs
        rw [isNamePart, hs, Bool.true_or, Bool.true_or]
      have hhead : isNamePart '-' = true := by decide
      refine .inr ⟨rfl, ?_, by rw [List.cons_append, List.nil_append, hhyphen]; rfl⟩
      rw [List.cons_append, List.nil_append, if_pos hs, nameLength, if_pos hhead, nameLength, if_pos hpart]
      exact Nat.succ_lt_succ (Nat.succ_pos _)
    · refine .inl ?_
      rw [List.cons_append, List.nil_append, List.cons_append, List.nil_append, if_neg hs, hhyphen]
      rfl
  · rw [startsName_append hopen hp hm, startsName_append hopen hp hm, hlength]
    exact .inl (by split <;> simp)

theorem cut_unit (hx : StartsSeam x) (hy : StartsDivider y) (hopen : opensEscape false p = false) :
    Cut p (unitLength (p ++ x)) (unitLength (p ++ y)) := by
  have hpercent {z : Text} (hz : ∀ c ∈ (p ++ z).head?, c ≠ '%') :
      unitLength (p ++ z) = if startsName (p ++ z) then nameLength 0 (p ++ z) else 0 := by
    rw [unitLength]
    intro q hq
    exact absurd rfl (hz '%' (by rw [hq]; rfl))
  cases p with
  | nil =>
    have hhead {z : Text} (hz : StartsSeam z) : ∀ c ∈ ([] ++ z).head?, c ≠ '%' := by
      obtain ⟨c, t, rfl, hc⟩ := hz
      rintro d ⟨⟩
      exact ne_of_isSeam hc (by decide)
    rw [hpercent (hhead hx), hpercent (hhead hy.startsSeam)]
    exact cut_name hx hy hopen
  | cons c q =>
    by_cases hc : c = '%'
    · subst hc
      exact .inl (by simp [unitLength])
    · have hhead (z : Text) : ∀ d ∈ (c :: q ++ z).head?, d ≠ '%' := by
        rintro d ⟨⟩
        exact hc
      rw [hpercent (hhead x), hpercent (hhead y)]
      exact cut_name hx hy hopen

/-- A number before the text `q`. -/
theorem Cut.after {m nx ny : Nat} (hm : m ≤ p.length) (h : Cut (p.drop m) nx ny) : Cut p (m + nx) (m + ny) := by
  rw [Cut, List.length_drop] at h
  rcases h with h | ⟨hlast, hlt, h⟩
  · exact .inl (by omega)
  · have hne : p.drop m ≠ [] := by
      intro hnil
      rw [hnil] at hlast
      cases hlast
    have hpos := List.length_pos_iff.2 hne
    rw [List.length_drop] at hpos
    rw [List.getLast?_drop, if_neg (by omega)] at hlast
    exact .inr ⟨hlast, by omega, by omega⟩

theorem cut_unsigned (hx : StartsSeam x) (hy : StartsDivider y) (hopen : opensEscape false p = false) :
    Cut p (unsignedLength (p ++ x)) (unsignedLength (p ++ y)) := by
  have hm := numeralLength_le p
  rw [unsignedLength_eq, unsignedLength_eq, numeralLength_append hx.endsNumber, numeralLength_append hy.startsSeam.endsNumber,
    List.drop_append_of_le_length hm, List.drop_append_of_le_length hm]
  refine (cut_unit hx hy ?_).after hm
  rw [opensEscape_drop (notMem_take_numeral (by decide) p), hopen]

end

/-! ## What something closes -/

section

variable {b r p y : Text} {d : Char}

/-- What is left of `p` and the blanks after it, when all of `p` is passed over, is blank. -/
theorem isBlank_of_mem_drop (hb : ∀ c ∈ b, isBlank c = true) {skip : Nat} (hskip : p.length ≤ skip) :
    ∀ c ∈ (p ++ b).drop skip, isBlank c = true := by
  rw [List.drop_append, List.drop_eq_nil_of_le hskip]
  exact fun c hc => hb c (List.mem_of_mem_drop hc)

theorem startsSeam_blanks (hb : ∀ c ∈ b, isBlank c = true) (hd : isDivider d = true) (r : Text) :
    StartsSeam (b ++ d :: r) := by
  cases b with
  | nil => exact ⟨d, r, rfl, isSeam_of_isDivider hd⟩
  | cons c b => exact ⟨c, b ++ d :: r, rfl, isSeam_of_isBlank (hb c List.mem_cons_self)⟩

/-! ### Strings -/

/-- No string ends in blanks. -/
theorem stringToken_blanks {quote : Char} (hq : isSeam quote = false) (hd : isDivider d = true) {u : Text} {skip : Nat}
    (hu : ∀ c ∈ u.drop skip, isBlank c = true) (hs : (stringToken quote skip (u ++ d :: r)).1 = .string) :
    u.length < (stringToken quote skip (u ++ d :: r)).2 := by
  induction u generalizing skip with
  | nil =>
    cases skip with
    | succ skip => exact Nat.succ_pos _
    | zero =>
      have hline := isLineEnd_of_isDivider hd
      have hescape : d ≠ '\\' := by rintro rfl; exact absurd hd (by decide)
      have hquote : d ≠ quote := ne_of_isSeam (isSeam_of_isDivider hd) hq
      rw [List.nil_append, stringToken, if_neg hquote, hline, if_neg Bool.false_ne_true, if_neg hescape]
      exact Nat.succ_pos _
  | cons c u ih =>
    cases skip with
    | succ skip => exact Nat.succ_lt_succ (ih hu hs)
    | zero =>
      have hc := isSeam_of_isBlank (hu c List.mem_cons_self)
      have hescape : c ≠ '\\' := ne_of_isSeam hc (by decide)
      rw [List.cons_append, stringToken, if_neg (ne_of_isSeam hc hq), if_neg hescape] at hs ⊢
      by_cases hline : isLineEnd c = true
      · rw [if_pos hline] at hs
        cases hs
      · rw [if_neg hline] at hs ⊢
        exact Nat.succ_lt_succ (@ih 0 (fun e he => hu e (List.mem_cons_of_mem _ he)) hs)

/-- A string that ends before a divider ends within `p`. -/
theorem stringToken_append {quote : Char} (hq : isSeam quote = false) (hb : ∀ c ∈ b, isBlank c = true)
    (hd : isDivider d = true) (hy : StartsDivider y) {skip : Nat}
    (hs : (stringToken quote skip (p ++ (b ++ d :: r))).1 = .string)
    (hn : (stringToken quote skip (p ++ (b ++ d :: r))).2 ≤ p.length + b.length) :
    stringToken quote skip (p ++ y) = stringToken quote skip (p ++ (b ++ d :: r)) ∧
      (stringToken quote skip (p ++ (b ++ d :: r))).2 ≤ p.length := by
  -- what is passed over ends within `p`
  have hskip {q : Text} {n : Nat} (hs : (stringToken quote n (q ++ (b ++ d :: r))).1 = .string)
      (hn : (stringToken quote n (q ++ (b ++ d :: r))).2 ≤ q.length + b.length) : n < q.length := by
    by_contra hle
    have hlt := stringToken_blanks hq hd (isBlank_of_mem_drop (p := q) hb (Nat.le_of_not_lt hle)) (by
      rwa [List.append_assoc])
    rw [List.append_assoc, List.length_append] at hlt
    omega
  induction p generalizing skip with
  | nil => exact absurd (hskip hs hn) (Nat.not_lt_zero _)
  | cons c p ih =>
    have hx : StartsSeam (b ++ d :: r) := startsSeam_blanks hb hd r
    -- the rest of the string follows `c`
    have hrest {n m : Nat} (hm : n < p.length → m = n) (hs : (stringToken quote n (p ++ (b ++ d :: r))).1 = .string)
        (hn : (stringToken quote n (p ++ (b ++ d :: r))).2 + 1 ≤ (c :: p).length + b.length) :
        (stringToken quote m (p ++ y)).map id (· + 1) =
            (stringToken quote n (p ++ (b ++ d :: r))).map id (· + 1) ∧
          (stringToken quote n (p ++ (b ++ d :: r))).2 + 1 ≤ (c :: p).length := by
      rw [List.length_cons] at hn ⊢
      have hle : (stringToken quote n (p ++ (b ++ d :: r))).2 ≤ p.length + b.length := by omega
      obtain ⟨heq, hlength⟩ := ih hs hle
      rw [hm (hskip hs hle), heq]
      exact ⟨rfl, Nat.succ_le_succ hlength⟩
    cases skip with
    | succ skip => exact hrest (fun _ => rfl) hs hn
    | zero =>
      rw [List.cons_append, stringToken] at hs hn ⊢
      rw [List.cons_append, stringToken]
      by_cases hc : c = quote
      · rw [if_pos hc, if_pos hc]
        exact ⟨rfl, Nat.succ_pos _⟩
      rw [if_neg hc] at hs hn ⊢
      rw [if_neg hc]
      by_cases hline : isLineEnd c = true
      · rw [if_pos hline] at hs
        cases hs
      rw [if_neg hline] at hs hn ⊢
      rw [if_neg hline]
      by_cases hescape : c = '\\'
      · rw [if_pos hescape] at hs hn ⊢
        rw [if_pos hescape]
        refine hrest (fun hlt => ?_) hs hn
        have hp : p ≠ [] := by rintro rfl; exact Nat.not_lt_zero _ hlt
        rw [startsWithLineEnd_append hp] at hlt ⊢
        rw [startsWithLineEnd_append hp, spaceLength_append hy p (b ++ d :: r), escapeLength_append hx hy hp]
        by_cases hl : startsWithLineEnd p = true
        · rw [if_pos hl] at hlt
          rw [if_pos hl, if_pos hl, Nat.min_eq_left (Nat.le_of_lt hlt)]
        · rw [if_neg hl] at hlt
          rw [if_neg hl, if_neg hl, Nat.min_eq_left (Nat.le_of_lt hlt)]
      · rw [if_neg hescape] at hs hn ⊢
        rw [if_neg hescape]
        exact hrest (fun _ => rfl) hs hn

/-! ### URLs -/

/-- A blank closes no URL and takes nothing after it. -/
theorem urlStep_blank {c : Char} (hc : isBlank c = true) (s : UrlState) (t : Text) :
    ∃ s', urlStep s c t = some (s', 0) := by
  have hclose : c ≠ ')' := ne_of_isSeam (isSeam_of_isBlank hc) (by decide)
  have hescape : c ≠ '\\' := ne_of_isSeam (isSeam_of_isBlank hc) (by decide)
  cases s <;> simp only [urlStep, if_neg hclose, if_neg hescape] <;> repeat' first | exact ⟨_, rfl⟩ | split

/-- No URL ends in blanks. -/
theorem urlLength_blanks {s : UrlState} {u : Text} {skip : Nat} (hu : ∀ c ∈ u.drop skip, isBlank c = true) :
    u.length < urlLength s skip (u ++ d :: r) := by
  induction u generalizing skip s with
  | nil =>
    rw [List.nil_append]
    unfold urlLength
    split
    · rename_i heq
      cases heq
    · exact Nat.succ_pos _
    · split <;> exact Nat.succ_pos _
  | cons c u ih =>
    cases skip with
    | succ skip => exact Nat.succ_lt_succ (ih hu)
    | zero =>
      obtain ⟨s', hstep⟩ := urlStep_blank (hu c List.mem_cons_self) s (u ++ d :: r)
      rw [List.cons_append, urlLength, hstep]
      exact Nat.succ_lt_succ (@ih s' 0 fun e he => hu e (List.mem_cons_of_mem _ he))

/-- What a character does to a URL is settled within `p`, but for the length of an escape. -/
theorem urlStep_append (hb : ∀ c ∈ b, isBlank c = true) (hd : isDivider d = true) (hy : StartsDivider y)
    (hp : p ≠ []) (s : UrlState) (c : Char) :
    urlStep s c (p ++ y) = (urlStep s c (p ++ (b ++ d :: r))).map fun next => (next.1, min next.2 p.length) := by
  have hx := startsSeam_blanks hb hd r
  obtain ⟨e, q, rfl⟩ := List.exists_cons_of_ne_nil hp
  have hline (z : Text) := startsWithLineEnd_append hp z
  have hlength := escapeLength_append hx hy hp
  cases s <;> simp only [urlStep, hline, hlength] <;> grind

/-- A URL that ends before a divider ends within `p`. -/
theorem urlLength_append (hb : ∀ c ∈ b, isBlank c = true) (hd : isDivider d = true) (hy : StartsDivider y)
    {s : UrlState} {n : Nat} (hn : urlLength s n (p ++ (b ++ d :: r)) ≤ p.length + b.length) :
    urlLength s n (p ++ y) = urlLength s n (p ++ (b ++ d :: r)) ∧
      urlLength s n (p ++ (b ++ d :: r)) ≤ p.length := by
  -- what is passed over ends within `p`
  have hskip {q : Text} {s : UrlState} {n : Nat} (hn : urlLength s n (q ++ (b ++ d :: r)) ≤ q.length + b.length) :
      n < q.length := by
    by_contra hle
    have hlt := urlLength_blanks (s := s) (d := d) (r := r)
      (isBlank_of_mem_drop (p := q) hb (Nat.le_of_not_lt hle))
    rw [List.append_assoc, List.length_append] at hlt
    omega
  induction p generalizing s n with
  | nil => exact absurd (hskip hn) (Nat.not_lt_zero _)
  | cons c p ih =>
    rw [List.length_cons] at hn ⊢
    cases n with
    | succ skip =>
      rw [List.cons_append, urlLength] at hn ⊢
      rw [List.cons_append, urlLength]
      obtain ⟨heq, hlength⟩ := @ih s skip (by omega)
      rw [heq]
      exact ⟨rfl, Nat.succ_le_succ hlength⟩
    | zero =>
      rw [List.cons_append, urlLength] at hn ⊢
      rw [List.cons_append, urlLength]
      cases hstep : urlStep s c (p ++ (b ++ d :: r)) with
      | none =>
        have hclose : urlStep s c (p ++ y) = none := urlStep_eq_none.2 (urlStep_eq_none.1 hstep)
        rw [hclose]
        exact ⟨rfl, Nat.succ_pos _⟩
      | some next =>
        obtain ⟨s', skip⟩ := next
        rw [hstep] at hn
        dsimp only at hn ⊢
        have hle : urlLength s' skip (p ++ (b ++ d :: r)) ≤ p.length + b.length := by omega
        have hlt := hskip hle
        have hp : p ≠ [] := by rintro rfl; exact Nat.not_lt_zero _ hlt
        rw [urlStep_append hb hd hy hp (r := r), hstep]
        obtain ⟨heq, hlength⟩ := ih hle
        dsimp only [Option.map_some]
        rw [Nat.min_eq_left (Nat.le_of_lt hlt), heq]
        exact ⟨rfl, Nat.succ_le_succ hlength⟩

/-! ### Comments -/

theorem commentBody_cons {c : Char} {t : Text} (h : c = '*' → t.head? ≠ some '/') :
    commentBody (c :: t) = (c :: (commentBody t).1, (commentBody t).2 + 1) := by
  rw [commentBody]
  rintro u heq hu
  exact h heq (by rw [hu]; rfl)

/-- No comment ends in blanks. -/
theorem commentBody_blanks {u : Text} (hu : ∀ c ∈ u, isBlank c = true) (hd : isDivider d = true) :
    u.length < (commentBody (u ++ d :: r)).2 := by
  have hstar {c : Char} (hc : isSeam c = true) (t : Text) : c = '*' → t.head? ≠ some '/' := fun h =>
    absurd h (ne_of_isSeam hc (by decide))
  induction u with
  | nil =>
    rw [List.nil_append, commentBody_cons (hstar (isSeam_of_isDivider hd) r)]
    exact Nat.succ_pos _
  | cons c u ih =>
    rw [List.cons_append, commentBody_cons (hstar (isSeam_of_isBlank (hu c List.mem_cons_self)) _)]
    exact Nat.succ_lt_succ (ih fun e he => hu e (List.mem_cons_of_mem _ he))

/-- A comment that ends before a divider ends within `p`. -/
theorem commentBody_append (hb : ∀ c ∈ b, isBlank c = true) (hd : isDivider d = true) (hy : StartsDivider y)
    (hn : (commentBody (p ++ (b ++ d :: r))).2 ≤ p.length + b.length) :
    commentBody (p ++ y) = commentBody (p ++ (b ++ d :: r)) ∧
      (commentBody (p ++ (b ++ d :: r))).2 ≤ p.length := by
  induction p with
  | nil =>
    have hlt := commentBody_blanks (r := r) hb hd
    rw [List.nil_append, List.length_nil, Nat.zero_add] at hn
    omega
  | cons c p ih =>
    by_cases hend : c = '*' ∧ ∃ q, p = '/' :: q
    · obtain ⟨rfl, q, rfl⟩ := hend
      exact ⟨rfl, by simp [commentBody]⟩
    · have hgo {z : Text} (hz : StartsSeam z) : c = '*' → (p ++ z).head? ≠ some '/' := by
        obtain ⟨e, t, rfl, he⟩ := hz
        intro hc hhead
        cases p with
        | nil => exact ne_of_isSeam he (by decide) (Option.some.inj hhead)
        | cons a q => exact hend ⟨hc, q, by rw [Option.some.inj hhead]⟩
      have hx := startsSeam_blanks hb hd r
      rw [List.cons_append, commentBody_cons (hgo hx), List.length_cons] at hn
      rw [List.cons_append, List.cons_append, commentBody_cons (hgo hx), commentBody_cons (hgo hy.startsSeam)]
      obtain ⟨heq, hlength⟩ := ih (by dsimp only at hn; omega)
      rw [heq]
      exact ⟨rfl, Nat.succ_le_succ hlength⟩

/-! ### Names with arguments -/

theorem startsQuoted_cons (c : Char) (t : Text) :
    startsQuoted (c :: t) = if isSpace c then startsQuoted t else c == '"' || c == '\'' := by
  unfold startsQuoted
  by_cases hc : isSpace c = true
  · rw [List.dropWhile_cons_of_pos hc, if_pos hc]
  · rw [List.dropWhile_cons_of_neg hc, if_neg hc]

theorem startsQuoted_append {z : Text} (hz : startsQuoted z = false) (p : Text) :
    startsQuoted (p ++ z) = startsQuoted p := by
  induction p with
  | nil => exact hz
  | cons c p ih => rw [List.cons_append, startsQuoted_cons, startsQuoted_cons, ih]

theorem startsQuoted_blanks (hb : ∀ c ∈ b, isBlank c = true) (hd : isDivider d = true) (r : Text) :
    startsQuoted (b ++ d :: r) = false := by
  have hquote {c : Char} (hc : isSeam c = true) : (c == '"' || c == '\'') = false := by
    rw [Bool.or_eq_false_iff, beq_eq_false_iff_ne, beq_eq_false_iff_ne]
    exact ⟨ne_of_isSeam hc (by decide), ne_of_isSeam hc (by decide)⟩
  induction b with
  | nil =>
    rw [List.nil_append, startsQuoted_cons, isSpace_of_isDivider hd, hquote (isSeam_of_isDivider hd)]
    rfl
  | cons c b ih =>
    rw [List.forall_mem_cons] at hb
    rw [List.cons_append, startsQuoted_cons, ih hb.2, hquote (isSeam_of_isBlank hb.1), ite_self]

theorem nameToken_of_paren {t rest : Text} {n : Nat} (hn : nameLength 0 t = n) (h : t.drop n = '(' :: rest) :
    nameToken t =
      if Text.sameIgnoringAsciiCase (unescape (t.take n)) "url" && !startsQuoted rest then
        (.word, n + 1 + urlLength .leading 0 rest)
      else (.function (unescape (t.take n)), n + 1) := by
  rw [nameToken, hn]
  dsimp only
  rw [h]
  rfl

theorem nameToken_of_ne {t : Text} {n : Nat} (hn : nameLength 0 t = n) (h : (t.drop n).head? ≠ some '(') :
    nameToken t = (.word, n) := by
  rw [nameToken, hn]
  dsimp only
  split
  · rename_i heq
    rw [heq] at h
    exact absurd rfl h
  · rfl

theorem nameLength_le_nameToken (t : Text) : nameLength 0 t ≤ (nameToken t).2 := by
  unfold nameToken
  dsimp only
  split
  · split
    · exact Nat.le_trans (Nat.le_succ _) (Nat.le_add_right _ _)
    · exact Nat.le_succ _
  · exact Nat.le_refl _

/-- Up to the divider only blanks stand after the seam. -/
theorem isSeam_of_getElem? (hb : ∀ c ∈ b, isBlank c = true) (hd : isDivider d = true) {i : Nat} {c : Char}
    (hi : i ≤ b.length) (h : (b ++ d :: r)[i]? = some c) : isSeam c = true := by
  rcases Nat.lt_or_eq_of_le hi with hlt | rfl
  · rw [List.getElem?_append_left hlt] at h
    exact isSeam_of_isBlank (hb c (List.mem_of_getElem? h))
  · rw [List.getElem?_append_right (Nat.le_refl _), Nat.sub_self] at h
    rw [← Option.some.inj h]
    exact isSeam_of_isDivider hd

/-- A name is the same word before the seam; what it opens is open before the end of `p`. -/
theorem nameToken_append (hb : ∀ c ∈ b, isBlank c = true) (hd : isDivider d = true) (hy : StartsDivider y)
    (hopen : opensEscape false p = false) (hn : (nameToken (p ++ (b ++ d :: r))).2 ≤ p.length + b.length) :
    nameToken (p ++ y) =
        ((nameToken (p ++ (b ++ d :: r))).1, min (nameToken (p ++ (b ++ d :: r))).2 p.length) ∧
      (p.length < (nameToken (p ++ (b ++ d :: r))).2 → (nameToken (p ++ (b ++ d :: r))).1 = .word) := by
  have hname : nameLength 0 (p ++ y) = min (nameLength 0 (p ++ (b ++ d :: r))) p.length := by
    have h := nameLength_append (startsSeam_blanks hb hd r) hy (p := p) 0 hopen
    rwa [Nat.zero_min] at h
  generalize hN : nameLength 0 (p ++ (b ++ d :: r)) = n at hname
  by_cases hlt : n < p.length
  · -- the name ends within `p`
    rw [Nat.min_eq_left (Nat.le_of_lt hlt)] at hname
    obtain ⟨e, q, hq⟩ := List.exists_cons_of_ne_nil (List.ne_nil_of_length_pos (l := p.drop n) (by
      rw [List.length_drop]; omega))
    have hdrop (z : Text) : (p ++ z).drop n = e :: (q ++ z) := by
      rw [List.drop_append_of_le_length (Nat.le_of_lt hlt), hq, List.cons_append]
    have htake (z : Text) : (p ++ z).take n = p.take n := List.take_append_of_le_length (Nat.le_of_lt hlt)
    have hlength : p.length = n + 1 + q.length := by
      have h := congrArg List.length hq
      rw [List.length_drop, List.length_cons] at h
      omega
    by_cases he : e = '('
    · subst he
      have hquoted : startsQuoted (q ++ y) = startsQuoted (q ++ (b ++ d :: r)) := by
        obtain ⟨d', t, rfl, hd'⟩ := hy
        have hnone : startsQuoted (d' :: t) = false :=
          startsQuoted_blanks (b := []) (fun c hc => absurd hc List.not_mem_nil) hd' t
        rw [startsQuoted_append (startsQuoted_blanks hb hd r), startsQuoted_append hnone]
      rw [nameToken_of_paren hN (hdrop _)] at hn ⊢
      rw [nameToken_of_paren hname (hdrop _), htake, hquoted]
      rw [htake] at hn ⊢
      split at hn <;> rename_i hurl
      · obtain ⟨heq, hle⟩ := urlLength_append hb hd hy (p := q) (s := .leading) (n := 0) (r := r)
          (by dsimp only at hn; omega)
        rw [if_pos hurl, if_pos hurl, heq]
        dsimp only
        rw [Nat.min_eq_left (by omega)]
        exact ⟨rfl, fun _ => rfl⟩
      · rw [if_neg hurl, if_neg hurl]
        dsimp only
        rw [Nat.min_eq_left (by omega)]
        exact ⟨rfl, fun h => by omega⟩
    · have hhead (z : Text) : ((p ++ z).drop n).head? ≠ some '(' := by
        rw [hdrop]
        exact fun h => he (Option.some.inj h)
      rw [nameToken_of_ne hN (hhead _), nameToken_of_ne hname (hhead _), Nat.min_eq_left (Nat.le_of_lt hlt)]
      exact ⟨rfl, fun _ => rfl⟩
  · -- the name runs into the blanks
    rw [Nat.min_eq_right (Nat.le_of_not_lt hlt)] at hname
    have hle : n ≤ p.length + b.length := hN ▸ Nat.le_trans (nameLength_le_nameToken _) hn
    have hx : ((p ++ (b ++ d :: r)).drop n).head? ≠ some '(' := by
      rw [List.head?_drop, List.getElem?_append_right (Nat.le_of_not_lt hlt)]
      intro h
      have hseam : isSeam '(' = true := isSeam_of_getElem? hb hd (by omega) h
      exact absurd hseam (by decide)
    have hyhead : ((p ++ y).drop p.length).head? ≠ some '(' := by
      obtain ⟨d', t, rfl, hd'⟩ := hy
      rw [List.drop_left]
      exact fun h => ne_of_isSeam (isSeam_of_isDivider hd') (by decide) (Option.some.inj h)
    rw [nameToken_of_ne hN hx, nameToken_of_ne hname hyhead, Nat.min_eq_right (Nat.le_of_not_lt hlt)]
    exact ⟨rfl, fun _ => rfl⟩

end

end Token

/-! ## Tokens -/

/-- Words and blanks, which say nothing to the reader inside a statement. -/
def TokenKind.isPlain : TokenKind → Bool
  | .word | .blank => true
  | _ => false

namespace Token

section

variable {b r p y : Text} {c d : Char}

/-- The same kind of token starts before `x` and before `y`, and it is cut with `p`; only words and blanks run beyond
`p`. -/
structure Agrees (p : Text) (ax ay : TokenKind × Nat) : Prop where
  kind : ay.1 = ax.1
  cut : Cut p ax.2 ay.2
  plain : p.length < ax.2 → ax.1.isPlain = true

/-- The answers agree if the token ends before the divider. -/
def Seamed (p b : Text) (ax ay : TokenKind × Nat) : Prop := ax.2 ≤ p.length + b.length → Agrees p ax ay

theorem seamed_ite {q : Prop} [Decidable q] {x₁ x₂ y₁ y₂ : TokenKind × Nat} (hpos : q → Seamed p b x₁ y₁)
    (hneg : ¬q → Seamed p b x₂ y₂) : Seamed p b (if q then x₁ else x₂) (if q then y₁ else y₂) := by
  by_cases hq : q
  · rw [if_pos hq, if_pos hq]
    exact hpos hq
  · rw [if_neg hq, if_neg hq]
    exact hneg hq

theorem cut_of_le {n : Nat} (h : n ≤ p.length) : Cut p n n := .inl (Nat.min_eq_left h).symm

/-- A token that ends within `p`. -/
theorem seamed_of_le {a : TokenKind × Nat} (h : a.2 ≤ p.length) : Seamed p b a a := fun _ =>
  ⟨rfl, cut_of_le h, fun hlt => absurd h (Nat.not_le_of_lt hlt)⟩

theorem seamed_word {nx ny : Nat} (h : Cut p nx ny) : Seamed p b (.word, nx) (.word, ny) := fun _ =>
  ⟨rfl, h, fun _ => rfl⟩

/-- A word that starts with `c`. -/
theorem Cut.tail {nx ny : Nat} (hc : c ≠ '-') (h : Cut (c :: p) nx ny) : Cut p (nx - 1) (ny - 1) := by
  rw [Cut, List.length_cons] at h
  rcases h with h | ⟨hlast, hlt, h⟩
  · exact .inl (by omega)
  · cases p with
    | nil => exact absurd (Option.some.inj hlast) hc
    | cons e q =>
      rw [List.getLast?_cons_cons] at hlast
      exact .inr ⟨hlast, by omega, by omega⟩

theorem cut_ite {q : Prop} [Decidable q] {nx ny : Nat} (h : q → Cut p nx ny) :
    Cut p (if q then nx else 0) (if q then ny else 0) := by
  by_cases hq : q
  · rw [if_pos hq, if_pos hq]
    exact h hq
  · rw [if_neg hq, if_neg hq]
    exact cut_of_le (Nat.zero_le _)

/-- A prefix that has no character of a seam is found within `p`. -/
theorem startsWith_append {x : Text} {s : Text} (hs : ∀ c ∈ s, isSeam c = false) (hx : StartsSeam x) :
    Text.startsWith (p ++ x) s = Text.startsWith p s := by
  obtain ⟨c, t, rfl, hc⟩ := hx
  refine dropStart?_append_of_head ?_
  rintro _ ⟨⟩ hmem
  exact ne_of_isSeam hc (hs c hmem) rfl

theorem le_length_of_startsWith {s t : Text} (h : Text.startsWith t s = true) : s.length ≤ t.length := by
  obtain ⟨rest, hrest⟩ := Option.isSome_iff_exists.1 h
  rw [Text.dropStart?_eq_some hrest, List.length_append]
  exact Nat.le_add_right _ _

/-- The name after a hash. -/
theorem cut_hash {x : Text} (hx : StartsSeam x) (hy : StartsDivider y) (hopen : opensEscape false p = false) :
    Cut p
      (if startsName (p ++ x) || startsDigit (p ++ x) || Text.startsWith (p ++ x) "-" then nameLength 0 (p ++ x) else 0)
      (if startsName (p ++ y) || startsDigit (p ++ y) || Text.startsWith (p ++ y) "-" then nameLength 0 (p ++ y)
        else 0) := by
  have hminus : ∀ c ∈ ("-" : Text), isSeam c = false := by decide
  have hlength : nameLength 0 (p ++ y) = min (nameLength 0 (p ++ x)) p.length := by
    have h := nameLength_append hx hy (p := p) 0 hopen
    rwa [Nat.zero_min] at h
  rw [startsWith_append hminus hx, startsWith_append hminus hy.startsSeam, startsDigit_append hx.endsNumber,
    startsDigit_append hy.startsSeam.endsNumber, hlength]
  by_cases hp : p = []
  · subst hp
    exact .inl (by simp)
  by_cases hm : p = ['-']
  · subst hm
    have hstarts : Text.startsWith ['-'] "-" = true := rfl
    rw [hstarts, Bool.or_true, Bool.or_true, if_pos rfl, if_pos rfl]
    exact .inl rfl
  · rw [startsName_append hopen hp hm, startsName_append hopen hp hm]
    exact .inl (by split <;> simp)

theorem scan_slash_star (t : Text) :
    scan '/' ('*' :: t) = (.comment (commentBody t).1, (commentBody t).2 + 1) := rfl

theorem scan_slash {t : Text} (h : t.head? ≠ some '*') : scan '/' t = (.slash, 0) := by
  cases t with
  | nil => rfl
  | cons e t =>
    have he : e ≠ '*' := fun heq => h (by rw [heq]; rfl)
    have hspace : isSpace '/' = false := by decide
    have hquote : ('/' = '"' || '/' = '\'') = false := by decide
    unfold scan
    rw [hspace, hquote]
    simp
    split
    · rename_i heq
      exact absurd (List.cons.inj heq).1 he
    · rfl

theorem seamed_slash (hb : ∀ c ∈ b, isBlank c = true) (hd : isDivider d = true) (hy : StartsDivider y) :
    Seamed p b (scan '/' (p ++ (b ++ d :: r))) (scan '/' (p ++ y)) := by
  have hstar {e : Char} {t : Text} (he : e ≠ '*') : (e :: t).head? ≠ some '*' := fun h => he (Option.some.inj h)
  cases p with
  | nil =>
    obtain ⟨e, t, hx, he⟩ := startsSeam_blanks hb hd r
    obtain ⟨e', t', rfl, he'⟩ := hy.startsSeam
    rw [List.nil_append, List.nil_append, hx, scan_slash (hstar (ne_of_isSeam he (by decide))),
      scan_slash (hstar (ne_of_isSeam he' (by decide)))]
    exact seamed_of_le (Nat.zero_le _)
  | cons e q =>
    rw [List.cons_append, List.cons_append]
    by_cases he : e = '*'
    · subst he
      rw [scan_slash_star, scan_slash_star]
      intro hn
      rw [List.length_cons] at hn
      obtain ⟨heq, hle⟩ := commentBody_append hb hd hy (p := q) (r := r) (by dsimp only at hn; omega)
      rw [heq]
      exact seamed_of_le (b := b) (Nat.succ_le_succ hle) hn
    · rw [scan_slash (hstar he), scan_slash (hstar he)]
      exact seamed_of_le (Nat.zero_le _)

theorem seamed_nameToken (hb : ∀ c ∈ b, isBlank c = true) (hd : isDivider d = true) (hy : StartsDivider y)
    (hopen : opensEscape false (c :: p) = false) :
    Seamed p b ((nameToken (c :: (p ++ (b ++ d :: r)))).map id (· - 1))
      ((nameToken (c :: (p ++ y))).map id (· - 1)) := by
  intro hn
  rw [Prod.map_snd] at hn
  obtain ⟨heq, hword⟩ := nameToken_append hb hd hy hopen (r := r) (by rw [List.length_cons, List.cons_append]; omega)
  rw [List.cons_append, List.length_cons] at heq hword
  rw [List.cons_append] at heq
  refine ⟨by rw [heq]; rfl, .inl ?_, fun hlt => ?_⟩
  · rw [heq, Prod.map_snd, Prod.map_snd]
    dsimp only
    omega
  · rw [Prod.map_snd] at hlt
    rw [Prod.map_fst, hword (by omega)]
    rfl

/-- A hyphen may start a name that runs into the blanks; alone it is a word. -/
theorem seamed_hyphen (hb : ∀ c ∈ b, isBlank c = true) (hd : isDivider d = true) (hy : StartsDivider y) :
    Seamed [] b
      (if startsName ('-' :: ([] ++ (b ++ d :: r))) then (nameToken ('-' :: ([] ++ (b ++ d :: r)))).map id (· - 1)
        else (.word, 0))
      (if startsName ('-' :: ([] ++ y)) then (nameToken ('-' :: ([] ++ y))).map id (· - 1) else (.word, 0)) := by
  have hname : nameToken ('-' :: y) = (.word, 1) := by
    have hlength : nameLength 0 ('-' :: y) = 1 := by
      have hhyphen : isNamePart '-' = true := by decide
      rw [nameLength, if_pos hhyphen, nameLength_divider hy]
    refine nameToken_of_ne hlength fun hhead => ?_
    obtain ⟨d', t, rfl, hd'⟩ := hy
    exact ne_of_isSeam (isSeam_of_isDivider hd') (by decide) (Option.some.inj hhead)
  have h := seamed_nameToken (p := []) hb hd hy (c := '-') (r := r) rfl
  rw [List.nil_append, List.nil_append, hname] at h
  rw [List.nil_append, List.nil_append, (startsName_divider hy).2, if_neg Bool.false_ne_true]
  split
  · exact h
  · exact seamed_of_le (Nat.zero_le _)

/-- The token that starts with `c`, before the seam as it was and as it is. -/
theorem scan_seamed (hb : ∀ c ∈ b, isBlank c = true) (hd : isDivider d = true) (hy : StartsDivider y)
    (hopen : opensEscape false (c :: p) = false)
    (hstring : (c = '"' || c = '\'') = true → (stringToken c 0 (p ++ (b ++ d :: r))).1 = .string) :
    Seamed p b (scan c (p ++ (b ++ d :: r))) (scan c (p ++ y)) := by
  have hx := startsSeam_blanks hb hd r
  have hpopen (hc : c ≠ '\\') : opensEscape false p = false := by rwa [opensEscape_cons hc] at hopen
  have single (kind : TokenKind) : Seamed p b (kind, 0) (kind, 0) := seamed_of_le (Nat.zero_le _)
  by_cases hslash : c = '/'
  · subst hslash
    exact seamed_slash hb hd hy
  unfold scan
  refine seamed_ite (fun h _ => ?_) fun _ => ?_
  · exact ⟨rfl, .inl (length_takeWhile_seam (fun d hd => isSpace_of_isDivider hd) hy p _), fun _ => rfl⟩
  refine seamed_ite (fun h hn => ?_) fun _ => ?_
  · have hq : isSeam c = false := by
      rcases (by simpa using h : c = '"' ∨ c = '\'') with rfl | rfl <;> decide
    obtain ⟨heq, hle⟩ := stringToken_append hq hb hd hy (hstring h) hn
    rw [heq]
    exact seamed_of_le (b := b) hle hn
  iterate 9 refine seamed_ite (fun _ => single _) fun _ => ?_
  refine seamed_ite (fun h => absurd h hslash) fun _ => ?_
  refine seamed_ite (fun h => seamed_word (cut_hash hx hy (hpopen (by rw [h]; decide)))) fun _ => ?_
  refine seamed_ite (fun h => seamed_word (cut_name hx hy (hpopen (by rw [h]; decide)))) fun _ => ?_
  refine seamed_ite (fun h => ?_) fun _ => ?_
  · have hseam : ∀ c ∈ ("!--" : Text), isSeam c = false := by decide
    rw [startsWith_append hseam hx, startsWith_append hseam hy.startsSeam]
    refine seamed_word (cut_of_le ?_)
    split
    · rename_i hstart
      exact le_length_of_startsWith hstart
    · exact Nat.zero_le _
  rw [startsUnsigned_append hx.endsNumber, startsUnsigned_append hy.startsSeam.endsNumber,
    startsDigit_append hx.endsNumber, startsDigit_append hy.startsSeam.endsNumber]
  refine seamed_ite (fun h => seamed_word ?_) fun _ => ?_
  · exact cut_ite fun _ => cut_unsigned hx hy (hpopen (by rw [h]; decide))
  refine seamed_ite (fun h => seamed_word ?_) fun _ => ?_
  · exact cut_ite fun _ => (cut_unsigned (p := c :: p) hx hy hopen).tail (by rw [h]; decide)
  refine seamed_ite (fun h => seamed_word ?_) fun _ => ?_
  · exact (cut_unsigned (p := c :: p) hx hy hopen).tail (by rintro rfl; exact absurd h (by decide))
  refine seamed_ite (fun h => ?_) fun hc => ?_
  · refine seamed_ite (fun _ => seamed_word (cut_unsigned hx hy (hpopen (by rw [h]; decide)))) fun _ => ?_
    have hseam : ∀ c ∈ ("->" : Text), isSeam c = false := by decide
    rw [startsWith_append hseam hx, startsWith_append hseam hy.startsSeam]
    refine seamed_ite (fun hstart => seamed_of_le (le_length_of_startsWith hstart)) fun _ => ?_
    subst h
    cases p with
    | nil => exact seamed_hyphen hb hd hy
    | cons e q =>
      have hname (z : Text) : startsName ('-' :: (e :: q ++ z)) = startsName ('-' :: e :: q) :=
        startsName_append hopen (List.cons_ne_nil _ _) (by simp) z
      rw [hname, hname]
      exact seamed_ite (fun _ => seamed_nameToken hb hd hy hopen) fun _ => single _
  · have hname (z : Text) : startsName (c :: (p ++ z)) = startsName (c :: p) :=
      startsName_append hopen (List.cons_ne_nil _ _) (fun h => hc (List.cons.inj h).1) z
    rw [hname, hname]
    exact seamed_ite (fun _ => seamed_nameToken hb hd hy hopen) fun _ => single _

end

end Token

end VendorCss
