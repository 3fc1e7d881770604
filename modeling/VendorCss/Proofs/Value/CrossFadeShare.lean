import VendorCss.Proofs.Token.Escapes
import VendorCss.Proofs.Value.CrossFade

/-!
# The share of a cross-fade

A cross-fade for WebKit is to have the number that its arguments start with as the last argument, and `0.5` where they
start with none (`shareMoved`). What is written takes the first place in the arguments that looks like a number, and cuts
as many bytes off their start as that place has, wherever it is (`shareCut`). The two agree only if that place is the
number at the start (`crossFadeWord_eq_shareMoved_iff`): the number has at most one character that is not a digit, no blank
stands before it, and nothing after it makes the place longer (`readsOn`). Where no number is at the start, no digit may
stand in the arguments at all, not even in a file name.
-/

namespace VendorCss

/-! ## Numbers at the start of a text -/

namespace Token

variable {s t : Text} {c : Char}

/-- A character that a number can have. -/
def isNumeralPart (c : Char) : Bool := isAsciiDigit c || c = '.' || c = 'e' || c = 'E' || c = '+' || c = '-'

/-- A text of characters that a number can have, with a digit last if there is a last one. -/
structure IsNumeral (t : Text) : Prop where
  parts : ∀ c ∈ t, isNumeralPart c = true
  last : ∀ c ∈ t.getLast?, isAsciiDigit c = true

namespace IsNumeral

theorem nil : IsNumeral [] := ⟨by simp, by simp⟩

theorem append (hs : IsNumeral s) (ht : IsNumeral t) : IsNumeral (s ++ t) where
  parts := List.forall_mem_append.2 ⟨hs.parts, ht.parts⟩
  last c hc := by
    rw [List.getLast?_append, Option.mem_def, Option.or_eq_some_iff] at hc
    exact hc.elim (ht.last c) fun h => hs.last c h.2

/-- A point, a letter or a sign stands before digits. -/
theorem cons (hc : isNumeralPart c = true) (ht : IsNumeral t) (hne : t ≠ []) : IsNumeral (c :: t) where
  parts := List.forall_mem_cons.2 ⟨hc, ht.parts⟩
  last := by
    rw [List.getLast?_cons_of_ne_nil hne]
    exact ht.last

theorem takeDigits (t : Text) : IsNumeral (t.take (digitsLength t)) where
  parts c hc := by
    rw [take_digitsLength] at hc
    rw [isNumeralPart, List.mem_takeWhile_imp hc]
    rfl
  last c hc := by
    rw [take_digitsLength] at hc
    exact List.mem_takeWhile_imp (List.mem_of_getLast? hc)

theorem takeDigits_ne_nil (h : startsDigit t = true) : t.take (digitsLength t) ≠ [] := by
  cases t with
  | nil => cases h
  | cons d t =>
    rw [take_digitsLength, List.takeWhile_cons_of_pos (show isAsciiDigit d = true from h)]
    exact List.cons_ne_nil _ _

theorem takeFraction (t : Text) : IsNumeral (t.take (fractionLength t)) := by
  unfold fractionLength
  split
  · split
    · rename_i t h
      rw [List.take_succ_cons]
      exact cons rfl (takeDigits t) (takeDigits_ne_nil h)
    · exact nil
  · exact nil

theorem takeExponent (t : Text) : IsNumeral (t.take (exponentLength t)) := by
  unfold exponentLength
  split
  · rename_i e s t
    split
    · exact nil
    · rename_i he
      have he : isNumeralPart e = true := by
        unfold isNumeralPart
        simp only [bne_iff_ne, Bool.and_eq_true, not_and_or, not_not] at he
        rcases he with rfl | rfl <;> rfl
      split
      · rename_i hs
        rw [List.take_succ_cons]
        exact cons he (takeDigits _) (takeDigits_ne_nil hs)
      · split
        · rename_i hs
          obtain ⟨hs, ht⟩ := Bool.and_eq_true_iff.1 hs
          have hs : isNumeralPart s = true := by
            rcases Bool.or_eq_true_iff.1 hs with h | h <;> rw [eq_of_beq h] <;> rfl
          rw [List.take_succ_cons, List.take_succ_cons]
          exact cons he (cons hs (takeDigits t) (takeDigits_ne_nil ht)) (List.cons_ne_nil _ _)
        · exact nil
  · exact nil

theorem takeNumeral (t : Text) : IsNumeral (t.take (numeralLength t)) := by
  unfold numeralLength
  rw [List.take_add, List.take_add]
  exact ((takeDigits t).append (takeFraction _)).append (takeExponent _)

end IsNumeral

end Token

namespace ValueDialect

open Token (IsNumeral isNumeralPart)

variable {args number follows rest s t u v : Text} {c : Char}

/-- The length of the number that a text starts with, its sign included; zero if it starts with none. -/
def numberLength : Text → Nat
  | c :: t =>
    if c = '+' || c = '-' then if Token.startsUnsigned t then Token.numeralLength t + 1 else 0
    else if Token.startsUnsigned (c :: t) then Token.numeralLength (c :: t) else 0
  | [] => 0

/-- The number that a text starts with, and what follows it. -/
def leadingNumber? (t : Text) : Option (Text × Text) :=
  if numberLength t = 0 then none else some (t.take (numberLength t), t.drop (numberLength t))

/-- A number with the percent sign that follows it, if any. -/
def withPercent (number follows : Text) : Text :=
  if follows.head? = some '%' then number ++ ['%'] else number

/-- What follows a number and its percent sign. -/
def imagesAfter (follows : Text) : Text := if follows.head? = some '%' then follows.tail else follows

/-- The arguments of a cross-fade with the number or percentage that they start with last, or `0.5` if they start with
none. -/
def shareMoved (args : Text) : Text :=
  match leadingNumber? args.trimStart with
  | some (number, follows) => (imagesAfter follows).trim ++ ", " ++ withPercent number follows
  | none => args ++ ", 0.5"

/-- A number is taken for a longer one with what follows it: a digit of any script, or, after digits only, one character
and a digit. -/
def readsOn (number : Text) : (follows : Text) → Bool
  | c :: t => isDigit c || (number.all isDigit && c != '\n' && t.head?.any isDigit)
  | [] => false

theorem isNumeral_take_numberLength (t : Text) : IsNumeral (t.take (numberLength t)) := by
  unfold numberLength
  split
  · rename_i c t
    split
    · rename_i hsign
      split
      · rename_i h
        have hc : isNumeralPart c = true := by
          rcases Bool.or_eq_true_iff.1 hsign with h | h <;> rw [of_decide_eq_true h] <;> rfl
        have hne : t.take (Token.numeralLength t) ≠ [] := by
          have hpos := Token.numeralLength_pos h
          have ht : t ≠ [] := by
            rintro rfl
            cases h
          exact fun hnil => (List.take_eq_nil_iff.1 hnil).elim (by omega) ht
        rw [List.take_succ_cons]
        exact .cons hc (.takeNumeral t) hne
      · exact .nil
    · split
      · exact .takeNumeral _
      · exact .nil
  · exact .nil

theorem withPercent_append_imagesAfter (number follows : Text) :
    withPercent number follows ++ imagesAfter follows = number ++ follows := by
  unfold withPercent imagesAfter
  split
  · rename_i h
    obtain ⟨t, rfl⟩ := List.head?_eq_some_iff.1 h
    rw [List.append_assoc]
    rfl
  · rfl

/-- A number ends with a digit. -/
theorem exists_of_leadingNumber? (h : leadingNumber? t = some (number, follows)) : t = number ++ follows ∧
    ∃ init last, number = init ++ [last] ∧ isAsciiDigit last = true ∧ ∀ c ∈ init, isNumeralPart c = true := by
  have hnumeral := isNumeral_take_numberLength t
  unfold leadingNumber? at h
  split at h
  · cases h
  · rename_i hzero
    cases h
    refine ⟨(List.take_append_drop _ _).symm, ?_⟩
    have hne : t.take (numberLength t) ≠ [] := by
      refine fun hnil => (List.take_eq_nil_iff.1 hnil).elim hzero ?_
      rintro rfl
      exact hzero rfl
    have hsplit := (List.dropLast_append_getLast hne).symm
    refine ⟨_, _, hsplit, hnumeral.last _ (List.getLast?_eq_some_getLast hne), fun c hc => ?_⟩
    exact hnumeral.parts c (List.mem_of_mem_dropLast hc)

/-! ## The first place that looks like a number -/

section

variable {whole places : Text}

theorem takeWhile_isDigit_append (hwhole : ∀ c ∈ whole, isDigit c = true) (hrest : ∀ c ∈ rest.head?, isDigit c = false) :
    (whole ++ rest).takeWhile isDigit = whole := by
  rw [List.takeWhile_append_of_pos hwhole]
  cases rest with
  | nil => rw [List.takeWhile_nil, List.append_nil]
  | cons c rest =>
    rw [List.takeWhile_cons_of_neg (by rw [hrest c rfl]; exact Bool.false_ne_true), List.append_nil]

theorem take_withPercent (s rest : Text) :
    (s ++ rest).take (if ((s ++ rest).drop s.length).head? = some '%' then s.length + 1 else s.length) =
      withPercent s rest := by
  rw [List.drop_left]
  unfold withPercent
  split
  · rename_i h
    rw [List.take_length_add_append, List.take_one, h]
    rfl
  · exact List.take_left

/-- Digits, one character, and digits up to a place without one. -/
theorem shareText?_pair (hwhole : ∀ c ∈ whole, isDigit c = true) (hc : isDigit c = false) (hline : c ≠ '\n')
    (hplaces : ∀ c ∈ places, isDigit c = true) (hne : places ≠ []) (hrest : ∀ c ∈ rest.head?, isDigit c = false) :
    shareText? (whole ++ c :: (places ++ rest)) = some (withPercent (whole ++ c :: places) rest) := by
  have hdigits : (whole ++ c :: (places ++ rest)).takeWhile isDigit = whole :=
    takeWhile_isDigit_append hwhole (by simpa using hc)
  have hfurther : (places ++ rest).takeWhile isDigit = places := takeWhile_isDigit_append hplaces hrest
  have hlength : whole.length + 1 + places.length = (whole ++ c :: places).length := by
    rw [List.length_append, List.length_cons]
    omega
  have hassoc : whole ++ c :: (places ++ rest) = whole ++ c :: places ++ rest := by
    rw [List.append_assoc, List.cons_append]
  have hcond : (c != '\n' && !places.isEmpty) = true := by
    rw [Bool.and_eq_true, bne_iff_ne, Bool.not_eq_true', List.isEmpty_eq_false_iff]
    exact ⟨hline, hne⟩
  unfold shareText?
  dsimp only
  rw [hdigits, List.drop_left]
  dsimp only
  rw [hfurther, if_pos hcond, hlength, hassoc, take_withPercent]

/-- Digits that no character and digit follow. -/
theorem shareText?_whole (hwhole : ∀ c ∈ whole, isDigit c = true) (hne : whole ≠ [])
    (hon : readsOn whole rest = false) : shareText? (whole ++ rest) = some (withPercent whole rest) := by
  have hall : whole.all isDigit = true := List.all_eq_true.2 hwhole
  have hempty : whole.isEmpty = false := List.isEmpty_eq_false_iff.2 hne
  have htake := take_withPercent whole rest
  rw [List.drop_left] at htake
  unfold shareText?
  dsimp only
  cases rest with
  | nil =>
    rw [takeWhile_isDigit_append hwhole (by simp), List.drop_left]
    dsimp only
    rw [hempty, if_neg Bool.false_ne_true, withPercent, if_neg (by simp), List.append_nil]
  | cons c t =>
    rw [readsOn, hall, Bool.true_and, Bool.or_eq_false_iff] at hon
    obtain ⟨hc, ht⟩ := hon
    have hcond : (c != '\n' && !(t.takeWhile isDigit).isEmpty) = false := by
      rw [Bool.and_eq_false_iff] at ht ⊢
      refine ht.imp_right fun ht => ?_
      cases t with
      | nil => rfl
      | cons d t =>
        rw [List.takeWhile_cons_of_neg (by rw [show isDigit d = false from ht]; exact Bool.false_ne_true)]
        rfl
    rw [takeWhile_isDigit_append hwhole (by simpa using hc), List.drop_left]
    dsimp only
    rw [hcond, hempty, if_neg Bool.false_ne_true, if_neg Bool.false_ne_true, htake]

theorem length_withPercent (number follows : Text) :
    number.length ≤ (withPercent number follows).length ∧ (withPercent number follows).length ≤ number.length + 1 := by
  unfold withPercent
  split
  · rw [List.length_append, List.length_singleton]
    omega
  · omega

theorem withPercent_of_digit {c : Char} (hc : isDigit c = true) (number t : Text) :
    withPercent number (c :: t) = number := by
  rw [withPercent, if_neg]
  intro h
  obtain rfl := Option.some.inj h
  revert hc
  decide

/-- A text is a run of digits and what follows it. -/
theorem exists_digits (t : Text) : ∃ digits rest, t = digits ++ rest ∧ (∀ c ∈ digits, isDigit c = true) ∧
    ∀ c ∈ rest.head?, isDigit c = false := by
  refine ⟨t.takeWhile isDigit, t.dropWhile isDigit, List.takeWhile_append_dropWhile.symm,
    fun c => List.mem_takeWhile_imp, fun c hc => ?_⟩
  have hnot := List.head?_dropWhile_not isDigit t
  rw [Option.mem_def] at hc
  rw [hc] at hnot
  exact hnot

/-- Digits that are taken for a longer number make a longer place. -/
theorem shareText?_of_readsOn (hwhole : ∀ c ∈ whole, isDigit c = true) (hrest : ∀ c ∈ rest.head?, isDigit c = false)
    (hon : readsOn whole rest = true) : ∃ share, shareText? (whole ++ rest) = some share ∧
      whole.length + 1 < share.length := by
  cases rest with
  | nil => cases hon
  | cons c t =>
    have hc : isDigit c = false := hrest c rfl
    rw [readsOn, hc, Bool.false_or, Bool.and_eq_true, Bool.and_eq_true, bne_iff_ne] at hon
    obtain ⟨⟨-, hline⟩, hnext⟩ := hon
    obtain ⟨places, rest, rfl, hplaces, hafter⟩ := exists_digits t
    have hne : places ≠ [] := by
      rintro rfl
      cases rest with
      | nil => cases hnext
      | cons d rest => rw [List.nil_append, List.head?_cons, Option.any_some, hafter d rfl] at hnext; cases hnext
    have hpos := List.length_pos_iff.2 hne
    have hle := (length_withPercent (whole ++ c :: places) rest).1
    refine ⟨_, shareText?_pair hwhole hc hline hplaces hne hafter, ?_⟩
    rw [List.length_append, List.length_cons] at hle
    omega

/-- Digits, with at most one other character before the last of them. -/
inductive IsOneNumber : Text → Prop
  | digits {whole : Text} (hwhole : ∀ c ∈ whole, isDigit c = true) (hne : whole ≠ []) : IsOneNumber whole
  | pair {whole places : Text} {c : Char} (hwhole : ∀ c ∈ whole, isDigit c = true) (hc : isDigit c = false)
      (hline : c ≠ '\n') (hplaces : ∀ c ∈ places, isDigit c = true) (hne : places ≠ []) :
      IsOneNumber (whole ++ c :: places)

theorem isOneNumber_of_countP {init : Text} {last : Char} (hinit : ∀ c ∈ init, isNumeralPart c = true)
    (hlast : isAsciiDigit last = true) (hcount : (init ++ [last]).countP isNoShare ≤ 1) :
    IsOneNumber (init ++ [last]) := by
  have hlast : isDigit last = true := by
    rw [isDigit, hlast, Bool.true_or]
  obtain ⟨whole, rest, rfl, hwhole, hrest⟩ := exists_digits init
  cases rest with
  | nil =>
    rw [List.append_nil]
    exact .digits (List.forall_mem_append.2 ⟨hwhole, List.forall_mem_singleton.2 hlast⟩) (by simp)
  | cons c places =>
    have hpart (d : Char) (h : isNumeralPart d = true) : d ≠ '\n' ∧ isNoShare d = !isDigit d := by
      have hpercent : d ≠ '%' := by
        rintro rfl
        revert h
        decide
      refine ⟨?_, by rw [isNoShare, decide_eq_false hpercent, Bool.or_false]⟩
      rintro rfl
      revert h
      decide
    have hc := hrest c rfl
    obtain ⟨hline, hshare⟩ := hpart c (hinit c (by simp))
    have hplaces : places.countP isNoShare = 0 := by
      rw [List.append_assoc, List.cons_append, List.countP_append, List.countP_cons_of_pos (by rw [hshare, hc]; rfl),
        List.countP_append] at hcount
      omega
    rw [List.append_assoc, List.cons_append]
    refine .pair hwhole hc hline (List.forall_mem_append.2 ⟨fun d hd => ?_, List.forall_mem_singleton.2 hlast⟩) (by simp)
    have hd' := List.countP_eq_zero.1 hplaces d hd
    rw [(hpart d (hinit d (by simp [hd]))).2] at hd'
    simpa using hd'

/-- What looks like a number at the start of a text is the number that is there with its percent sign, unless it reads
on. -/
theorem shareText?_number (hnumber : IsOneNumber number) (follows : Text) :
    ∃ share, shareText? (number ++ follows) = some share ∧
      (share = withPercent number follows ↔ readsOn number follows = false) := by
  obtain ⟨digits, rest, rfl, hdigits, hrest⟩ := exists_digits follows
  -- digits that follow make the place longer, whatever it reads after them
  have hlonger {share : Text} (hne : digits ≠ []) (hle : number.length + digits.length ≤ share.length) :
      share = withPercent number (digits ++ rest) ↔ readsOn number (digits ++ rest) = false := by
    obtain ⟨d, digits, rfl⟩ := List.exists_cons_of_ne_nil hne
    have hd := hdigits d List.mem_cons_self
    rw [List.cons_append, withPercent_of_digit hd, readsOn, hd, Bool.true_or]
    refine iff_of_false (fun h => ?_) Bool.true_eq_false.mp
    rw [h, List.length_cons] at hle
    omega
  cases hnumber with
  | digits hwhole hne =>
    have hrun : ∀ c ∈ number ++ digits, isDigit c = true := List.forall_mem_append.2 ⟨hwhole, hdigits⟩
    rw [← List.append_assoc]
    cases hon : readsOn (number ++ digits) rest with
    | false =>
      refine ⟨_, shareText?_whole hrun (by simp [hne]) hon, ?_⟩
      by_cases hnil : digits = []
      · subst hnil
        rw [List.append_nil] at hon ⊢
        exact iff_of_true rfl hon
      · refine hlonger hnil ?_
        have hle := (length_withPercent (number ++ digits) rest).1
        rwa [List.length_append] at hle
    | true =>
      obtain ⟨share, hshare, hlength⟩ := shareText?_of_readsOn hrun hrest hon
      refine ⟨share, hshare, ?_⟩
      by_cases hnil : digits = []
      · subst hnil
        rw [List.append_nil] at hon hlength
        rw [List.nil_append, hon]
        refine iff_of_false (fun h => ?_) Bool.true_eq_false.mp
        have hle := (length_withPercent number rest).2
        rw [h] at hlength
        omega
      · refine hlonger hnil ?_
        rw [List.length_append] at hlength
        omega
  | @pair whole places c hwhole hc hline hplaces hne =>
    have hplace := shareText?_pair hwhole hc hline (List.forall_mem_append.2 ⟨hplaces, hdigits⟩)
      (List.append_ne_nil_of_left_ne_nil hne digits) hrest
    have hassoc : whole ++ c :: places ++ (digits ++ rest) = whole ++ c :: (places ++ digits ++ rest) := by simp
    rw [hassoc]
    refine ⟨_, hplace, ?_⟩
    by_cases hnil : digits = []
    · subst hnil
      rw [List.append_nil]
      refine iff_of_true rfl ?_
      cases rest with
      | nil => rfl
      | cons d rest =>
        have hall : (whole ++ c :: places).all isDigit = false :=
          List.all_eq_false.2 ⟨c, by simp, by rw [hc]; exact Bool.false_ne_true⟩
        rw [List.nil_append, readsOn, hrest d rfl, hall, Bool.false_and, Bool.false_and, Bool.or_false]
    · refine hlonger hnil ?_
      have hle := (length_withPercent (whole ++ c :: (places ++ digits)) rest).1
      simp only [List.length_append, List.length_cons] at hle ⊢
      omega

end

theorem shareText?_isSome {c : Char} (hc : isDigit c = true) (t : Text) : (shareText? (c :: t)).isSome = true := by
  unfold shareText?
  rw [List.takeWhile_cons_of_pos hc]
  dsimp only
  split
  · split
    · rfl
    · rfl
  · rfl

theorem shareText?_eq_none (h : ∀ c ∈ t, isDigit c = false) : shareText? t = none := by
  have htake {s : Text} (hs : ∀ c ∈ s, isDigit c = false) : s.takeWhile isDigit = [] := by
    cases s with
    | nil => rfl
    | cons c s =>
      exact List.takeWhile_cons_of_neg (by rw [hs c List.mem_cons_self]; exact Bool.false_ne_true)
  unfold shareText?
  rw [htake h]
  dsimp only
  cases t with
  | nil => rfl
  | cons c t =>
    rw [List.length_nil, List.drop_zero]
    dsimp only
    rw [htake fun d hd => h d (List.mem_cons_of_mem c hd), List.isEmpty_nil, Bool.not_true, Bool.and_false]
    rfl

/-- A text without digits has no place that looks like a number, and every other one has. -/
theorem findShare?_eq_none_iff : findShare? t = none ↔ ∀ c ∈ t, isDigit c = false := by
  induction t with
  | nil => exact iff_of_true rfl (by simp)
  | cons c t ih =>
    rw [findShare?, Option.or_eq_none_iff, ih]
    constructor
    · rintro ⟨hhere, hrest⟩
      refine List.forall_mem_cons.2 ⟨Bool.eq_false_iff.2 fun hc => ?_, hrest⟩
      have hsome := shareText?_isSome hc t
      rw [hhere] at hsome
      cases hsome
    · exact fun h => ⟨shareText?_eq_none h, fun d hd => h d (List.mem_cons_of_mem c hd)⟩

/-! ## Cutting by bytes -/

theorem dropBytes_append (s t : Text) : dropBytes s.byteLength (s ++ t) = t := by
  induction s with
  | nil => rw [show Text.byteLength [] = 0 from rfl, List.nil_append, dropBytes]
  | cons c s ih =>
    have hsize := c.utf8Size_pos
    rw [List.cons_append, dropBytes, Text.byteLength_cons, if_pos (Nat.le_add_right _ _), Nat.add_sub_cancel_left, ih]
    rw [Text.byteLength_cons]
    omega

/-- Bytes are cut between characters, or nothing is left. -/
theorem dropBytes_eq_nil_or (n : Nat) (t : Text) :
    dropBytes n t = [] ∨ ∃ s, t = s ++ dropBytes n t ∧ s.byteLength = n := by
  fun_induction dropBytes n t with
  | case1 t => exact .inr ⟨[], rfl, rfl⟩
  | case2 => exact .inl rfl
  | case3 n c t hn hle ih =>
    refine ih.imp_right ?_
    rintro ⟨s, ht, hs⟩
    refine ⟨c :: s, congrArg (c :: ·) ht, ?_⟩
    rw [Text.byteLength_cons, hs]
    omega
  | case4 => exact .inl rfl

theorem length_dropBytes_lt {n : Nat} (hn : 0 < n) (ht : t ≠ []) : (dropBytes n t).length < t.length := by
  rcases dropBytes_eq_nil_or n t with h | ⟨s, h, hs⟩
  · rw [h]
    exact List.length_pos_iff.2 ht
  · have hne : s ≠ [] := by
      rintro rfl
      exact absurd hs (Nat.ne_of_lt hn)
    have hpos := List.length_pos_iff.2 hne
    have hlength := congrArg List.length h
    rw [List.length_append] at hlength
    omega

/-! ## The share last -/

/-- The arguments of a cross-fade as they are written: the first place that looks like a number is last, and as many bytes
as it has are off the start. -/
def shareCut (args : Text) : Text :=
  match findShare? args with
  | some share => (dropBytes share.byteLength args).trim ++ ", " ++ share
  | none => args ++ ", 0.5"

theorem crossFadeWord_webkit (hrest : ')' ∉ rest) (args : Text) :
    crossFadeWord "cross-fade" "-webkit-" (("cross-fade(" : Text) ++ args ++ ')' :: rest) =
      ("-webkit-cross-fade(" : Text) ++ shareCut args ++ ')' :: rest := by
  have hopening : (("cross-fade" : Text) ++ ['(']) = "cross-fade(" := rfl
  have hprefixed : ("-webkit-cross-fade(" : Text) = ("-webkit-" : Text) ++ ("cross-fade" : Text) ++ ['('] := rfl
  have hparen : ((")" : String) : Text) = [')'] := rfl
  unfold crossFadeWord shareCut
  rw [hopening, List.append_assoc, Text.dropStart?_append]
  dsimp only
  rw [hparen, Text.splitLast_of_notMem hrest, Option.getD_some, if_pos rfl, hprefixed]
  cases findShare? args <;> simp

/-- What stands between a comma with a blank and the end of a longer text with them last has them last, too. -/
theorem eq_nil_or_of_comma {w : Text} (h : s ++ [',', ' '] = t ++ [',', ' '] ++ w) :
    w = [] ∨ ∃ init, w = init ++ [',', ' '] := by
  have hsplit (s : Text) : s ++ [',', ' '] = s ++ [','] ++ [' '] := by simp
  rcases List.eq_nil_or_concat w with rfl | ⟨init, z, rfl⟩
  · exact .inl rfl
  · rw [List.concat_eq_append, hsplit, ← List.append_assoc] at h
    obtain ⟨hinit, hz⟩ := List.append_inj' h rfl
    obtain rfl := List.head_eq_of_cons_eq hz
    rcases List.eq_nil_or_concat init with rfl | ⟨init, y, rfl⟩
    · rw [List.append_nil, hsplit] at hinit
      cases (List.append_inj' hinit rfl).2
    · rw [List.concat_eq_append, ← List.append_assoc] at hinit
      obtain rfl := List.head_eq_of_cons_eq (List.append_inj' hinit rfl).2
      exact .inr ⟨init, by simp⟩

/-- The share can be read off the end: it has no comma and blank itself. -/
theorem comma_append_inj (hu : u.countP isNoShare ≤ 1) (hv : ' ' ∉ v) (h : s ++ ", " ++ u = t ++ ", " ++ v) :
    u = v ∧ s = t := by
  have hcomma : ((", " : String) : Text) = [',', ' '] := rfl
  rw [hcomma] at h
  rcases List.append_eq_append_iff.1 h with ⟨w, ht, rfl⟩ | ⟨w, hs, rfl⟩
  · rcases eq_nil_or_of_comma ht with rfl | ⟨init, rfl⟩
    · rw [List.append_nil] at ht
      exact ⟨rfl, (List.append_cancel_right ht).symm⟩
    · have hpair : [',', ' '].countP isNoShare = 2 := by decide
      rw [List.countP_append, List.countP_append, hpair] at hu
      omega
  · rcases eq_nil_or_of_comma hs with rfl | ⟨init, rfl⟩
    · rw [List.append_nil] at hs
      exact ⟨rfl, List.append_cancel_right hs⟩
    · exact absurd (by simp) hv

/-- Without a number at their start the arguments stay as they are if they have no digit. -/
theorem shareCut_eq_self_iff : shareCut args = args ++ ", 0.5" ↔ ∀ c ∈ args, isDigit c = false := by
  rw [← findShare?_eq_none_iff]
  cases hshare : findShare? args with
  | none => exact iff_of_true (by rw [shareCut, hshare]) rfl
  | some share =>
    refine iff_of_false (fun h => ?_) (Option.some_ne_none share)
    have hhalf : ((", 0.5" : String) : Text) = (", " : Text) ++ ("0.5" : Text) := rfl
    rw [shareCut, hshare, hhalf, ← List.append_assoc] at h
    obtain ⟨s, hs⟩ := findShare?_eq_some hshare
    have hblank : ' ' ∉ (("0.5" : String) : Text) := by decide
    obtain ⟨rfl, hargs⟩ := comma_append_inj (countP_of_shareText? hs) hblank h
    have hne : args ≠ [] := by
      rintro rfl
      cases hshare
    have hlt := length_dropBytes_lt (n := Text.byteLength "0.5") (by decide) hne
    have htrim := (Text.trim_infix (dropBytes (Text.byteLength "0.5") args)).length_le
    rw [hargs] at htrim
    omega

theorem prefix_withPercent (number follows : Text) : number <+: withPercent number follows := by
  unfold withPercent
  split
  · exact List.prefix_append _ _
  · exact List.prefix_rfl

/-- The characters of a number and its percent sign stand in one stretch of ASCII, where no blank is. -/
def InShareRange (c : Char) : Prop := 37 ≤ c.toNat ∧ c.toNat ≤ 101

instance (c : Char) : Decidable (InShareRange c) := inferInstanceAs (Decidable (37 ≤ c.toNat ∧ c.toNat ≤ 101))

theorem InShareRange.isBlank_eq {c : Char} (h : InShareRange c) : isBlank c = false := by
  unfold InShareRange at h
  unfold isBlank
  simp only [Bool.or_eq_false_iff, Bool.and_eq_false_iff, decide_eq_false_iff_not, beq_eq_false_iff_ne]
  omega

theorem byteLength_of_inShareRange (h : ∀ c ∈ t, InShareRange c) : t.byteLength = t.length := by
  induction t with
  | nil => rfl
  | cons c t ih =>
    rw [List.forall_mem_cons] at h
    have hc : c.utf8Size = 1 := Char.utf8Size_eq_one_iff.2 (UInt32.le_iff_toNat_le.2 (Nat.le_trans h.1.2 (by decide)))
    rw [Text.byteLength_cons, hc, ih h.2, List.length_cons, Nat.add_comm]

theorem inShareRange_of_isNumeralPart {c : Char} (h : isNumeralPart c = true) : InShareRange c := by
  unfold isNumeralPart at h
  simp only [Bool.or_eq_true, decide_eq_true_eq] at h
  rcases h with ((((h | rfl) | rfl) | rfl) | rfl) | rfl
  · rw [isAsciiDigit, Bool.and_eq_true, decide_eq_true_eq, decide_eq_true_eq, Char.le_def, Char.le_def,
      UInt32.le_iff_toNat_le, UInt32.le_iff_toNat_le] at h
    exact ⟨Nat.le_trans (by decide) h.1, Nat.le_trans h.2 (by decide)⟩
  all_goals decide

theorem inShareRange_of_mem (h : leadingNumber? t = some (number, follows)) {c : Char}
    (hc : c ∈ withPercent number follows) : InShareRange c := by
  obtain ⟨-, init, last, rfl, hlast, hinit⟩ := exists_of_leadingNumber? h
  have hlast : isNumeralPart last = true := by
    rw [isNumeralPart, hlast]
    rfl
  have hnumber (c : Char) (h : c ∈ init ++ [last]) : InShareRange c :=
    inShareRange_of_isNumeralPart ((List.mem_append.1 h).elim (hinit c) fun h => List.mem_singleton.1 h ▸ hlast)
  unfold withPercent at hc
  split at hc
  · rcases List.mem_append.1 hc with hc | hc
    · exact hnumber c hc
    · rw [List.mem_singleton.1 hc]
      decide
  · exact hnumber c hc

theorem withPercent_ne_nil (h : leadingNumber? t = some (number, follows)) : withPercent number follows ≠ [] := by
  obtain ⟨-, init, last, rfl, -⟩ := exists_of_leadingNumber? h
  have hlast : last ∈ init ++ [last] := List.mem_append_right init (List.mem_singleton_self last)
  exact List.ne_nil_of_mem ((prefix_withPercent _ follows).subset hlast)

/-- No blank stands before a number directly at the start. -/
theorem trimStart_eq_self (h : leadingNumber? t = some (number, follows)) : t.trimStart = t := by
  obtain ⟨c, s, hcons⟩ := List.exists_cons_of_ne_nil (withPercent_ne_nil h)
  have hc := (inShareRange_of_mem h (c := c) (by rw [hcons]; exact List.mem_cons_self)).isBlank_eq
  rw [(exists_of_leadingNumber? h).1, ← withPercent_append_imagesAfter, hcons, List.cons_append, Text.trimStart,
    List.dropWhile_cons_of_neg (by rw [hc]; exact Bool.false_ne_true)]

/-- A number directly at the start is moved whole if nothing makes another place of it. -/
theorem shareCut_eq_iff (h : leadingNumber? args = some (number, follows)) :
    shareCut args = (imagesAfter follows).trim ++ ", " ++ withPercent number follows ↔
      number.countP isNoShare ≤ 1 ∧ readsOn number follows = false := by
  have hrange (c : Char) (hc : c ∈ withPercent number follows) : InShareRange c := inShareRange_of_mem h hc
  obtain ⟨rfl, init, last, hnumber, hlast, hinit⟩ := exists_of_leadingNumber? h
  have hplain (hcount : number.countP isNoShare ≤ 1) : ∃ share, findShare? (number ++ follows) = some share ∧
      (share = withPercent number follows ↔ readsOn number follows = false) := by
    have hone : IsOneNumber number := by
      rw [hnumber] at hcount ⊢
      exact isOneNumber_of_countP hinit hlast hcount
    obtain ⟨share, hshare, hiff⟩ := shareText?_number hone follows
    refine ⟨share, ?_, hiff⟩
    obtain ⟨c, t, hcons⟩ : ∃ c t, number ++ follows = c :: t := List.exists_cons_of_ne_nil (by simp [hnumber])
    rw [hcons] at hshare ⊢
    rw [findShare?, hshare, Option.some_or]
  constructor
  · intro heq
    unfold shareCut at heq
    cases hshare : findShare? (number ++ follows) with
    | none =>
      have hdigit := findShare?_eq_none_iff.1 hshare last (by simp [hnumber])
      rw [isDigit, hlast] at hdigit
      cases hdigit
    | some share =>
      rw [hshare] at heq
      obtain ⟨s, hs⟩ := findShare?_eq_some hshare
      obtain ⟨rfl, -⟩ := comma_append_inj (countP_of_shareText? hs)
        (fun hblank => absurd (hrange ' ' hblank) (by decide)) heq
      have hcount : number.countP isNoShare ≤ 1 :=
        Nat.le_trans (List.Sublist.countP_le (prefix_withPercent number follows).sublist) (countP_of_shareText? hs)
      obtain ⟨share, hshare', hiff⟩ := hplain hcount
      rw [hshare] at hshare'
      exact ⟨hcount, hiff.1 (Option.some.inj hshare').symm⟩
  · rintro ⟨hcount, hon⟩
    obtain ⟨share, hshare, hiff⟩ := hplain hcount
    obtain rfl := hiff.2 hon
    have hdrop := dropBytes_append (withPercent number follows) (imagesAfter follows)
    rw [withPercent_append_imagesAfter] at hdrop
    unfold shareCut
    rw [hshare]
    dsimp only
    rw [hdrop]

/-- After blanks, some of the number is left. -/
theorem shareCut_ne_of_blanks (hblanks : args.leadingBlanks ≠ [])
    (h : leadingNumber? args.trimStart = some (number, follows)) (himages : (imagesAfter follows).trim ≠ []) :
    shareCut args ≠ (imagesAfter follows).trim ++ ", " ++ withPercent number follows := by
  intro heq
  have hrange (c : Char) (hc : c ∈ withPercent number follows) : InShareRange c := inShareRange_of_mem h hc
  obtain ⟨hargs, init, last, hnumber, hlast, -⟩ := exists_of_leadingNumber? h
  have hargs : args.leadingBlanks ++ withPercent number follows ++ imagesAfter follows = args := by
    rw [List.append_assoc, withPercent_append_imagesAfter, ← hargs, Text.leadingBlanks_append_trimStart]
  cases hshare : findShare? args with
  | none =>
    have hmem : last ∈ withPercent number follows := (prefix_withPercent number follows).subset (by simp [hnumber])
    have hdigit := findShare?_eq_none_iff.1 hshare last (by
      rw [← hargs]
      exact List.mem_append_left _ (List.mem_append_right _ hmem))
    rw [isDigit, hlast] at hdigit
    cases hdigit
  | some share =>
    rw [shareCut, hshare] at heq
    obtain ⟨s, hs⟩ := findShare?_eq_some hshare
    obtain ⟨rfl, hleft⟩ := comma_append_inj (countP_of_shareText? hs)
      (fun hblank => absurd (hrange ' ' hblank) (by decide)) heq
    rw [byteLength_of_inShareRange hrange] at hleft
    rcases dropBytes_eq_nil_or (withPercent number follows).length args with hnil | ⟨cut, hcut, hbytes⟩
    · rw [hnil] at hleft
      exact himages hleft.symm
    · have hblanksLength := List.length_pos_iff.2 hblanks
      have hcutLength := Text.length_le_byteLength cut
      -- at most as many characters as the number has are off, so that the end of the number is left
      obtain ⟨kept, hkept, hdropped⟩ : ∃ kept, args.leadingBlanks ++ withPercent number follows = cut ++ kept ∧
          dropBytes (withPercent number follows).length args = kept ++ imagesAfter follows := by
        rcases List.append_eq_append_iff.1 (hargs.trans hcut) with ⟨more, hmore, -⟩ | h
        · have hlength := congrArg List.length hmore
          rw [List.length_append, List.length_append] at hlength
          omega
        · exact h
      have hcount : (kept ++ imagesAfter follows).countP (!isBlank ·) = (imagesAfter follows).countP (!isBlank ·) := by
        rw [← Text.countP_trim, ← hdropped, hleft, Text.countP_trim]
      rw [List.countP_append, Nat.add_eq_right, List.countP_eq_zero] at hcount
      obtain ⟨c, hc, hc'⟩ : ∃ c ∈ kept, InShareRange c := by
        have hkeptSuffix : kept <:+ args.leadingBlanks ++ withPercent number follows := ⟨cut, hkept.symm⟩
        rcases List.suffix_or_suffix_of_suffix hkeptSuffix (List.suffix_append _ _) with hsuffix | hsuffix
        · have hne : kept ≠ [] := by
            rintro rfl
            have hlength := congrArg List.length hkept
            rw [List.length_append, List.append_nil] at hlength
            omega
          obtain ⟨c, hc⟩ := List.exists_mem_of_ne_nil _ hne
          exact ⟨c, hc, hrange c (hsuffix.subset hc)⟩
        · obtain ⟨c, hc⟩ := List.exists_mem_of_ne_nil _ (withPercent_ne_nil h)
          exact ⟨c, hsuffix.subset hc, hrange c hc⟩
      have hnot := hcount c hc
      rw [hc'.isBlank_eq] at hnot
      exact hnot rfl

/-- A cross-fade for WebKit has its number last, and nothing else is lost or moved, only where the first place in the
arguments that looks like a number is the number at their start. -/
theorem crossFadeWord_eq_shareMoved_iff (hrest : ')' ∉ rest) (args : Text) :
    let written := crossFadeWord "cross-fade" "-webkit-" (("cross-fade(" : Text) ++ args ++ ')' :: rest)
    let wanted := ("-webkit-cross-fade(" : Text) ++ shareMoved args ++ ')' :: rest
    (leadingNumber? args.trimStart = none → (written = wanted ↔ ∀ c ∈ args, isDigit c = false)) ∧
    (∀ number follows, leadingNumber? args = some (number, follows) →
      (written = wanted ↔ number.countP isNoShare ≤ 1 ∧ readsOn number follows = false)) ∧
    (∀ number follows, args.leadingBlanks ≠ [] → leadingNumber? args.trimStart = some (number, follows) →
      (imagesAfter follows).trim ≠ [] → written ≠ wanted) := by
  intro written wanted
  have hwritten : written = ("-webkit-cross-fade(" : Text) ++ shareCut args ++ ')' :: rest :=
    crossFadeWord_webkit hrest args
  have hiff : written = wanted ↔ shareCut args = shareMoved args := by
    rw [hwritten, List.append_cancel_right_eq, List.append_cancel_left_eq]
  rw [hiff]
  refine ⟨fun hnone => ?_, fun number follows h => ?_, fun number follows hblanks h himages => ?_⟩
  · rw [← shareCut_eq_self_iff, shareMoved, hnone]
  · rw [← shareCut_eq_iff h, shareMoved, trimStart_eq_self h, h]
  · have hne := shareCut_ne_of_blanks hblanks h himages
    have hmoved : shareMoved args = (imagesAfter follows).trim ++ ", " ++ withPercent number follows := by
      rw [shareMoved, h]
    rw [← hmoved] at hne
    exact mt hiff.1 hne

/-- The number before a picture is moved whole; a digit in the name of a picture takes the start of the arguments off. -/
theorem crossFadeWord_eq_shareMoved_iff_pictures :
    crossFadeWord "cross-fade" "-webkit-" "cross-fade(20% url(a.png), url(b.png))" =
        "-webkit-cross-fade(url(a.png), url(b.png), 20%)" ∧
      crossFadeWord "cross-fade" "-webkit-" "cross-fade(url(a1.png), url(b.png))" ≠
        "-webkit-cross-fade(url(a1.png), url(b.png), 0.5)" ∧
      crossFadeWord "cross-fade" "-webkit-" "cross-fade( 20% url(a.png), url(b.png))" ≠
        "-webkit-cross-fade(url(a.png), url(b.png), 20%)" := by
  have hrest : ')' ∉ ([] : Text) := List.not_mem_nil
  have h (args : Text) := crossFadeWord_eq_shareMoved_iff hrest args
  refine ⟨?_, ?_, ?_⟩
  · exact ((h "20% url(a.png), url(b.png)").2.1 "20" "% url(a.png), url(b.png)" (by decide)).2 ⟨by decide, by decide⟩
  · exact mt ((h "url(a1.png), url(b.png)").1 (by decide)).1 (by decide)
  · exact (h " 20% url(a.png), url(b.png)").2.2 "20" "% url(a.png), url(b.png)" (by decide) (by decide) (by decide)

end ValueDialect

end VendorCss
