import VendorCss.Proofs.Text.Respelling

/-!
# Where words start

A word is looked for at the start of a text and after delimiters. `Text.starts` counts such places. A word spelled with a
vendor's prefix is no place of the word any more, and no new place comes up, since neither the prefix nor the word has a
delimiter inside: every replacement lowers the number of places (`WordPattern.Respelled.starts_lt`).
-/

namespace VendorCss

namespace Text

variable {opens : Char → Bool} {here : Text → Bool} {start : Bool} {c : Char} {s t t' : Text}

/-! ## Counting -/

/-- The number of places that `here` accepts, of those after a character that `opens` accepts; `start` says that the start
of the text is such a place too. -/
def starts (opens : Char → Bool) (here : Text → Bool) : (start : Bool) → Text → Nat
  | _, [] => 0
  | start, c :: t => (if start && here (c :: t) then 1 else 0) + starts opens here (opens c) t

@[simp] theorem starts_nil : starts opens here start [] = 0 := by
  cases start <;> rfl

@[simp] theorem starts_false_cons :
    starts opens here false (c :: t) = starts opens here (opens c) t := by
  simp [starts]

theorem starts_true_cons :
    starts opens here true (c :: t) = (if here (c :: t) then 1 else 0) + starts opens here (opens c) t := by
  simp [starts]

/-- A place that is not accepted does not count. -/
theorem starts_cons_of_not (h : here (c :: t) = false) :
    starts opens here start (c :: t) = starts opens here (opens c) t := by
  simp [starts, h]

/-- Nothing counts inside a text without openers. -/
theorem starts_false_append (hs : ∀ c ∈ s, opens c = false) :
    starts opens here false (s ++ t) = starts opens here false t := by
  induction s with
  | nil => rfl
  | cons c s ih =>
    rw [List.forall_mem_cons] at hs
    rw [List.cons_append, starts_false_cons, hs.1]
    exact ih hs.2

/-- One more character before both texts, where it starts nothing new before the second one. -/
theorem starts_cons_add_le (opens : Char → Bool) (here : Text → Bool) (start : Bool)
    (hhere : here (c :: t') = true → here (c :: t) = true) :
    starts opens here start (c :: t') + starts opens here (opens c) t ≤
      starts opens here start (c :: t) + starts opens here (opens c) t' := by
  cases start with
  | false =>
    rw [starts_false_cons, starts_false_cons]
    omega
  | true =>
    rw [starts_true_cons, starts_true_cons]
    by_cases h' : here (c :: t') = true
    · rw [if_pos h', if_pos (hhere h')]
      omega
    · rw [if_neg h']
      omega

/-- The start of a text may be one place more. -/
theorem starts_false_le : starts opens here false t ≤ starts opens here start t := by
  cases t with
  | nil => simp
  | cons c t =>
    rw [starts_false_cons, starts]
    omega

/-- A text before both texts, where it starts nothing new before the second one. -/
theorem starts_append_le (hhere : ∀ s, here (s ++ t') = true → here (s ++ t) = true)
    (h : ∀ start, starts opens here start t' ≤ starts opens here start t) :
    starts opens here start (s ++ t') ≤ starts opens here start (s ++ t) := by
  induction s generalizing start with
  | nil => exact h start
  | cons c s ih =>
    have hadd := @starts_cons_add_le c (s ++ t) (s ++ t') opens here start (hhere (c :: s))
    have hle := @ih (opens c)
    change starts opens here start (c :: (s ++ t')) ≤ starts opens here start (c :: (s ++ t))
    omega

/-! ## Texts that start alike -/

/-- Two texts that are the same up to the first character that `stop` accepts, this one included. -/
inductive SameUntil (stop : Char → Bool) : Text → Text → Prop
  | nil : SameUntil stop [] []
  | stop {c : Char} {t t' : Text} (hc : stop c = true) : SameUntil stop (c :: t) (c :: t')
  | cons {c : Char} {t t' : Text} (h : SameUntil stop t t') : SameUntil stop (c :: t) (c :: t')

theorem SameUntil.symm {stop : Char → Bool} (h : SameUntil stop t t') : SameUntil stop t' t := by
  induction h with
  | nil => exact .nil
  | stop hc => exact .stop hc
  | cons _ ih => exact .cons ih

theorem SameUntil.append {stop : Char → Bool} (h : SameUntil stop t t') : SameUntil stop (s ++ t) (s ++ t') := by
  induction s with
  | nil => exact h
  | cons c s ih => exact .cons ih

/-- No character that `stop` accepts is a letter of the name, in either case. -/
def Avoids (name : Text) (stop : Char → Bool) : Prop := ∀ c ∈ name, ∀ d, stop d = true → foldCase c ≠ foldCase d

end Text

/-! ## Letters -/

/-- Blanks have no case. -/
theorem foldCase_of_isBlank {c : Char} (h : isBlank c = true) : foldCase c = c := by
  have hall : ∀ n ∈ ([9, 10, 11, 12, 13, 0x20, 0x85, 0xA0, 0x1680, 0x2000, 0x2001, 0x2002, 0x2003, 0x2004, 0x2005,
      0x2006, 0x2007, 0x2008, 0x2009, 0x200A, 0x2028, 0x2029, 0x202F, 0x205F, 0x3000] : List Nat),
      foldCase (Char.ofNat n) = Char.ofNat n := by decide +kernel
  have hc := hall c.toNat (by
    simp only [isBlank, Bool.or_eq_true, Bool.and_eq_true, decide_eq_true_eq, beq_iff_eq] at h
    simp only [List.mem_cons, List.not_mem_nil, or_false]
    omega)
  rwa [Char.ofNat_toNat] at hc

/-- Delimiters have no case. -/
theorem foldCase_of_isDelimiter {c : Char} (h : WordPattern.isDelimiter c = true) : foldCase c = c := by
  simp only [WordPattern.isDelimiter, Bool.or_eq_true, beq_iff_eq] at h
  rcases h with (h | rfl) | rfl
  · exact foldCase_of_isBlank h
  · decide
  · decide

/-- A small letter or a hyphen. -/
def isNameChar (c : Char) : Bool := c == '-' || ('a' ≤ c && c ≤ 'z')

/-- What holds of the small letters and the hyphen among the first 128 characters holds of all of them. -/
theorem forall_of_isNameChar {P : Char → Prop}
    (h : ∀ n < 128, isNameChar (Char.ofNat n) = true → P (Char.ofNat n)) {c : Char} (hc : isNameChar c = true) : P c := by
  have hlt : c.toNat < 128 := by
    simp only [isNameChar, Bool.or_eq_true, beq_iff_eq, Bool.and_eq_true, decide_eq_true_eq] at hc
    rcases hc with rfl | ⟨-, hz⟩
    · decide
    · have hz : c.toNat ≤ 122 := hz
      omega
  have hP := h c.toNat hlt
  rw [Char.ofNat_toNat] at hP
  exact hP hc

theorem foldCase_of_isNameChar {c : Char} (h : isNameChar c = true) : foldCase c = c :=
  forall_of_isNameChar (P := fun c => foldCase c = c) (by decide) h

theorem isDelimiter_of_isNameChar {c : Char} (h : isNameChar c = true) : WordPattern.isDelimiter c = false :=
  forall_of_isNameChar (P := fun c => WordPattern.isDelimiter c = false) (by decide) h

namespace Text

/-- A name of small letters and hyphens that starts with a letter. -/
structure IsKeyword (name : Text) : Prop where
  chars : ∀ c ∈ name, isNameChar c = true
  head : ∃ c rest, name = c :: rest ∧ c ≠ '-'

instance (name : Text) : Decidable name.IsKeyword :=
  decidable_of_iff ((∀ c ∈ name, isNameChar c = true) ∧ name ≠ [] ∧ name.head? ≠ some '-') <| by
    constructor
    · rintro ⟨hchars, hne, hhead⟩
      obtain ⟨c, rest, rfl⟩ := List.exists_cons_of_ne_nil hne
      exact ⟨hchars, c, rest, rfl, fun h => hhead (congrArg some h)⟩
    · rintro ⟨hchars, c, rest, rfl, hc⟩
      exact ⟨hchars, List.cons_ne_nil _ _, fun h => hc (Option.some.inj h)⟩

namespace IsKeyword

variable {name s t r : Text} {stop : Char → Bool}

theorem ne_nil (h : name.IsKeyword) : name ≠ [] := by
  obtain ⟨c, rest, rfl, -⟩ := h.head
  exact List.cons_ne_nil c rest

/-- A keyword has no character that has no case and is none of its own. -/
theorem avoids (h : name.IsKeyword) (hstop : ∀ d, stop d = true → foldCase d = d ∧ isNameChar d = false) :
    name.Avoids stop := by
  intro c hc d hd heq
  obtain ⟨hfold, hd⟩ := hstop d hd
  rw [foldCase_of_isNameChar (h.chars c hc), hfold] at heq
  rw [← heq, h.chars c hc] at hd
  cases hd

theorem avoids_isDelimiter (h : name.IsKeyword) : name.Avoids WordPattern.isDelimiter := by
  refine h.avoids fun d hd => ⟨foldCase_of_isDelimiter hd, ?_⟩
  rw [← Bool.not_eq_true]
  intro hname
  rw [isDelimiter_of_isNameChar hname] at hd
  cases hd

end IsKeyword

variable {name : Text} {stop : Char → Bool}

/-- A name is not written with a character that it avoids. -/
theorem Avoids.of_dropStartFolded? (h : name.Avoids stop) (hw : dropStartFolded? name (s ++ t) = some t) :
    ∀ c ∈ s, stop c = false := by
  induction name generalizing s with
  | nil =>
    have hlength := congrArg List.length (Option.some.inj hw)
    rw [List.length_append] at hlength
    have hs : s = [] := List.eq_nil_of_length_eq_zero (by omega)
    rw [hs]
    exact fun _ hc => nomatch hc
  | cons n name ih =>
    cases s with
    | nil => exact fun _ hc => nomatch hc
    | cons c s =>
      rw [List.cons_append, dropStartFolded?] at hw
      split at hw
      · rename_i hfold
        refine List.forall_mem_cons.2 ⟨?_, ih (fun d hd => h d (List.mem_cons_of_mem n hd)) hw⟩
        rw [← Bool.not_eq_true]
        exact fun hc => h n List.mem_cons_self c hc hfold
      · cases hw

end Text

/-! ## Words -/

namespace WordPattern

variable {p : WordPattern} {new : Text → Text} {stop : Char → Bool} {start : Bool} {t t' : Text}

/-- A word stands at the start of a text. -/
def isHere (p : WordPattern) (t : Text) : Bool := (p.here? [] t).isSome

/-- The number of places of a word in a text; `start` says that one may start here. -/
def starts (p : WordPattern) : (start : Bool) → Text → Nat := Text.starts isDelimiter p.isHere

/-- Whether a word stands at the start of a text is settled before the first character that its name avoids. -/
theorem isHere_of_sameUntil (hname : p.name.Avoids stop) (h : Text.SameUntil stop t t') (hw : p.isHere t = true) :
    p.isHere t' = true := by
  obtain ⟨rest, hdrop, hend⟩ := isSome_here?_iff.1 hw
  refine isSome_here?_iff.2 ?_
  clear hw
  generalize p.name = name at hname hdrop
  induction h generalizing name with
  | nil => exact ⟨rest, hdrop, hend⟩
  | @stop c t t' hc =>
    cases name with
    | nil =>
      obtain rfl : c :: t = rest := Option.some.inj hdrop
      exact ⟨c :: t', rfl, hend⟩
    | cons n name =>
      rw [Text.dropStartFolded?, if_neg (hname n List.mem_cons_self c hc)] at hdrop
      cases hdrop
  | @cons c t t' _ ih =>
    cases name with
    | nil =>
      obtain rfl : c :: t = rest := Option.some.inj hdrop
      exact ⟨c :: t', rfl, hend⟩
    | cons n name =>
      rw [Text.dropStartFolded?] at hdrop ⊢
      split at hdrop
      · rename_i hfold
        rw [if_pos hfold]
        exact ih name (fun d hd => hname d (List.mem_cons_of_mem n hd)) hdrop
      · cases hdrop

/-- No word starts with another character than its name. -/
theorem isHere_cons_of_ne (hname : p.name.IsKeyword) {c : Char} (hc : foldCase c = c) (h : p.name.head? ≠ some c) :
    p.isHere (c :: t) = false := by
  obtain ⟨n, rest, hn, -⟩ := hname.head
  have hchar := hname.chars n (hn ▸ List.mem_cons_self)
  have hne : foldCase n ≠ foldCase c := by
    rw [foldCase_of_isNameChar hchar, hc]
    rintro rfl
    exact h (by rw [hn]; rfl)
  rw [isHere, here?, hn, Text.dropStartFolded?, if_neg hne]
  rfl

/-- What words are replaced by starts with a hyphen, and has small letters, hyphens and the characters of the word. -/
def IsHyphenated (new : Text → Text) : Prop :=
  ∀ w, ∃ s, new w = '-' :: s ∧ ∀ c ∈ s, isNameChar c = true ∨ c ∈ w

/-- Where no word may start, the texts stay the same up to the next delimiter. -/
theorem Respelled.sameUntil (h : p.Respelled new false t t') : Text.SameUntil isDelimiter t t' := by
  generalize hstart : false = start at h
  induction h with
  | nil => exact .nil
  | @copy start c t t' _ ih =>
    cases hc : isDelimiter c with
    | true => exact .stop hc
    | false => exact .cons (ih hc.symm)
  | word => cases hstart

/-- Words that are replaced are no words any more, and no other comes up. -/
theorem Respelled.starts_lt (h : p.Respelled new start t t') (hname : p.name.IsKeyword) (hnew : IsHyphenated new) :
    t' = t ∨ p.starts start t' < p.starts start t := by
  induction h with
  | nil => exact .inl rfl
  | @copy start c t t' h ih =>
    rcases ih with rfl | hlt
    · exact .inl rfl
    refine .inr ?_
    unfold WordPattern.starts at hlt ⊢
    cases hc : isDelimiter c with
    | true =>
      -- a delimiter starts no word
      have hnot (t : Text) : p.isHere (c :: t) = false := by
        refine isHere_cons_of_ne hname (foldCase_of_isDelimiter hc) fun hhead => ?_
        obtain ⟨n, rest, hn, -⟩ := hname.head
        rw [hn] at hhead
        obtain rfl : n = c := Option.some.inj hhead
        rw [isDelimiter_of_isNameChar (hname.chars n (hn ▸ List.mem_cons_self))] at hc
        cases hc
      rwa [Text.starts_cons_of_not (hnot t), Text.starts_cons_of_not (hnot t')]
    | false =>
      rw [hc] at h hlt
      have hhere : p.isHere (c :: t') = true → p.isHere (c :: t) = true :=
        isHere_of_sameUntil hname.avoids_isDelimiter (.cons h.sameUntil.symm)
      have hadd := Text.starts_cons_add_le isDelimiter p.isHere start hhere
      rw [hc] at hadd
      omega
  | @word w t t' hw hend h ih =>
    refine .inr ?_
    obtain ⟨s, hs, hchars⟩ := hnew w
    have hwritten := hname.avoids_isDelimiter.of_dropStartFolded? hw
    have hspelled : ∀ c ∈ s, isDelimiter c = false := fun c hc =>
      (hchars c hc).elim isDelimiter_of_isNameChar (hwritten c)
    have hold : p.starts true (w ++ t) = 1 + p.starts false t := by
      have hhere : p.isHere (w ++ t) = true := isSome_here?_iff.2 ⟨t, hw, hend⟩
      cases w with
      | nil =>
        obtain ⟨n, rest, hn, -⟩ := hname.head
        have hlength := Text.length_of_dropStartFolded? hw
        rw [hn, List.nil_append, List.length_cons] at hlength
        omega
      | cons c w =>
        rw [List.forall_mem_cons] at hwritten
        rw [List.cons_append] at hhere ⊢
        rw [starts, Text.starts_true_cons, if_pos hhere, hwritten.1, Text.starts_false_append hwritten.2]
    have hafter : p.starts true (new w ++ t') = p.starts false t' := by
      have hhyphen : p.name.head? ≠ some '-' := by
        obtain ⟨n, rest, hn, hne⟩ := hname.head
        rw [hn]
        exact fun h => hne (Option.some.inj h)
      rw [hs, List.cons_append, starts, Text.starts_cons_of_not (isHere_cons_of_ne hname (by decide) hhyphen)]
      exact Text.starts_false_append hspelled
    rw [hold, hafter]
    rcases ih with rfl | hlt
    · omega
    · omega

end WordPattern

end VendorCss
