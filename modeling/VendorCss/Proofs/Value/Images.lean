import VendorCss.Proofs.Text.Starts

/-!
# Quoted images in a set

A quoted image before a resolution becomes a `url(…)`. The closing quote then stands before a parenthesis and no longer
before a blank, so quotes before blanks (`Text.looseQuotes`) get fewer with every image (`IsWrapped.looseQuotes_lt`). What is
written around an image starts no word (`IsWrapped.starts_le`), and a word spelled in another way moves no quote
(`WordPattern.Respelled.looseQuotes_eq`).
-/

namespace VendorCss

/-- A quote of either kind. -/
def isQuote (c : Char) : Bool := c = '"' || c = '\''

theorem foldCase_of_isQuote {c : Char} (h : isQuote c = true) : foldCase c = c ∧ isNameChar c = false := by
  simp only [isQuote, Bool.or_eq_true, decide_eq_true_eq] at h
  rcases h with rfl | rfl <;> decide

theorem isQuote_of_isNameChar {c : Char} (h : isNameChar c = true) : isQuote c = false := by
  rw [← Bool.not_eq_true]
  intro hq
  rw [(foldCase_of_isQuote hq).2] at h
  cases h

theorem isDelimiter_of_isQuote {c : Char} (h : isQuote c = true) : WordPattern.isDelimiter c = false := by
  simp only [isQuote, Bool.or_eq_true, decide_eq_true_eq] at h
  rcases h with rfl | rfl <;> decide

theorem isBlank_of_isDelimiter_eq_false {c : Char} (h : WordPattern.isDelimiter c = false) : isBlank c = false := by
  simp only [WordPattern.isDelimiter, Bool.or_eq_false_iff] at h
  exact h.1.1

theorem isQuote_of_isBlank {c : Char} (h : isBlank c = true) : isQuote c = false := by
  rw [← Bool.not_eq_true]
  intro hq
  rw [isBlank_of_isDelimiter_eq_false (isDelimiter_of_isQuote hq)] at h
  cases h

namespace Text

variable {c : Char} {s t : Text}

theorem IsKeyword.avoids_isQuote {name : Text} (h : name.IsKeyword) : name.Avoids isQuote :=
  h.avoids fun _ => foldCase_of_isQuote

/-- The text starts with a blank. -/
def startsBlank (t : Text) : Bool := t.head?.any isBlank

/-- The number of quotes with a blank directly after them. -/
def looseQuotes : Text → Nat
  | [] => 0
  | c :: t => (if isQuote c && startsBlank t then 1 else 0) + looseQuotes t

theorem looseQuotes_cons (c : Char) (t : Text) :
    looseQuotes (c :: t) = (if isQuote c && startsBlank t then 1 else 0) + looseQuotes t := rfl

theorem looseQuotes_cons_of_not (h : isQuote c = false) : looseQuotes (c :: t) = looseQuotes t := by
  simp [looseQuotes, h]

theorem looseQuotes_append_of_forall (h : ∀ c ∈ s, isQuote c = false) : looseQuotes (s ++ t) = looseQuotes t := by
  induction s with
  | nil => rfl
  | cons c s ih =>
    rw [List.forall_mem_cons] at h
    rw [List.cons_append, looseQuotes_cons_of_not h.1, ih h.2]

/-- What comes before a character counts as it does before that character alone. -/
theorem looseQuotes_append_cons : looseQuotes (s ++ c :: t) = looseQuotes (s ++ [c]) + looseQuotes (c :: t) := by
  induction s with
  | nil => simp [looseQuotes, startsBlank]
  | cons d s ih =>
    have hhead : startsBlank (s ++ c :: t) = startsBlank (s ++ [c]) := by cases s <;> rfl
    rw [List.cons_append, List.cons_append, looseQuotes_cons d, looseQuotes_cons d, hhead, ih, Nat.add_assoc]

end Text

/-! ## Words -/

/-- Spelling words in another way moves no quote. -/
theorem WordPattern.Respelled.looseQuotes_eq {p : WordPattern} {new : Text → Text} {start : Bool} {t t' : Text}
    (h : p.Respelled new start t t') (hname : p.name.IsKeyword) (hnew : IsHyphenated new) :
    t'.startsBlank = t.startsBlank ∧ t'.looseQuotes = t.looseQuotes := by
  induction h with
  | nil => exact ⟨rfl, rfl⟩
  | copy _ ih => exact ⟨rfl, by rw [Text.looseQuotes, Text.looseQuotes, ih.1, ih.2]⟩
  | @word w t t' hw hend _ ih =>
    obtain ⟨s, hs, hchars⟩ := hnew w
    have hquotes := hname.avoids_isQuote.of_dropStartFolded? hw
    have hspelled : ∀ c ∈ new w, isQuote c = false := by
      rw [hs, List.forall_mem_cons]
      exact ⟨by decide, fun c hc => (hchars c hc).elim isQuote_of_isNameChar (hquotes c)⟩
    refine ⟨?_, ?_⟩
    · -- neither the hyphen nor the first letter of the word is a blank
      cases w with
      | nil =>
        obtain ⟨n, rest, hn, -⟩ := hname.head
        have hlength := Text.length_of_dropStartFolded? hw
        rw [hn, List.nil_append, List.length_cons] at hlength
        omega
      | cons c w =>
        have hc := isBlank_of_isDelimiter_eq_false
          (hname.avoids_isDelimiter.of_dropStartFolded? hw c List.mem_cons_self)
        rw [hs, Text.startsBlank, Text.startsBlank, List.cons_append, List.cons_append, List.head?_cons, List.head?_cons,
          Option.any_some, Option.any_some, hc]
        decide
    · rw [Text.looseQuotes_append_of_forall hspelled, Text.looseQuotes_append_of_forall hquotes]
      exact ih.2

namespace ValueDialect

/-! ## Images -/

/-- The second text is the first one with some quoted images before a blank as a `url(…)`. -/
inductive IsWrapped : Text → Text → Prop
  | nil : IsWrapped [] []
  | copy {c : Char} {t t' : Text} (h : IsWrapped t t') : IsWrapped (c :: t) (c :: t')
  | image {quote blank : Char} {inside t t' : Text} (hquote : isQuote quote = true) (hblank : isBlank blank = true)
      (h : IsWrapped t t') :
      IsWrapped (quote :: (inside ++ quote :: blank :: t)) ("url(" ++ quote :: (inside ++ quote :: ')' :: blank :: t'))

variable {s t t' new : Text} {n : Nat}

theorem url_eq : ("url(" : Text) = ['u', 'r', 'l', '('] := rfl

theorem IsWrapped.append_left (h : IsWrapped t t') : IsWrapped (s ++ t) (s ++ t') := by
  induction s with
  | nil => exact h
  | cons c s ih => exact .copy ih

/-- A resolution has a blank before it. -/
theorem exists_of_resolutionLength? (h : resolutionLength? t = some n) :
    ∃ blank rest, t = blank :: rest ∧ isBlank blank = true ∧ 0 < n ∧ n ≤ t.length := by
  unfold resolutionLength? at h
  dsimp only at h
  generalize hdigits : (t.drop t.leadingBlanks.length).takeWhile isDigit = digits at h
  have hlength : t.leadingBlanks.length + digits.length ≤ t.length := by
    have hle := List.Sublist.length_le (List.takeWhile_sublist isDigit (l := t.drop t.leadingBlanks.length))
    have hblanks := List.Sublist.length_le (List.takeWhile_sublist isBlank (l := t))
    rw [hdigits, List.length_drop] at hle
    unfold Text.leadingBlanks at hle ⊢
    omega
  split at h
  · cases h
  rename_i hsome
  cases t with
  | nil => simp [Text.leadingBlanks] at hsome
  | cons blank rest =>
    have hblank : isBlank blank = true := by
      by_cases hb : isBlank blank = true
      · exact hb
      · simp [Text.leadingBlanks, hb] at hsome
    have hpos : 0 < (Text.leadingBlanks (blank :: rest)).length := by simp [Text.leadingBlanks, hblank]
    refine ⟨blank, rest, rfl, hblank, ?_⟩
    split at h
    · rename_i hnext
      cases h
      have hlt : (Text.leadingBlanks (blank :: rest)).length + digits.length < (blank :: rest).length := by
        refine Nat.lt_of_not_le fun hge => ?_
        rw [List.drop_eq_nil_of_le hge] at hnext
        cases hnext
      omega
    · split at h
      · cases h
        omega
      · cases h

/-- The place of an image and what is written for it. -/
theorem exists_of_bareImagePlace {last : Option Char} (h : bareImagePlace last t = some (n, new)) :
    ∃ quote inside blank resolution rest, isQuote quote = true ∧ isBlank blank = true ∧
      t = quote :: (inside ++ quote :: blank :: resolution) ++ rest ∧
      n = (quote :: (inside ++ quote :: blank :: resolution)).length ∧
      new = "url(" ++ quote :: (inside ++ quote :: ')' :: blank :: resolution) := by
  cases t with
  | nil => cases h
  | cons quote t =>
    simp only [bareImagePlace] at h
    split at h
    · rename_i hquote
      rw [Bool.and_eq_true, decide_eq_true_eq] at hquote
      obtain ⟨length, hlength, hnew⟩ := Option.map_eq_some_iff.1 h
      obtain ⟨blank, rest, hafter, hblank, hpos, hle⟩ := exists_of_resolutionLength? hlength
      generalize hinside : t.takeWhile (· != quote) = inside at *
      have hclose : t = inside ++ quote :: blank :: rest := by
        have hsplit : inside ++ t.dropWhile (· != quote) = t := by
          rw [← hinside]
          exact List.takeWhile_append_dropWhile
        cases hclosing : t.dropWhile (· != quote) with
        | nil =>
          rw [hclosing, List.append_nil] at hsplit
          exact absurd hquote.2 (by rw [hsplit]; exact Nat.lt_irrefl _)
        | cons c closing =>
          have hc := List.head?_dropWhile_not (· != quote) t
          rw [hclosing] at hc
          obtain rfl : c = quote := by simpa using hc
          rw [hclosing] at hsplit
          rw [← hsplit, List.drop_append, List.drop_of_length_le (Nat.le_succ _), List.nil_append,
            Nat.add_sub_cancel_left, List.drop_succ_cons, List.drop_zero] at hafter
          rw [← hsplit, hafter]
      obtain ⟨m, rfl⟩ := Nat.exists_eq_add_of_lt hpos
      rw [Nat.zero_add] at hnew hle
      cases hnew
      rw [hafter, List.length_cons] at hle
      refine ⟨quote, inside, blank, rest.take m, rest.drop m, hquote.1, hblank, ?_, ?_, ?_⟩
      · rw [hclose]
        simp [List.take_append_drop]
      · simp
        omega
      · rw [hafter]
        simp
    · cases h

/-- Replacing the images wraps them. -/
theorem isWrapped_substitute (t : Text) : IsWrapped t (Text.substitute bareImagePlace t) := by
  suffices h : ∀ n t last, t.length < n → IsWrapped t (Text.substituteFrom bareImagePlace last 0 t) from
    h (t.length + 1) t none (Nat.lt_succ_self _)
  intro n
  induction n with
  | zero => exact fun t _ h => absurd h (Nat.not_lt_zero _)
  | succ n ih =>
    intro t last hlength
    cases hplace : bareImagePlace last t with
    | none =>
      cases t with
      | nil => exact .nil
      | cons c t =>
        rw [Text.substituteFrom, hplace]
        exact .copy (ih t (some c) (Nat.lt_of_succ_lt_succ hlength))
    | some place =>
      obtain ⟨length, new⟩ := place
      obtain ⟨quote, inside, blank, resolution, rest, hquote, hblank, rfl, rfl, rfl⟩ := exists_of_bareImagePlace hplace
      rw [Text.substituteFrom_place (List.cons_ne_nil _ _) hplace]
      have hrest : rest.length < n := by
        simp only [List.length_append, List.length_cons] at hlength
        omega
      have hresolution := (ih rest (quote :: (inside ++ quote :: blank :: resolution)).getLast? hrest).append_left
        (s := resolution)
      have hwrapped := @IsWrapped.image quote blank inside _ _ hquote hblank hresolution
      simpa only [List.cons_append, List.append_assoc] using hwrapped

/-- Around an image no blank appears and none goes. -/
theorem IsWrapped.startsBlank_eq (h : IsWrapped t t') : t'.startsBlank = t.startsBlank := by
  cases h with
  | nil | copy => rfl
  | image hquote =>
    have hnot := isBlank_of_isDelimiter_eq_false (isDelimiter_of_isQuote hquote)
    rw [url_eq, Text.startsBlank, Text.startsBlank, List.cons_append, List.head?_cons, List.head?_cons, Option.any_some,
      Option.any_some, hnot]
    decide

/-- Every image takes one quote away from before a blank. -/
theorem IsWrapped.looseQuotes_lt (h : IsWrapped t t') : t' = t ∨ t'.looseQuotes < t.looseQuotes := by
  induction h with
  | nil => exact .inl rfl
  | copy h ih =>
    refine ih.imp (fun h => by rw [h]) fun hlt => ?_
    rw [Text.looseQuotes, Text.looseQuotes, h.startsBlank_eq]
    omega
  | @image quote blank inside t t' hquote hblank h ih =>
    refine .inr ?_
    have hurl : ∀ c ∈ ("url(" : Text), isQuote c = false := by decide
    have hnotQuote := isQuote_of_isBlank hblank
    have hafter : Text.looseQuotes (quote :: ')' :: blank :: t') = t'.looseQuotes := by
      have hclose : Text.startsBlank (')' :: blank :: t') = false := by
        rw [Text.startsBlank, List.head?_cons, Option.any_some]
        decide
      rw [Text.looseQuotes_cons, hclose, Bool.and_false, Text.looseQuotes_cons_of_not (by decide),
        Text.looseQuotes_cons_of_not hnotQuote]
      exact Nat.zero_add _
    have hbefore : Text.looseQuotes (quote :: blank :: t) = 1 + t.looseQuotes := by
      have hopen : Text.startsBlank (blank :: t) = true := hblank
      rw [Text.looseQuotes_cons, hquote, hopen, Text.looseQuotes_cons_of_not hnotQuote]
      rfl
    have hsplit (t : Text) : Text.looseQuotes (quote :: (inside ++ quote :: t)) =
        Text.looseQuotes (quote :: inside ++ [quote]) + Text.looseQuotes (quote :: t) :=
      Text.looseQuotes_append_cons (s := quote :: inside)
    rw [Text.looseQuotes_append_of_forall hurl, hsplit, hsplit, hafter, hbefore]
    rcases ih with rfl | hlt
    · omega
    · omega

/-- Around an image no word of the name starts: it is written with other letters than `url`. -/
theorem IsWrapped.isHere {p : WordPattern} (h : IsWrapped t t') (hname : p.name.IsKeyword) (hu : 'u' ∉ p.name)
    (hcloses : p.closes 'u' = false) (hw : p.isHere t' = true) : p.isHere t = true := by
  obtain ⟨rest, hdrop, hend⟩ := WordPattern.isSome_here?_iff.1 hw
  refine WordPattern.isSome_here?_iff.2 ?_
  clear hw
  have hchars := hname.chars
  generalize p.name = name at hchars hu hdrop
  induction h generalizing name with
  | nil => exact ⟨rest, hdrop, hend⟩
  | @copy c t t' _ ih =>
    cases name with
    | nil =>
      obtain rfl : c :: t' = rest := Option.some.inj hdrop
      exact ⟨c :: t, rfl, hend⟩
    | cons n name =>
      rw [List.mem_cons, not_or] at hu
      rw [Text.dropStartFolded?] at hdrop ⊢
      split at hdrop
      · rename_i hfold
        rw [if_pos hfold]
        exact ih name (List.forall_mem_cons.1 hchars).2 hu.2 hdrop
      · cases hdrop
  | image =>
    cases name with
    | nil =>
      obtain rfl := Option.some.inj hdrop
      exact absurd (hend 'u' rfl) (by rw [hcloses]; decide)
    | cons n name =>
      rw [List.mem_cons, not_or] at hu
      have hfold : foldCase n ≠ foldCase 'u' := by
        rw [foldCase_of_isNameChar (hchars n List.mem_cons_self), foldCase_of_isNameChar (by decide)]
        exact Ne.symm hu.1
      rw [url_eq, List.cons_append, Text.dropStartFolded?, if_neg hfold] at hdrop
      cases hdrop

/-- What is written around images starts no word. -/
theorem IsWrapped.starts_le {p : WordPattern} (h : IsWrapped t t') (hname : p.name.IsKeyword) (hu : 'u' ∉ p.name)
    (hcloses : p.closes 'u' = false) (start : Bool) : p.starts start t' ≤ p.starts start t := by
  induction h generalizing start with
  | nil => exact Nat.le_refl _
  | @copy c t t' h ih =>
    have hadd := Text.starts_cons_add_le WordPattern.isDelimiter p.isHere start
      ((IsWrapped.copy (c := c) h).isHere hname hu hcloses)
    have hle := ih (WordPattern.isDelimiter c)
    unfold WordPattern.starts at hle ⊢
    omega
  | @image quote blank inside t t' hquote hblank h ih =>
    have hquotes (t : Text) : p.isHere (quote :: t) = false := by
      refine WordPattern.isHere_cons_of_ne hname (foldCase_of_isQuote hquote).1 fun hhead => ?_
      obtain ⟨rest, hrest⟩ := List.head?_eq_some_iff.1 hhead
      have hchar := hname.chars quote (hrest ▸ List.mem_cons_self)
      rw [(foldCase_of_isQuote hquote).2] at hchar
      cases hchar
    have hurl (t : Text) : p.isHere ('u' :: t) = false :=
      WordPattern.isHere_cons_of_ne hname (by decide) fun hhead => hu (List.mem_of_mem_head? hhead)
    have hplain := isDelimiter_of_isQuote hquote
    have hopens : WordPattern.isDelimiter blank = true := by simp [WordPattern.isDelimiter, hblank]
    have hafter (start : Bool) :
        p.starts start (quote :: ')' :: blank :: t') ≤ p.starts start (quote :: blank :: t) := by
      unfold WordPattern.starts at ih ⊢
      rw [Text.starts_cons_of_not (hquotes _), Text.starts_cons_of_not (hquotes _), hplain, Text.starts_false_cons,
        Text.starts_false_cons, show WordPattern.isDelimiter ')' = false by decide, Text.starts_false_cons, hopens]
      exact ih true
    have hinside : p.starts false (inside ++ quote :: ')' :: blank :: t') ≤
        p.starts false (inside ++ quote :: blank :: t) := by
      refine Text.starts_append_le (fun s hw => ?_) hafter
      exact WordPattern.isHere_of_sameUntil hname.avoids_isQuote (Text.SameUntil.append (.stop hquote)) hw
    unfold WordPattern.starts at hinside ⊢
    have hparen (t : Text) : Text.starts WordPattern.isDelimiter p.isHere false (['r', 'l', '('] ++ t) =
        Text.starts WordPattern.isDelimiter p.isHere true t := by
      simp [show WordPattern.isDelimiter 'r' = false by decide, show WordPattern.isDelimiter 'l' = false by decide,
        show WordPattern.isDelimiter '(' = true by decide]
    rw [url_eq, List.cons_append, Text.starts_cons_of_not (hurl _), show WordPattern.isDelimiter 'u' = false by decide,
      hparen, Text.starts_cons_of_not (hquotes _), Text.starts_cons_of_not (hquotes _), hplain]
    exact hinside

end ValueDialect

end VendorCss
