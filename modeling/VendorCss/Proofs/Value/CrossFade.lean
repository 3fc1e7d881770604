import Mathlib.Algebra.GroupWithZero.Nat
import VendorCss.Proofs.Separated
import VendorCss.Proofs.Text.Starts

/-!
# Cross-fades

The words of a value that are cross-fades get their prefix one after the other, and the words come together again with one
space between neighbours. A word that got its prefix starts with `cross-fade(` no more, and its arguments have no such word
that they did not have before, so there are fewer of them (`crossFades_lt`). Where no word changes, the spaces between the
words may: a line feed or a tab becomes a space, and blanks at the ends of words go (`join_items`).
-/

namespace VendorCss

namespace Text

variable {opens : Char → Bool} {start : Bool} {needle s t : Text} {c : Char}

theorem startsWith_iff : startsWith t s = true ↔ s <+: t := by
  constructor
  · intro h
    obtain ⟨r, hr⟩ := Option.isSome_iff_exists.1 h
    exact ⟨r, (dropStart?_eq_some hr).symm⟩
  · rintro ⟨r, rfl⟩
    rw [startsWith, dropStart?_append]
    rfl

/-! ## Places of a needle -/

/-- The places of a needle in a text, of those at the start and after blanks. -/
def needles (needle : Text) : (start : Bool) → Text → Nat := starts isBlank (startsWith · needle)

/-- A needle that starts here ends before a character that it does not have. -/
theorem startsWith_append_cons (hc : c ∉ needle) : startsWith (s ++ c :: t) needle = startsWith s needle := by
  rw [Bool.eq_iff_iff, startsWith_iff, startsWith_iff]
  constructor
  · intro h
    by_cases hlength : needle.length ≤ s.length
    · exact List.prefix_of_prefix_length_le h (List.prefix_append _ _) hlength
    · have hlonger : s ++ [c] <+: needle := by
        refine List.prefix_of_prefix_length_le (⟨t, by simp⟩ : s ++ [c] <+: s ++ c :: t) h ?_
        rw [List.length_append, List.length_singleton]
        omega
      exact absurd (hlonger.subset (by simp)) hc
  · exact fun h => h.trans (List.prefix_append _ _)

theorem startsWith_cons_of_notMem (hneedle : needle ≠ []) (hc : c ∉ needle) : startsWith (c :: t) needle = false := by
  have h := startsWith_append_cons (s := []) (t := t) hc
  rw [List.nil_append] at h
  rw [h]
  obtain ⟨d, rest, rfl⟩ := List.exists_cons_of_ne_nil hneedle
  rfl

/-- A character that the needle does not have parts its places. -/
theorem needles_append_cons (hneedle : needle ≠ []) (hc : c ∉ needle) :
    needles needle start (s ++ c :: t) = needles needle start s + needles needle (isBlank c) t := by
  unfold needles
  induction s generalizing start with
  | nil =>
    have hnot : startsWith (c :: t) needle = false := startsWith_cons_of_notMem hneedle hc
    rw [List.nil_append, starts_nil, Nat.zero_add]
    exact starts_cons_of_not hnot
  | cons d s ih =>
    have hhere : startsWith (d :: (s ++ c :: t)) needle = startsWith (d :: s) needle :=
      startsWith_append_cons (s := d :: s) hc
    rw [List.cons_append, starts, starts, ih, hhere, Nat.add_assoc]

/-- There are no more places at the start of a text than in the whole text. -/
theorem needles_prefix (needle : Text) (start : Bool) (s t : Text) :
    needles needle start s ≤ needles needle start (s ++ t) := by
  unfold needles
  induction s generalizing start with
  | nil => simp
  | cons c s ih =>
    have hhere : startsWith (c :: s) needle = true → startsWith (c :: (s ++ t)) needle = true := fun h =>
      startsWith_iff.2 ((startsWith_iff.1 h).trans (List.prefix_append (c :: s) t))
    have hle := @ih (isBlank c)
    have hadd := starts_cons_add_le isBlank (startsWith · needle) start hhere
    rw [List.cons_append]
    omega

/-- There are no more places at the end of a text than in the whole text. -/
theorem needles_suffix (needle : Text) (start : Bool) (s t : Text) :
    needles needle false t ≤ needles needle start (s ++ t) := by
  unfold needles
  induction s generalizing start with
  | nil => exact starts_false_le
  | cons c s ih =>
    have hle := @ih (isBlank c)
    rw [List.cons_append, starts]
    omega

/-- A needle after blanks at the start of a text counts before they go, too. -/
theorem needles_trimStart (t : Text) :
    needles needle true t.trimStart ≤ needles needle true t := by
  induction t with
  | nil => exact Nat.le_refl _
  | cons c t ih =>
    by_cases hc : isBlank c = true
    · rw [trimStart, List.dropWhile_cons_of_pos hc]
      refine Nat.le_trans ih ?_
      rw [needles, starts, hc]
      omega
    · rw [trimStart, List.dropWhile_cons_of_neg hc]

theorem needles_trimEnd (t : Text) : needles needle start t.trimEnd ≤ needles needle start t := by
  have h := needles_prefix needle start t.trimEnd t.trailingBlanks
  rwa [trimEnd_append_trailingBlanks] at h

/-- A needle has no place in a text that does not hold it. -/
theorem needles_eq_zero (h : ¬needle <:+: t) : needles needle start t = 0 := by
  unfold needles
  induction t generalizing start with
  | nil => exact starts_nil
  | cons c t ih =>
    have hhere : startsWith (c :: t) needle = false := by
      rw [← Bool.not_eq_true]
      exact fun hstart => h (startsWith_iff.1 hstart).isInfix
    rw [starts_cons_of_not hhere]
    exact ih fun hheld => h (hheld.trans (List.suffix_cons c t).isInfix)

/-- A needle at the start counts, and what follows it is not after a blank. -/
theorem needles_self_append (hneedle : needle ≠ []) (hblank : ∀ c ∈ needle, isBlank c = false) (t : Text) :
    needles needle true (needle ++ t) = 1 + needles needle false t := by
  have hhere : startsWith (needle ++ t) needle = true := startsWith_iff.2 (List.prefix_append _ _)
  have hrest : needles needle false (needle ++ t) = needles needle false t := starts_false_append hblank
  obtain ⟨c, rest, hcons⟩ := List.exists_cons_of_ne_nil hneedle
  rw [← hrest]
  unfold needles
  rw [hcons] at hhere ⊢
  rw [List.cons_append] at hhere ⊢
  rw [starts_true_cons, if_pos hhere, starts_false_cons]

/-- A text without blanks that starts in another way than the needle has no place of it, and what follows is not after a
blank. -/
theorem needles_cons_append (needle : Text) (start : Bool) (hhead : needle.head? ≠ some c)
    (hneedle : needle ≠ []) (hc : isBlank c = false) (hs : ∀ d ∈ s, isBlank d = false) (t : Text) :
    needles needle start (c :: s ++ t) = needles needle false t := by
  have hnot : startsWith (c :: (s ++ t)) needle = false := by
    obtain ⟨d, rest, rfl⟩ := List.exists_cons_of_ne_nil hneedle
    have hne : d ≠ c := fun h => hhead (congrArg some h)
    rw [startsWith, dropStart?, if_neg hne]
    rfl
  rw [needles, List.cons_append, starts_cons_of_not hnot, hc]
  exact starts_false_append hs

/-- Words joined by spaces have their places next to each other. -/
theorem needles_join (hneedle : needle ≠ []) (hspace : ' ' ∉ needle) (ws : List Text) :
    needles needle true (join " " ws) = (ws.map (needles needle true)).sum := by
  induction ws with
  | nil => rfl
  | cons w ws ih =>
    cases ws with
    | nil => simp [join]
    | cons w' ws =>
      have hjoin : join " " (w :: w' :: ws) = w ++ ' ' :: join " " (w' :: ws) := List.append_assoc w [' '] _
      rw [hjoin, needles_append_cons hneedle hspace, List.map_cons, List.sum_cons, ← ih]
      rfl

/-! ## Extent -/

/-- The length of a text, where everything but a space counts twice. -/
def extent (t : Text) : Nat := (t.map fun c => if c = ' ' then 1 else 2).sum

theorem extent_append (s t : Text) : extent (s ++ t) = extent s + extent t := by
  simp [extent]

theorem extent_pos (h : t ≠ []) : 0 < extent t := by
  obtain ⟨c, t, rfl⟩ := List.exists_cons_of_ne_nil h
  rw [extent, List.map_cons, List.sum_cons]
  split <;> omega

/-- What is taken off at the ends makes a text smaller. -/
theorem extent_trim (t : Text) : t.trim = t ∨ extent t.trim < extent t := by
  have hstart : extent t = extent t.leadingBlanks + extent t.trimStart := by
    rw [← extent_append, leadingBlanks_append_trimStart]
  have hend : extent t.trimStart = extent t.trim + extent t.trimStart.trailingBlanks := by
    rw [← extent_append]
    exact congrArg extent (trimEnd_append_trailingBlanks t.trimStart).symm
  by_cases hleading : t.leadingBlanks = []
  · have htrimStart : t.trimStart = t := by
      have h := leadingBlanks_append_trimStart t
      rwa [hleading] at h
    by_cases htrailing : t.trailingBlanks = []
    · left
      have h := trimEnd_append_trailingBlanks t
      rw [htrailing, List.append_nil] at h
      rw [trim, htrimStart, h]
    · right
      have hpos := extent_pos htrailing
      rw [htrimStart] at hend
      omega
  · right
    have hpos := extent_pos hleading
    omega

end Text

/-! ## Items -/

namespace Separated

open Text (needles extent)

variable {separators : List Char} {scan : Scan} {needle current t : Text} {c : Char}

/-- The places of a needle are in the items, if blanks separate them. -/
theorem sum_needles_items_le (hneedle : needle ≠ []) (hblank : ∀ c ∈ needle, isBlank c = false)
    (hseparators : ∀ c ∈ separators, isBlank c = true) :
    ((items false (cut separators scan current t)).map (needles needle true)).sum ≤
      needles needle true (current ++ t) := by
  have htrim (s : Text) : needles needle true s.trim ≤ needles needle true s :=
    Nat.le_trans (Text.needles_trimEnd _) (Text.needles_trimStart s)
  induction t generalizing scan current with
  | nil =>
    rw [cut, items_singleton, List.append_nil]
    split
    · exact Nat.zero_le _
    · rw [List.map_singleton, List.sum_singleton]
      exact htrim current
  | cons c t ih =>
    rw [cut]
    dsimp only
    split
    · rename_i hseparates
      have hc := hseparators c (mem_of_step hseparates)
      have hnot : c ∉ needle := fun hmem => by
        rw [hblank c hmem] at hc
        cases hc
      have hrest := @ih (scan.step separators c).1 []
      rw [List.nil_append] at hrest
      rw [items_cons cut_ne_nil, Text.needles_append_cons hneedle hnot, hc]
      split
      · omega
      · have hcurrent := htrim current
        rw [List.map_cons, List.sum_cons]
        omega
    · have hrest := @ih (scan.step separators c).1 (current ++ [c])
      rwa [List.append_assoc] at hrest

/-- Items joined again are the text that was cut, or smaller. -/
theorem join_items : Text.join " " (items false (cut separators scan current t)) = current ++ t ∨
    extent (Text.join " " (items false (cut separators scan current t))) < extent (current ++ t) := by
  induction t generalizing scan current with
  | nil =>
    rw [cut, items_singleton, List.append_nil]
    split
    · rename_i hempty
      rw [List.isEmpty_iff.1 hempty]
      exact .inl rfl
    · exact Text.extent_trim current
  | cons c t ih =>
    rw [cut]
    dsimp only
    split
    · have hrest := @ih (scan.step separators c).1 []
      rw [items_cons cut_ne_nil]
      generalize items false (cut separators (scan.step separators c).1 [] t) = rest at hrest ⊢
      have hc : extent (c :: t) = (if c = ' ' then 1 else 2) + extent t := by
        rw [extent, List.map_cons, List.sum_cons]
        rfl
      have hle : extent (Text.join " " rest) ≤ extent t := by
        rcases hrest with heq | hlt
        · exact Nat.le_of_eq (congrArg extent heq)
        · exact Nat.le_of_lt hlt
      rw [Text.extent_append, hc]
      split
      · -- an empty piece goes with its separator
        right
        split <;> omega
      · have hspace : Text.join " " (current.trim :: rest) =
            if rest = [] then current.trim else current.trim ++ ' ' :: Text.join " " rest := by
          cases rest with
          | nil => rfl
          | cons r rest => exact List.append_assoc current.trim [' '] _
        rw [hspace]
        split
        · right
          have hpos : 0 < if c = ' ' then 1 else 2 := by split <;> omega
          rcases Text.extent_trim current with heq | hlt
          · rw [heq]
            omega
          · omega
        · have hextent : extent (current.trim ++ ' ' :: Text.join " " rest) =
              extent current.trim + (1 + extent (Text.join " " rest)) := by
            rw [Text.extent_append]
            rfl
          rw [hextent]
          rcases Text.extent_trim current with htrim | hlt
          · by_cases hblank : c = ' '
            · rw [if_pos hblank, htrim, hblank]
              refine hrest.imp (fun h => ?_) fun h => ?_
              · rw [h]
                rfl
              · rw [List.nil_append] at h
                omega
            · right
              rw [if_neg hblank, htrim]
              omega
          · right
            split <;> omega
    · have hrest := @ih (scan.step separators c).1 (current ++ [c])
      rwa [List.append_assoc] at hrest

end Separated

namespace ValueDialect

open Text (needles extent)

variable {planned word t : Text}

/-! ## Words -/

/-- What a cross-fade starts with. -/
def crossFadeNeedle : Text := "cross-fade("

/-- Neither a digit nor a percent sign. -/
def isNoShare (c : Char) : Bool := !(isDigit c || c = '%')

/-- A percent sign after the start of a text is no matter. -/
theorem countP_withPercent (t : Text) (n : Nat) :
    (t.take (if (t.drop n).head? = some '%' then n + 1 else n)).countP isNoShare = (t.take n).countP isNoShare := by
  split
  · rename_i hpercent
    rw [List.head?_drop] at hpercent
    rw [List.take_add_one, hpercent, List.countP_append]
    rfl
  · rfl

/-- The part of a cross-fade has at most one character that is neither a digit nor a percent sign. -/
theorem countP_of_shareText? {share : Text} (h : shareText? t = some share) : share.countP isNoShare ≤ 1 := by
  have hdigits (t : Text) : (t.takeWhile isDigit).countP isNoShare = 0 := by
    rw [List.countP_eq_zero]
    intro c hc
    rw [isNoShare, List.mem_takeWhile_imp hc, Bool.true_or]
    decide
  have hsplit : t = t.takeWhile isDigit ++ t.dropWhile isDigit := List.takeWhile_append_dropWhile.symm
  have hzero := hdigits t
  unfold shareText? at h
  dsimp only at h
  generalize t.takeWhile isDigit = digits at hsplit h hzero
  have hrest : t.drop digits.length = t.dropWhile isDigit := by
    conv_lhs => rw [hsplit]
    exact List.drop_left
  rw [hrest] at h
  split at h
  · rename_i c more hmore
    rw [hmore] at hsplit
    split at h
    · have hfurther : more = more.takeWhile isDigit ++ more.dropWhile isDigit := List.takeWhile_append_dropWhile.symm
      have hzero' := hdigits more
      cases h
      rw [countP_withPercent]
      generalize more.takeWhile isDigit = further at hfurther hzero' ⊢
      have htake : t.take (digits.length + 1 + further.length) = digits ++ c :: further := by
        rw [hsplit, hfurther]
        have hlength : digits.length + 1 + further.length = (digits ++ c :: further).length := by
          rw [List.length_append, List.length_cons]
          omega
        rw [hlength, ← List.cons_append, ← List.append_assoc]
        exact List.take_left
      rw [htake, List.countP_append, hzero, List.countP_cons, hzero']
      split <;> omega
    · split at h
      · cases h
      · cases h
        have htake : t.take digits.length = digits := by
          conv_lhs => rw [hsplit]
          exact List.take_left
        rw [← hrest, countP_withPercent, htake, hzero]
        exact Nat.zero_le 1
  · rename_i hnil
    split at h
    · cases h
    · cases h
      rw [hnil, List.append_nil] at hsplit
      rw [hsplit, hzero]
      exact Nat.zero_le 1

/-- The part of a cross-fade holds no other cross-fade. -/
theorem needles_of_shareText? {share : Text} (h : shareText? t = some share) (start : Bool) :
    needles crossFadeNeedle start share = 0 := by
  refine Text.needles_eq_zero fun hheld => ?_
  have hcount := hheld.sublist.countP_le (p := isNoShare)
  have hshare := countP_of_shareText? h
  have hneedle : crossFadeNeedle.countP isNoShare = 11 := by decide
  omega

theorem findShare?_eq_some {share : Text} (h : findShare? t = some share) : ∃ s, shareText? s = some share := by
  induction t with
  | nil => cases h
  | cons c t ih =>
    rw [findShare?, Option.or_eq_some_iff] at h
    rcases h with h | ⟨-, h⟩
    · exact ⟨_, h⟩
    · exact ih h

theorem dropBytes_suffix (n : Nat) (t : Text) : dropBytes n t <:+ t := by
  fun_induction dropBytes n t with
  | case1 t => exact List.suffix_rfl
  | case2 => exact List.nil_suffix
  | case3 n c t hn hle ih => exact ih.trans (List.suffix_cons c t)
  | case4 => exact List.nil_suffix

/-- Arguments with their share last hold no cross-fade that they did not hold before. -/
theorem needles_shareLast (args : Text) :
    needles crossFadeNeedle false (match findShare? args with
      | some share => (dropBytes share.byteLength args).trim ++ ", " ++ share
      | none => args ++ ", 0.5") ≤ needles crossFadeNeedle false args := by
  have hcomma (s t : Text) : needles crossFadeNeedle false (s ++ ", " ++ t) =
      needles crossFadeNeedle false s + needles crossFadeNeedle true t := by
    rw [show s ++ (", " : Text) ++ t = s ++ ',' :: ([] ++ ' ' :: t) by simp,
      Text.needles_append_cons (by decide) (by decide), Text.needles_append_cons (by decide) (by decide)]
    simp [Text.needles, isBlank]
  cases hshare : findShare? args with
  | none =>
    have hshort : ¬crossFadeNeedle <:+: ("0.5" : Text) := fun h => absurd h.length_le (by decide)
    have hshare := hcomma args "0.5"
    rw [Text.needles_eq_zero hshort, List.append_assoc] at hshare
    exact Nat.le_of_eq hshare
  | some share =>
    obtain ⟨s, hs⟩ := findShare?_eq_some hshare
    dsimp only
    rw [hcomma, needles_of_shareText? hs, Nat.add_zero]
    refine Nat.le_trans (Text.needles_trimEnd _) ?_
    obtain ⟨before, hbefore⟩ := (Text.trimStart_suffix _).trans (dropBytes_suffix share.byteLength args)
    have hsuffix := Text.needles_suffix crossFadeNeedle false before
      (dropBytes share.byteLength args).trimStart
    rwa [hbefore] at hsuffix

/-- A word that gets its prefix is no cross-fade any more, and its arguments have none that they did not have. -/
theorem crossFadeWord_eq_or_lt (hplanned : planned ∈ Vendor.known) (word : Text) :
    crossFadeWord "cross-fade" planned word = word ∨
      needles crossFadeNeedle true (crossFadeWord "cross-fade" planned word) <
        needles crossFadeNeedle true word := by
  unfold crossFadeWord
  cases hinner : Text.dropStart? (("cross-fade" : Text) ++ ['(']) word with
  | none => exact .inl rfl
  | some inner =>
    right
    obtain rfl : word = crossFadeNeedle ++ inner := Text.dropStart?_eq_some hinner
    have hparen (s t : Text) (start : Bool) : needles crossFadeNeedle start (s ++ ')' :: t) =
        needles crossFadeNeedle start s + needles crossFadeNeedle false t :=
      Text.needles_append_cons (by decide) (by decide)
    have hold : needles crossFadeNeedle true (crossFadeNeedle ++ inner) = 1 + needles crossFadeNeedle false inner :=
      Text.needles_self_append (by decide) (by decide) inner
    have hprefixed (args : Text) : needles crossFadeNeedle true (planned ++ ("cross-fade" : Text) ++ '(' :: args) =
        needles crossFadeNeedle false args := by
      have hall : ∀ planned ∈ Vendor.known, planned.head? = some '-' ∧
          ∀ c ∈ (planned ++ ("cross-fade" : Text) ++ ['(']).tail, isBlank c = false := by decide
      obtain ⟨hhead, htail⟩ := hall planned hplanned
      obtain ⟨s, rfl⟩ := List.head?_eq_some_iff.1 hhead
      have h := Text.needles_cons_append crossFadeNeedle true (c := '-') (by decide) (by decide)
        (by decide) htail args
      simpa only [List.cons_append, List.append_assoc, List.tail_cons, List.nil_append] using h
    obtain ⟨args, after, hsplit, hinside⟩ : ∃ args after, (Text.splitLast ")" inner).getD (inner, []) = (args, after) ∧
        needles crossFadeNeedle false inner =
          needles crossFadeNeedle false args + needles crossFadeNeedle false after := by
      cases hlast : Text.splitLast ")" inner with
      | none => exact ⟨inner, [], rfl, (Nat.add_zero _).symm⟩
      | some parts =>
        obtain ⟨args, after⟩ := parts
        refine ⟨args, after, rfl, ?_⟩
        rw [Text.splitLast_eq_some hlast, List.append_assoc]
        exact hparen args after false
    dsimp only
    rw [hsplit, hold, hinside]
    dsimp only
    rw [hparen, hprefixed]
    split
    · refine Nat.lt_of_le_of_lt (Nat.add_le_add_right (needles_shareLast args) _) ?_
      omega
    · omega

/-- One step: there are fewer cross-fades, or as many in a smaller text, or the text stays. -/
theorem crossFades_lt (hplanned : planned ∈ Vendor.known) (value : Text) :
    let next := Text.join " " ((Separated.bySpace value).map (crossFadeWord "cross-fade" planned))
    next = value ∨ Prod.Lex (· < ·) (· < ·) (needles crossFadeNeedle true next, extent next)
      (needles crossFadeNeedle true value, extent value) := by
  have hitems : ((Separated.bySpace value).map (needles crossFadeNeedle true)).sum ≤
      needles crossFadeNeedle true ([] ++ value) :=
    Separated.sum_needles_items_le (by decide) (by decide) (by decide)
  have hjoin (ws : List Text) : needles crossFadeNeedle true (Text.join " " ws) =
      (ws.map (needles crossFadeNeedle true)).sum := Text.needles_join (by decide) (by decide) ws
  have hwords (ws : List Text) : ws.map (crossFadeWord "cross-fade" planned) = ws ∨
      ((ws.map (crossFadeWord "cross-fade" planned)).map (needles crossFadeNeedle true)).sum <
        (ws.map (needles crossFadeNeedle true)).sum := by
    induction ws with
    | nil => exact .inl rfl
    | cons w ws ih =>
      simp only [List.map_cons, List.sum_cons, List.cons.injEq]
      rcases crossFadeWord_eq_or_lt hplanned w with hw | hw
      · rw [hw]
        refine ih.imp (fun h => ⟨rfl, h⟩) fun h => ?_
        omega
      · right
        rcases ih with h | h
        · rw [h]
          omega
        · omega
  intro next
  rw [List.nil_append] at hitems
  rcases hwords (Separated.bySpace value) with hsame | hfewer
  · have hnext : next = Text.join " " (Separated.bySpace value) := congrArg (Text.join " ") hsame
    rw [hnext]
    have hle : needles crossFadeNeedle true (Text.join " " (Separated.bySpace value)) ≤
        needles crossFadeNeedle true value := by
      rw [hjoin]
      exact hitems
    have hjoined : Text.join " " (Separated.bySpace value) = value ∨
        extent (Text.join " " (Separated.bySpace value)) < extent value := Separated.join_items
    refine hjoined.imp id fun hsmaller => ?_
    rcases Nat.lt_or_eq_of_le hle with hlt | heq
    · exact .left _ _ hlt
    · rw [heq]
      exact .right _ hsmaller
  · right
    refine .left _ _ (Nat.lt_of_lt_of_le ?_ hitems)
    rw [hjoin]
    exact hfewer

end ValueDialect

end VendorCss
