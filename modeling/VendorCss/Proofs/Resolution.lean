import Mathlib.Data.List.Infix
import VendorCss.Dialect.Resolution
import VendorCss.Proofs.PlannedNames
import VendorCss.Proofs.Separated
import VendorCss.Proofs.Text.Starts

/-!
# Queries of vendors, written and taken away

A query in the words of a vendor is the query with ratios in the place of its bounds on the resolution (`InWordsOf`,
`inWordsOf_forVendor`). A bound and a ratio are phrases, without marks and with no blank at an end; so the query is
still closed, has its commas where they were, and is still one query when it is joined with others and cut again.

It is the query itself where nothing was put in its place, and names a ratio of the vendor where something was. Queries
that name ratios of outdated vendors are taken away (`SpeaksTo`), whoever wrote them. So queries that name no ratio come
back as they were, after queries of vendors are written before them and taken away again
(`exists_dropQueries_addQueries`). What stands between them afterwards is the first comma of the new params: where the
first query holds a comma of its own, in quotes or parentheses or after a backslash, it is that one.
-/

namespace VendorCss

open Separated (marks)
open Separated.Scan (through?)

/-! ## Characters of names and numbers -/

/-- A character of the names and numbers that are written for vendors. -/
def isPlainChar (c : Char) : Bool := isAsciiWordChar c || c == '-' || c == '.' || c == '/'

theorem notMem_marks_of_isPlainChar {c : Char} (h : isPlainChar c = true) : c ∉ marks := by
  have hmarks : ∀ c ∈ marks, isPlainChar c = false := by decide
  intro hc
  rw [hmarks c hc] at h
  cases h

theorem isBlank_of_isPlainChar {c : Char} (h : isPlainChar c = true) : isBlank c = false := by
  simp only [isPlainChar, Bool.or_eq_true, beq_iff_eq] at h
  rcases h with ((h | rfl) | rfl) | rfl
  · exact Text.isBlank_of_isAsciiWordChar h
  · decide
  · decide
  · decide

theorem isPlainChar_of_isDigit {c : Char} (h : c.isDigit = true) : isPlainChar c = true := by
  simp [isPlainChar, Text.isAsciiWordChar_of_isDigit h]

namespace Decimal

variable {c : Char}

theorem isPlainChar_of_mem_digitsOf {n : Nat} (h : c ∈ digitsOf n) : isPlainChar c = true := by
  rw [digitsOf, Nat.repr, String.toList_ofList] at h
  exact isPlainChar_of_isDigit (Nat.isDigit_of_mem_toDigits (by decide) (by decide) h)

theorem digitsOf_ne_nil (n : Nat) : digitsOf n ≠ [] := by
  rw [digitsOf, Nat.repr, String.toList_ofList]
  exact Nat.toDigits_ne_nil

theorem isPlainChar_of_mem_render {s : Scaled} (h : c ∈ s.render) : isPlainChar c = true := by
  unfold Scaled.render at h
  split at h
  · exact isPlainChar_of_mem_digitsOf h
  · dsimp only at h
    rcases List.mem_append.1 h with h | h
    · exact isPlainChar_of_mem_digitsOf h
    · split at h
      · cases h
      · rcases List.mem_cons.1 h with rfl | h
        · decide
        · have hmem := List.mem_reverse.1 ((List.dropWhile_sublist _).mem (List.mem_reverse.1 h))
          rcases List.mem_append.1 hmem with h | h
          · rw [List.eq_of_mem_replicate h]
            decide
          · exact isPlainChar_of_mem_digitsOf h

theorem render_ne_nil (s : Scaled) : s.render ≠ [] := by
  unfold Scaled.render
  split
  · exact digitsOf_ne_nil _
  · exact List.append_ne_nil_of_left_ne_nil (digitsOf_ne_nil _) _

/-- A printed number is not empty, and has digits and signs only. -/
theorem ofFloat_spec (x : Float) : ofFloat x ≠ [] ∧ ∀ c ∈ ofFloat x, isPlainChar c = true := by
  have hsign : ∀ t : Text, t ≠ [] → (∀ c ∈ t, isPlainChar c = true) → ∀ b : Prop, ∀ [Decidable b],
      (if b then ("-" : Text) else []) ++ t ≠ [] ∧
        ∀ c ∈ (if b then ("-" : Text) else []) ++ t, isPlainChar c = true := by
    intro t hne ht b _
    refine ⟨List.append_ne_nil_of_right_ne_nil _ hne, fun c hc => ?_⟩
    rcases List.mem_append.1 hc with hc | hc
    · split at hc
      · rw [List.mem_singleton.1 hc]
        decide
      · cases hc
    · exact ht c hc
  unfold ofFloat
  dsimp only
  split
  · decide
  split
  · exact hsign "inf" (by decide) (by decide) _
  split
  · exact hsign "0" (by decide) (by decide) _
  · exact hsign _ (render_ne_nil _) (fun c => isPlainChar_of_mem_render) _

end Decimal

namespace Resolution

variable {vendor s s' t t' u query params : Text} {vendors qs : List Text} {scan scan' : Separated.Scan}

/-! ## Separators -/

theorem separator_comma (t : Text) : separator (',' :: t) = ',' :: Text.leadingBlanks t := rfl

theorem splitFirst_comma_cons {c : Char} (hc : c ≠ ',') (t : Text) :
    Text.splitFirst "," (c :: t) = (Text.splitFirst "," t).map fun (before, after) => (c :: before, after) := by
  have hdrop : Text.dropStart? "," (c :: t) = none := if_neg (Ne.symm hc)
  rw [Text.splitFirst, hdrop]

theorem separator_cons {c : Char} (hc : c ≠ ',') (t : Text) : separator (c :: t) = separator t := by
  rw [separator, separator, splitFirst_comma_cons hc]
  cases Text.splitFirst "," t <;> rfl

theorem separator_append_of_notMem (hs : ',' ∉ s) (t : Text) : separator (s ++ t) = separator t := by
  induction s with
  | nil => rfl
  | cons c s ih =>
    rw [List.mem_cons, not_or] at hs
    rw [List.cons_append, separator_cons (Ne.symm hs.1), ih hs.2]

theorem separator_of_notMem (h : ',' ∉ t) : separator t = ", " := by
  rw [← List.append_nil t, separator_append_of_notMem h]
  rfl

/-- What stands between queries is a comma with blanks after it. -/
theorem exists_separator_eq (params : Text) :
    ∃ blanks : Text, separator params = ',' :: blanks ∧ ∀ c ∈ blanks, isBlank c = true := by
  unfold separator
  split
  · exact ⟨_, rfl, fun c hc => List.mem_takeWhile_imp hc⟩
  · exact ⟨[' '], rfl, by decide⟩

/-- Where a text holds a comma and ends with no blank, what follows it does not matter, unless it begins with a blank. -/
theorem separator_append (hmem : ',' ∈ s) (hlast : ∀ c ∈ s.getLast?, isBlank c = false)
    (hhead : ∀ c ∈ t.head?, isBlank c = false) : separator (s ++ t) = separator s := by
  induction s with
  | nil => cases hmem
  | cons c s ih =>
    by_cases hc : c = ','
    · subst hc
      rw [List.cons_append, separator_comma, separator_comma]
      congr 1
      by_cases hs : ∀ d ∈ s, isBlank d = true
      · -- the comma is the last character
        have hnil : s = [] := by
          by_contra hne
          have hend := hlast (s.getLast hne) (by
            rw [List.getLast?_cons_of_ne_nil hne, List.getLast?_eq_some_getLast hne]
            rfl)
          rw [hs _ (List.getLast_mem hne)] at hend
          cases hend
        rw [hnil, List.nil_append]
        cases t with
        | nil => rfl
        | cons d t => exact List.takeWhile_cons_of_neg (Bool.eq_false_iff.1 (hhead d rfl))
      · rw [Text.leadingBlanks, Text.leadingBlanks, List.takeWhile_append, if_neg]
        intro hlength
        refine hs fun d hd => ?_
        rw [← List.takeWhile_prefix isBlank |>.eq_of_length hlength] at hd
        exact List.mem_takeWhile_imp hd
    · rw [List.cons_append, separator_cons hc, separator_cons hc]
      have hmem' := (List.mem_cons.1 hmem).resolve_left (Ne.symm hc)
      refine ih hmem' fun d hd => hlast d ?_
      rwa [List.getLast?_cons_of_ne_nil (List.ne_nil_of_mem hmem')]

/-! ## Phrases -/

/-- A text without marks and with no blank at its ends. -/
structure IsPhrase (t : Text) : Prop where
  ne_nil : t ≠ []
  notMem : ∀ c ∈ t, c ∉ marks
  trimmed : t.IsTrimmed

theorem isPhrase_of_forall (hne : t ≠ []) (h : ∀ c ∈ t, c ∉ marks ∧ isBlank c = false) : IsPhrase t where
  ne_nil := hne
  notMem c hc := (h c hc).1
  trimmed := ⟨fun c hc => (h c (List.mem_of_mem_head? hc)).2, fun c hc => (h c (List.mem_of_mem_getLast? hc)).2⟩

theorem isPhrase_of_isPlainChar (hne : t ≠ []) (h : ∀ c ∈ t, isPlainChar c = true) : IsPhrase t :=
  isPhrase_of_forall hne fun c hc => ⟨notMem_marks_of_isPlainChar (h c hc), isBlank_of_isPlainChar (h c hc)⟩

/-- Two phrases with anything but marks between them. -/
theorem IsPhrase.append (hs : IsPhrase s) (ht : ∀ c ∈ t, c ∉ marks) (hu : IsPhrase u) : IsPhrase (s ++ t ++ u) where
  ne_nil := List.append_ne_nil_of_right_ne_nil _ hu.ne_nil
  notMem c hc := by
    rcases List.mem_append.1 hc with hc | hc
    · exact (List.mem_append.1 hc).elim (hs.notMem c) (ht c)
    · exact hu.notMem c hc
  trimmed := by
    refine ⟨fun c hc => hs.trimmed.head c ?_, fun c hc => hu.trimmed.last c ?_⟩
    · rwa [List.append_assoc, List.head?_append_of_ne_nil _ hs.ne_nil] at hc
    · rwa [List.getLast?_append_of_ne_nil _ hu.ne_nil] at hc

theorem IsPhrase.notMem_comma (h : IsPhrase t) : ',' ∉ t := fun hmem => h.notMem ',' hmem (by decide)

theorem IsPhrase.leadingBlanks_append (h : IsPhrase s) (t : Text) : Text.leadingBlanks (s ++ t) = [] := by
  obtain ⟨c, s, rfl⟩ := List.exists_cons_of_ne_nil h.ne_nil
  exact List.takeWhile_cons_of_neg (Bool.eq_false_iff.1 (h.trimmed.head c rfl))

/-- Letters up to case are no marks and no blanks. -/
theorem notMem_marks_of_foldCase {c d : Char} (hc : isNameChar c = true) (h : c = foldCase d) :
    d ∉ marks ∧ isBlank d = false := by
  have hmarks : ∀ d ∈ marks, foldCase d = d ∧ isNameChar d = false := by decide
  have hblank : isBlank c = false :=
    forall_of_isNameChar (P := fun c => isBlank c = false) (by decide) hc
  refine ⟨fun hmem => ?_, Bool.eq_false_iff.2 fun hd => ?_⟩
  · rw [h, (hmarks d hmem).1, (hmarks d hmem).2] at hc
    cases hc
  · rw [h, foldCase_of_isBlank hd, hd] at hblank
    cases hblank

/-- A name that a text starts with, up to case, is a phrase. -/
theorem exists_of_dropStartFolded? {r : Text} (hne : s ≠ []) (hs : ∀ c ∈ s, isNameChar c = true)
    (h : Text.dropStartFolded? s t = some r) : ∃ w : Text, t = w ++ r ∧ IsPhrase w := by
  have hletters : ∃ w : Text, t = w ++ r ∧ w.length = s.length ∧ ∀ c ∈ w, c ∉ marks ∧ isBlank c = false := by
    clear hne
    induction s generalizing t with
    | nil => exact ⟨[], Option.some.inj h, rfl, fun _ hc => nomatch hc⟩
    | cons c s ih =>
      cases t with
      | nil => cases h
      | cons d t =>
        rw [Text.dropStartFolded?] at h
        split at h
        · rename_i hfold
          rw [foldCase_of_isNameChar (hs c List.mem_cons_self)] at hfold
          obtain ⟨w, rfl, hlength, hw⟩ := ih (fun c hc => hs c (.tail _ hc)) h
          refine ⟨d :: w, rfl, by rw [List.length_cons, hlength, List.length_cons], fun e he => ?_⟩
          rcases List.mem_cons.1 he with rfl | he
          · exact notMem_marks_of_foldCase (hs c List.mem_cons_self) hfold
          · exact hw e he
        · cases h
  obtain ⟨w, ht, hlength, hw⟩ := hletters
  refine ⟨w, ht, isPhrase_of_forall ?_ hw⟩
  rintro rfl
  exact hne (List.eq_nil_of_length_eq_zero hlength.symm)

/-! ## Bounds -/

/-- The two bounds. -/
def bounds : List Text := ["min", "max"]

/-- What a bound is written with, `min-resolution` or `max-resolution`. -/
def boundNames : List Text := ["min-resolution", "max-resolution"]

/-- Bounds are written in small letters only. -/
def SpellsLower (query : Text) : Prop :=
  ∀ t ∈ query.tails, ∀ name ∈ boundNames, (Text.dropStartFolded? name t).isSome = true → name <+: t

instance (query : Text) : Decidable (SpellsLower query) :=
  inferInstanceAs (Decidable (∀ t ∈ query.tails, ∀ name ∈ boundNames, _ → _))

theorem isPlainChar_of_isVendor (h : Vendor.IsVendor vendor) : ∀ c ∈ vendor, isPlainChar c = true := by
  obtain ⟨word, -, hword, rfl⟩ := h
  intro c hc
  rcases List.mem_append.1 hc with hc | hc
  · rcases List.mem_cons.1 hc with rfl | hc
    · decide
    · simp [isPlainChar, hword c hc]
  · rw [List.mem_singleton.1 hc]
    decide

theorem isPhrase_ratioName (h : Vendor.IsVendor vendor) {bound : Text} (hbound : bound ∈ bounds) :
    IsPhrase (ratioName vendor bound) := by
  have hplain : ∀ c ∈ bound, isPlainChar c = true := by
    revert bound
    decide
  have hends : ∀ c ∈ ("--moz-device-pixel-ratio" : Text) ++ "-device-pixel-ratio", isPlainChar c = true := by decide
  unfold ratioName
  split
  · refine isPhrase_of_isPlainChar (List.append_ne_nil_of_right_ne_nil _ (by decide)) fun c hc => ?_
    exact (List.mem_append.1 hc).elim (hplain c) fun hc => hends c (List.mem_append_left _ hc)
  · refine isPhrase_of_isPlainChar (List.append_ne_nil_of_right_ne_nil _ (by decide)) fun c hc => ?_
    rcases List.mem_append.1 hc with hc | hc
    · exact (List.mem_append.1 hc).elim (isPlainChar_of_isVendor h c) (hplain c)
    · exact hends c (List.mem_append_right _ hc)

theorem isPhrase_fraction (ratio : Float) : IsPhrase (fraction ratio) := by
  refine isPhrase_of_isPlainChar (List.append_ne_nil_of_left_ne_nil (Decimal.digitsOf_ne_nil _) _) fun c hc => ?_
  rcases List.mem_append.1 hc with hc | hc
  · exact Decimal.isPlainChar_of_mem_digitsOf hc
  · rcases List.mem_cons.1 hc with rfl | hc
    · decide
    · exact Decimal.isPlainChar_of_mem_digitsOf hc

theorem isPhrase_decimal (ratio : Float) : IsPhrase (decimal ratio) :=
  isPhrase_of_isPlainChar (Decimal.ofFloat_spec _).1 (Decimal.ofFloat_spec _).2

/-- A bound in the words of a vendor is a phrase that names a ratio. -/
theorem isPhrase_render (h : Vendor.IsVendor vendor) {b : Bound} (hbound : b.bound ∈ bounds)
    (hcolon : ∀ c ∈ b.colon, c ∉ marks) : IsPhrase (b.render vendor) := by
  unfold Bound.render
  split
  · exact (isPhrase_ratioName h hbound).append hcolon (isPhrase_fraction _)
  · exact (isPhrase_ratioName h hbound).append hcolon (isPhrase_decimal _)

theorem numberAt?_eq_some {number rest : Text} (h : numberAt? t = some (number, rest)) :
    t = number ++ rest ∧ ∀ c ∈ number, c ∉ marks := by
  have hdigits : ∀ (t : Text), ∀ c ∈ t.takeWhile isDigit, c ∉ marks := by
    have hmarks : ∀ c ∈ marks, isDigit c = false := by decide
    intro t c hc hmem
    have hdigit := List.mem_takeWhile_imp hc
    rw [hmarks c hmem] at hdigit
    cases hdigit
  have hrun : ∀ t : Text, t.takeWhile isDigit ++ t.drop (t.takeWhile isDigit).length = t := fun t =>
    List.prefix_iff_eq_append.1 (List.takeWhile_prefix isDigit)
  have ht := hrun t
  unfold numberAt? at h
  dsimp only at h
  split at h
  · rename_i more hmore
    split at h
    · cases h
    · obtain ⟨rfl, rfl⟩ := Prod.mk.inj (Option.some.inj h)
      refine ⟨?_, fun c hc => ?_⟩
      · rw [List.append_assoc, List.cons_append, hrun more, ← hmore, ht]
      · rcases List.mem_append.1 hc with hc | hc
        · exact hdigits t c hc
        · rcases List.mem_cons.1 hc with rfl | hc
          · decide
          · exact hdigits more c hc
  · split at h
    · cases h
    · obtain ⟨rfl, rfl⟩ := Prod.mk.inj (Option.some.inj h)
      exact ⟨ht.symm, hdigits t⟩

theorem unitAt?_eq_some {unit : DotUnit} {rest : Text} (h : unitAt? t = some (unit, rest)) :
    ∃ w : Text, t = w ++ rest ∧ IsPhrase w := by
  obtain ⟨⟨word, unit'⟩, hmem, hword⟩ := List.exists_of_findSome?_eq_some h
  obtain ⟨r, hdrop, heq⟩ := Option.map_eq_some_iff.1 hword
  obtain rfl : r = rest := (Prod.mk.inj heq).2
  have hunits : ∀ x ∈ ([("dppx", .perPixel), ("dpcm", .perCentimetre), ("dpi", .perInch), ("x", .perPixel)] :
      List (Text × DotUnit)), x.1 ≠ [] ∧ ∀ c ∈ x.1, isNameChar c = true := by decide
  have hname : word ≠ [] ∧ ∀ c ∈ word, isNameChar c = true := hunits _ hmem
  exact exists_of_dropStartFolded? hname.1 hname.2 hdrop

/-- What is read as a bound is a phrase, and tells which of the two it is. -/
theorem boundAt?_eq_some {b : Bound} {rest : Text}
    (hlower : ∀ name ∈ boundNames, (Text.dropStartFolded? name t).isSome = true → name <+: t)
    (h : boundAt? t = some (b, rest)) :
    ∃ w : Text, t = w ++ rest ∧ IsPhrase w ∧ b.bound ∈ bounds ∧ ∀ c ∈ b.colon, c ∉ marks := by
  have hblanks : ∀ (t : Text), ∀ c ∈ t.leadingBlanks, c ∉ marks := fun t c hc =>
    Separated.notMem_marks_of_isBlank (List.mem_takeWhile_imp hc)
  obtain ⟨afterName, hname, h⟩ := Option.bind_eq_some_iff.1 h
  obtain ⟨afterColon, hcolon, h⟩ := Option.bind_eq_some_iff.1 h
  obtain ⟨⟨number, afterNumber⟩, hnumber, h⟩ := Option.bind_eq_some_iff.1 h
  obtain ⟨⟨unit, afterUnit⟩, hunit, h⟩ := Option.bind_eq_some_iff.1 h
  obtain ⟨rfl, rfl⟩ := Prod.mk.inj (Option.some.inj h)
  obtain ⟨name, hmem, hdrop⟩ := List.exists_of_findSome?_eq_some hname
  have hspelled : name ≠ [] ∧ (∀ c ∈ name, isNameChar c = true) ∧ name.take 3 ∈ bounds ∧ 3 ≤ name.length := by
    clear hdrop
    revert name
    decide
  obtain ⟨w, ht, hw⟩ := exists_of_dropStartFolded? hspelled.1 hspelled.2.1 hdrop
  obtain ⟨x, hx, hxphrase⟩ := unitAt?_eq_some hunit
  obtain ⟨hy, hynot⟩ := numberAt?_eq_some hnumber
  have hcolons : ∀ c ∈ Text.leadingBlanks afterName ++ ':' :: Text.leadingBlanks afterColon, c ∉ marks := by
    intro c hc
    rcases List.mem_append.1 hc with hc | hc
    · exact hblanks _ c hc
    · rcases List.mem_cons.1 hc with rfl | hc
      · decide
      · exact hblanks _ c hc
  refine ⟨w ++ (Text.leadingBlanks afterName ++ ':' :: Text.leadingBlanks afterColon ++ number) ++ x, ?_,
    hw.append (fun c hc => (List.mem_append.1 hc).elim (hcolons c) (hynot c)) hxphrase, ?_, hcolons⟩
  · have hafter : afterName = Text.leadingBlanks afterName ++ ':' :: afterColon := by
      have hstart := Text.dropStart?_eq_some hcolon
      have hsplit := Text.leadingBlanks_append_trimStart afterName
      rw [hstart] at hsplit
      exact hsplit.symm
    have hnumbers : afterColon = Text.leadingBlanks afterColon ++ (number ++ (x ++ afterUnit)) := by
      rw [← hx, ← hy, Text.leadingBlanks_append_trimStart]
    calc t = w ++ (Text.leadingBlanks afterName ++ ':' :: afterColon) := by rw [← hafter, ht]
      _ = w ++ (Text.leadingBlanks afterName ++
          ':' :: (Text.leadingBlanks afterColon ++ (number ++ (x ++ afterUnit)))) := by rw [← hnumbers]
      _ = w ++ (Text.leadingBlanks afterName ++ ':' :: Text.leadingBlanks afterColon ++ number) ++ x ++ afterUnit := by
        simp
  · obtain ⟨u, rfl⟩ := hlower name hmem (by rw [hdrop]; rfl)
    show (name ++ u).take 3 ∈ bounds
    rw [List.take_append_of_le_length hspelled.2.2.2]
    exact hspelled.2.2.1

/-! ## A query in the words of a vendor -/

/-- The second query is the first one with phrases in the place of some phrases, each of which names a ratio of the
vendor. -/
inductive InWordsOf (vendor : Text) : Text → Text → Prop
  | nil : InWordsOf vendor [] []
  | copy {t t' : Text} (c : Char) (h : InWordsOf vendor t t') : InWordsOf vendor (c :: t) (c :: t')
  | bound {s s' t t' : Text} (hs : IsPhrase s) (hs' : IsPhrase s')
      (hname : ∃ bound ∈ bounds, ratioName vendor bound <:+: s') (h : InWordsOf vendor t t') :
      InWordsOf vendor (s ++ t) (s' ++ t')

namespace InWordsOf

theorem refl (vendor t : Text) : InWordsOf vendor t t := by
  induction t with
  | nil => exact .nil
  | cons c t ih => exact .copy c ih

/-- The query is what it was, or names a ratio of the vendor. -/
theorem eq_or_infix (h : InWordsOf vendor t t') : t' = t ∨ ∃ bound ∈ bounds, ratioName vendor bound <:+: t' := by
  induction h with
  | nil => exact .inl rfl
  | copy c _ ih =>
    rcases ih with rfl | ⟨bound, hbound, hin⟩
    · exact .inl rfl
    · exact .inr ⟨bound, hbound, hin.trans (List.suffix_cons c _).isInfix⟩
  | bound _ _ hname _ _ =>
    obtain ⟨bound, hbound, hin⟩ := hname
    exact .inr ⟨bound, hbound, hin.trans (List.prefix_append _ _).isInfix⟩

theorem eq_nil_iff (h : InWordsOf vendor t t') : t' = [] ↔ t = [] := by
  cases h with
  | nil => exact .rfl
  | copy c _ => exact iff_of_false (List.cons_ne_nil _ _) (List.cons_ne_nil _ _)
  | bound hs hs' _ _ =>
    exact iff_of_false (List.append_ne_nil_of_left_ne_nil hs'.ne_nil _) (List.append_ne_nil_of_left_ne_nil hs.ne_nil _)

theorem leadingBlanks_eq (h : InWordsOf vendor t t') : t'.leadingBlanks = t.leadingBlanks := by
  induction h with
  | nil => rfl
  | copy c _ ih =>
    rw [Text.leadingBlanks, Text.leadingBlanks, List.takeWhile_cons, List.takeWhile_cons]
    split
    · exact congrArg _ ih
    · rfl
  | bound hs hs' _ _ _ => rw [hs.leadingBlanks_append, hs'.leadingBlanks_append]

theorem isTrimmed (h : InWordsOf vendor t t') (ht : t.IsTrimmed) : t'.IsTrimmed := by
  refine ⟨fun c hc => ?_, ?_⟩
  · obtain ⟨rest, rfl⟩ := List.head?_eq_some_iff.1 hc
    have hblanks := h.leadingBlanks_eq
    have hnone : t.leadingBlanks = [] := by
      cases t with
      | nil => rfl
      | cons d t => exact List.takeWhile_cons_of_neg (Bool.eq_false_iff.1 (ht.head d rfl))
    rw [hnone] at hblanks
    by_contra hblank
    rw [Bool.not_eq_false] at hblank
    rw [Text.leadingBlanks, List.takeWhile_cons_of_pos hblank] at hblanks
    cases hblanks
  · have hlast := ht.last
    clear ht
    induction h with
    | nil => exact hlast
    | @copy t t' c h ih =>
      by_cases hnil : t = []
      · rw [hnil] at hlast
        rw [h.eq_nil_iff.2 hnil]
        exact hlast
      · rw [List.getLast?_cons_of_ne_nil (mt h.eq_nil_iff.1 hnil)]
        rw [List.getLast?_cons_of_ne_nil hnil] at hlast
        exact ih hlast
    | @bound s s' t t' hs hs' _ h ih =>
      by_cases hnil : t = []
      · rw [h.eq_nil_iff.2 hnil, List.append_nil]
        exact hs'.trimmed.last
      · rw [List.getLast?_append_of_ne_nil _ (mt h.eq_nil_iff.1 hnil)]
        rw [List.getLast?_append_of_ne_nil _ hnil] at hlast
        exact ih hlast

/-- A scan goes through both queries to the same end. -/
theorem through?_eq (h : InWordsOf vendor t t') (hscan : scan.IsSound) :
    through? [','] scan t' = through? [','] scan t := by
  induction h generalizing scan with
  | nil => rfl
  | copy c _ ih => rw [through?, through?, ih (hscan.step c)]
  | bound hs hs' _ _ ih =>
    have hended : Separated.Scan.IsSound { scan with escaped := false } := hscan
    rw [Separated.Scan.through?_append, Separated.Scan.through?_append, hscan.through?_of_notMem hs.notMem hs.ne_nil,
      hscan.through?_of_notMem hs'.notMem hs'.ne_nil, Option.bind_some, Option.bind_some, ih hended]

theorem mem_comma_iff (h : InWordsOf vendor t t') : ',' ∈ t' ↔ ',' ∈ t := by
  induction h with
  | nil => exact .rfl
  | copy c _ ih => rw [List.mem_cons, List.mem_cons, ih]
  | bound hs hs' _ _ ih =>
    rw [List.mem_append, List.mem_append, or_iff_right hs.notMem_comma, or_iff_right hs'.notMem_comma, ih]

/-- The first comma stands in the same place, with the same blanks after it. -/
theorem separator_eq (h : InWordsOf vendor t t') : separator t' = separator t := by
  induction h with
  | nil => rfl
  | copy c h ih =>
    by_cases hc : c = ','
    · subst hc
      rw [separator_comma, separator_comma, h.leadingBlanks_eq]
    · rw [separator_cons hc, separator_cons hc, ih]
  | bound hs hs' _ _ ih =>
    rw [separator_append_of_notMem hs.notMem_comma, separator_append_of_notMem hs'.notMem_comma, ih]

end InWordsOf

theorem place_of_boundAt? {w rest : Text} {b : Bound} (h : boundAt? (w ++ rest) = some (b, rest)) (vendor : Text) :
    ((boundAt? (w ++ rest)).map fun (b, rest') => ((w ++ rest).length - rest'.length, b.render vendor)) =
      some (w.length, b.render vendor) := by
  rw [h, Option.map_some]
  dsimp only
  rw [List.length_append, Nat.add_sub_cancel]

/-- What is written for a vendor from a place in a query on is the end of the query in its words. -/
theorem inWordsOf_substituteFrom (hvendor : Vendor.IsVendor vendor) (hlower : SpellsLower query) (t : Text)
    (last : Option Char) (hsuffix : t <:+ query) : InWordsOf vendor t (Text.substituteFrom
      (fun _ t => (boundAt? t).map fun (b, rest) => (t.length - rest.length, b.render vendor)) last 0 t) := by
  induction hlength : t.length using Nat.strongRecOn generalizing t last with
  | ind n ih =>
    subst hlength
    cases hbound : boundAt? t with
    | none =>
      cases t with
      | nil => exact .nil
      | cons c t =>
        rw [Text.substituteFrom, hbound]
        exact .copy c (ih t.length (Nat.lt_succ_self _) t _ ((List.suffix_cons c t).trans hsuffix) rfl)
    | some found =>
      obtain ⟨b, rest⟩ := found
      obtain ⟨w, rfl, hw, hbounds, hcolon⟩ :=
        boundAt?_eq_some (hlower t ((List.mem_tails _ _).2 hsuffix)) hbound
      rw [Text.substituteFrom_place hw.ne_nil (place_of_boundAt? hbound vendor)]
      refine .bound hw (isPhrase_render hvendor hbounds hcolon) ⟨b.bound, hbounds, ?_⟩ ?_
      · unfold Bound.render
        split <;> exact ⟨[], _, by rw [List.nil_append, ← List.append_assoc]⟩
      · refine ih rest.length ?_ rest _ ((List.suffix_append w rest).trans hsuffix) rfl
        rw [List.length_append]
        exact Nat.lt_add_of_pos_left (List.length_pos_iff.2 hw.ne_nil)

/-- What is written for a vendor is the query in its words. -/
theorem inWordsOf_forVendor (hvendor : Vendor.IsVendor vendor) (hlower : SpellsLower query) :
    InWordsOf vendor query (forVendor query vendor) :=
  inWordsOf_substituteFrom hvendor hlower query none (List.suffix_refl _)

/-! ## Queries that are taken away -/

/-- A query names a ratio of one of some vendors. -/
def SpeaksTo (vendors : List Text) (query : Text) : Prop :=
  ∃ vendor ∈ vendors, ∃ bound ∈ bounds, query.contains (ratioName vendor bound) = true

instance (vendors : List Text) (query : Text) : Decidable (SpeaksTo vendors query) :=
  inferInstanceAs (Decidable (∃ vendor ∈ vendors, ∃ bound ∈ bounds, _))

/-- The queries that name no ratio of some vendors. -/
def keptQueries (vendors : List Text) (params : Text) : List Text :=
  (Separated.byComma params).filter fun query => ¬SpeaksTo vendors query

theorem dropQueries_eq (vendors : List Text) (params : Text) :
    dropQueries vendors params = Text.join (separator params) (keptQueries vendors params) := by
  have hnames : ∀ query : Text, ((vendors.flatMap fun vendor => [ratioName vendor "min", ratioName vendor "max"]).all
      fun name => !query.contains name) = decide ¬SpeaksTo vendors query := by
    intro query
    rw [Bool.eq_iff_iff, decide_eq_true_eq, List.all_eq_true]
    constructor
    · rintro h ⟨vendor, hvendor, bound, hbound, hcontains⟩
      have hname : ratioName vendor bound ∈ vendors.flatMap fun vendor =>
          [ratioName vendor "min", ratioName vendor "max"] :=
        List.mem_flatMap.2 ⟨vendor, hvendor, List.mem_map_of_mem (f := ratioName vendor) hbound⟩
      have hnone := h _ hname
      rw [hcontains] at hnone
      cases hnone
    · intro h name hname
      obtain ⟨vendor, hvendor, hmem⟩ := List.mem_flatMap.1 hname
      obtain ⟨bound, hbound, rfl⟩ := List.mem_map.1 (show name ∈ bounds.map (ratioName vendor) from hmem)
      rw [Bool.not_eq_true']
      exact Bool.eq_false_iff.2 fun hcontains => h ⟨vendor, hvendor, bound, hbound, hcontains⟩
  rw [dropQueries, mapQueries]
  exact congrArg _ (List.filter_congr fun query _ => hnames query)

/-- A query that no vendor speaks in: it is closed, names no ratio, and spells its bounds in small letters. -/
structure IsStandard (query : Text) : Prop where
  ne_nil : query ≠ []
  closed : Separated.IsClosed query
  ratio : query.contains "device-pixel-ratio" = false
  lower : SpellsLower query

theorem IsStandard.not_speaksTo (h : IsStandard query) (vendors : List Text) : ¬SpeaksTo vendors query := by
  rintro ⟨vendor, -, bound, -, hcontains⟩
  have hratio : ("device-pixel-ratio" : Text) <:+: ratioName vendor bound := by
    unfold ratioName
    split
    · exact ⟨bound ++ "--moz-", [], by simp⟩
    · exact ⟨vendor ++ bound ++ "-", [], by simp⟩
  have hin := hratio.trans (Text.contains_iff.1 hcontains)
  rw [← Text.contains_iff, h.ratio] at hin
  cases hin

/-! ## Queries that are written -/

/-- What is written for a query: the queries of vendors and then itself, if it speaks of a resolution. -/
def written (vendors : List Text) (query : Text) : List Text :=
  if isBounded query then vendors.map (forVendor query) ++ [query] else [query]

theorem addQueries_eq (vendors : List Text) (params : Text) : addQueries vendors params =
    Text.join (separator params) (Text.distinct ((Separated.byComma params).flatMap (written vendors))) := rfl

theorem mem_written_self (vendors : List Text) (query : Text) : query ∈ written vendors query := by
  unfold written
  split
  · exact List.mem_append_right _ List.mem_cons_self
  · exact List.mem_cons_self

/-- All that is written for a query is the query in the words of someone. -/
theorem inWordsOf_of_mem_written (hvendors : ∀ v ∈ vendors, Vendor.IsVendor v) (hlower : SpellsLower query)
    (h : t ∈ written vendors query) : t = query ∨ ∃ vendor ∈ vendors, InWordsOf vendor query t := by
  unfold written at h
  split at h
  · rcases List.mem_append.1 h with h | h
    · obtain ⟨vendor, hvendor, rfl⟩ := List.mem_map.1 h
      exact .inr ⟨vendor, hvendor, inWordsOf_forVendor (hvendors vendor hvendor) hlower⟩
    · exact .inl (List.mem_singleton.1 h)
  · exact .inl (List.mem_singleton.1 h)

section

variable {P Q : List Text} (hP : ∀ v ∈ P, Vendor.IsVendor v) (hqs : ∀ q ∈ Separated.byComma params, IsStandard q)

include hP hqs

/-- What is written is the queries of some vendor, one by one. -/
theorem exists_of_mem_written
    (h : t ∈ Text.distinct ((Separated.byComma params).flatMap (written P))) :
    ∃ query ∈ Separated.byComma params, ∃ vendor, InWordsOf vendor query t := by
  obtain ⟨query, hquery, ht⟩ := List.mem_flatMap.1 (Text.mem_distinct.1 h)
  rcases inWordsOf_of_mem_written hP (hqs query hquery).lower ht with rfl | ⟨vendor, -, hwords⟩
  · exact ⟨t, hquery, [], .refl [] t⟩
  · exact ⟨query, hquery, vendor, hwords⟩

/-- The params that are written are cut into the queries that were joined. -/
theorem byComma_addQueries : Separated.byComma (addQueries P params) =
    Text.distinct ((Separated.byComma params).flatMap (written P)) := by
  obtain ⟨blanks, hseparator, hblanks⟩ := exists_separator_eq params
  rw [addQueries_eq, hseparator, Separated.byComma_join hblanks]
  · intro t ht
    obtain ⟨query, hquery, vendor, hwords⟩ := exists_of_mem_written hP hqs ht
    refine ⟨?_, mt hwords.eq_nil_iff.1 (hqs query hquery).ne_nil,
      hwords.isTrimmed (Separated.isTrimmed_of_mem_split hquery)⟩
    rw [hwords.through?_eq Separated.Scan.isSound_start, (hqs query hquery).closed.through?_eq hquery]
  · obtain ⟨query, hquery⟩ := List.exists_mem_of_ne_nil _ (Separated.byComma_ne_nil params)
    exact List.ne_nil_of_mem (Text.mem_distinct.2 (List.mem_flatMap.2 ⟨query, hquery, mem_written_self P query⟩))

/-- Taken away again, what was written for vendors leaves the queries as they were. -/
theorem filter_written (hsub : P ⊆ Q) :
    (Text.distinct ((Separated.byComma params).flatMap (written P))).filter (fun query => ¬SpeaksTo Q query) =
      Text.distinct (Separated.byComma params) := by
  rw [← Text.distinct_filter, List.filter_flatMap]
  refine Text.distinct_flatMap fun query hquery => ⟨?_, fun t ht => ?_⟩
  · exact List.ne_nil_of_mem (List.mem_filter.2
      ⟨mem_written_self P query, decide_eq_true ((hqs query hquery).not_speaksTo Q)⟩)
  · obtain ⟨hwritten, hkept⟩ := List.mem_filter.1 ht
    rcases inWordsOf_of_mem_written hP (hqs query hquery).lower hwritten with rfl | ⟨vendor, hvendor, hwords⟩
    · rfl
    · refine hwords.eq_or_infix.resolve_right fun ⟨bound, hbound, hin⟩ => ?_
      exact of_decide_eq_true hkept ⟨vendor, hsub hvendor, bound, hbound, Text.contains_iff.2 hin⟩

end

/-! ## What stands between queries -/

/-- Where the first query holds no comma, the first comma is one that separates. -/
theorem separator_eq_firstSeparator (h : ∀ query ∈ (Separated.byComma params).head?, ',' ∉ query) :
    separator params = (Separated.firstSeparator? params).getD ", " := by
  have hscan : ∀ (t current : Text) (scan : Separated.Scan),
      (∀ piece ∈ (Separated.cut [','] scan current t).head?, ',' ∉ piece) →
        separator t = (Separated.separatorAfter? scan t).getD ", " := by
    intro t
    induction t with
    | nil => exact fun _ _ _ => rfl
    | cons c t ih =>
      intro current scan hpiece
      rw [Separated.cut] at hpiece
      rw [Separated.separatorAfter?]
      dsimp only at hpiece
      cases hstep : (scan.step [','] c).2 with
      | true =>
        obtain rfl : c = ',' := List.mem_singleton.1 (Separated.mem_of_step hstep)
        rfl
      | false =>
        rw [hstep, if_neg Bool.false_ne_true] at hpiece
        rw [if_neg Bool.false_ne_true, ← ih _ _ hpiece]
        refine separator_cons ?_ t
        rintro rfl
        obtain ⟨piece, hhead⟩ := Option.isSome_iff_exists.1 (List.isSome_head?.2 Separated.cut_ne_nil)
        have hstarts := Separated.prefix_of_mem_head?_cut hhead
        exact hpiece piece hhead (hstarts.subset (List.mem_append_right _ List.mem_cons_self))
  obtain ⟨query, hquery⟩ := Option.isSome_iff_exists.1 (List.isSome_head?.2 (Separated.byComma_ne_nil params))
  exact hscan params [] {} fun piece hpiece => Separated.notMem_of_mem_head?_cut hquery (h query hquery) hpiece

/-- The first comma of joined queries is one in the first query, or the one after it. -/
theorem separator_join {blanks : Text} (hblanks : ∀ c ∈ blanks, isBlank c = true) (ht : t.IsTrimmed)
    (hqs : ∀ q ∈ qs, q ≠ [] ∧ q.IsTrimmed) (hne : ',' ∈ t ∨ qs ≠ []) :
    separator (Text.join (',' :: blanks) (t :: qs)) = if ',' ∈ t then separator t else ',' :: blanks := by
  cases qs with
  | nil => rw [if_pos (hne.resolve_right fun h => h rfl), Text.join]
  | cons q qs =>
    rw [Text.join_cons_cons]
    split
    · rename_i hmem
      refine separator_append hmem ht.last fun c hc => ?_
      rw [← Option.some.inj hc]
      decide
    · rename_i hnot
      rw [separator_append_of_notMem hnot, separator_comma]
      congr 1
      obtain ⟨hq, htrimmed⟩ := hqs q List.mem_cons_self
      obtain ⟨c, q, rfl⟩ := List.exists_cons_of_ne_nil hq
      obtain ⟨more, hmore⟩ : ∃ more, Text.join (',' :: blanks) ((c :: q) :: qs) = c :: more := by
        cases qs <;> exact ⟨_, rfl⟩
      rw [hmore, Text.leadingBlanks, List.takeWhile_append_of_pos hblanks,
        List.takeWhile_cons_of_neg (Bool.eq_false_iff.1 (htrimmed.head c rfl)), List.append_nil]

/-- Queries that no vendor speaks in, for which queries of vendors are written and taken away again, are what they were,
each at its first place only. Between them stands what stood between the first two, unless the first query holds a
comma; then it is that one with the blanks after it. -/
theorem exists_dropQueries_addQueries {P Q : List Text} (hP : ∀ v ∈ P, Vendor.IsVendor v) (hsub : P ⊆ Q)
    (hqs : ∀ q ∈ Separated.byComma params, IsStandard q) : ∃ first ∈ (Separated.byComma params).head?,
      dropQueries Q (addQueries P params) =
        Text.join (if ',' ∈ first then separator first else (Separated.firstSeparator? params).getD ", ")
          (Text.distinct (Separated.byComma params)) := by
  obtain ⟨first, hfirst⟩ := Option.isSome_iff_exists.1 (List.isSome_head?.2 (Separated.byComma_ne_nil params))
  obtain ⟨others, hothers⟩ := List.head?_eq_some_iff.1 hfirst
  have hmem : first ∈ Separated.byComma params := List.mem_of_mem_head? hfirst
  refine ⟨first, hfirst, ?_⟩
  have hkept := filter_written hP hqs hsub
  rw [dropQueries_eq, keptQueries, byComma_addQueries hP hqs, hkept]
  -- the first query that is written is the first query in the words of someone
  obtain ⟨t, ts, hwritten⟩ := List.exists_cons_of_ne_nil (List.ne_nil_of_mem (mem_written_self P first))
  obtain ⟨vendor, hwords⟩ : ∃ vendor, InWordsOf vendor first t := by
    rcases inWordsOf_of_mem_written hP (hqs first hmem).lower (hwritten ▸ List.mem_cons_self) with rfl | ⟨v, -, h⟩
    · exact ⟨[], .refl [] t⟩
    · exact ⟨v, h⟩
  have hhead : (Text.distinct ((Separated.byComma params).flatMap (written P))).head? = some t := by
    rw [Text.head?_distinct, hothers, List.flatMap_cons, hwritten]
    rfl
  obtain ⟨later, hlater⟩ := List.head?_eq_some_iff.1 hhead
  have hphrases : ∀ q ∈ t :: later, q ≠ [] ∧ q.IsTrimmed := by
    intro q hq
    obtain ⟨query, hquery, v, hv⟩ := exists_of_mem_written hP hqs (hlater ▸ hq)
    exact ⟨mt hv.eq_nil_iff.1 (hqs query hquery).ne_nil, hv.isTrimmed (Separated.isTrimmed_of_mem_split hquery)⟩
  obtain ⟨blanks, hseparator, hblanks⟩ := exists_separator_eq params
  by_cases hne : ',' ∈ t ∨ later ≠ []
  · congr 1
    rw [addQueries_eq, hlater, hseparator, separator_join hblanks (hphrases t List.mem_cons_self).2
      (fun q hq => hphrases q (.tail _ hq)) hne]
    simp only [hwords.mem_comma_iff, hwords.separator_eq]
    split
    · rfl
    · rename_i hnot
      rw [← hseparator]
      exact separator_eq_firstSeparator fun query hquery => Option.some.inj (hfirst.symm.trans hquery) ▸ hnot
  · -- nothing stands beside a query alone
    obtain ⟨-, rfl⟩ : ',' ∉ t ∧ later = [] := by simpa using hne
    have hlength : (Text.distinct (Separated.byComma params)).length ≤ 1 := by
      rw [← hkept, hlater]
      exact List.length_filter_le _ _
    exact Text.join_eq_join hlength

end Resolution

end VendorCss
