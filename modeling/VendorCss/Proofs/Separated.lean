import VendorCss.Css.Separated
import VendorCss.Proofs.Text.Cuts

/-!
# Lists cut at their separators

The items of a list stand in it, and a word without blanks that stands in a comma list stands in one of its items
(`infix_of_mem_byComma`, `exists_mem_byComma`). An item alone is never cut; it is closed if its quotes, parentheses and
escapes end in it (`IsClosed`). Closed items with a comma and blanks between them are cut into these items again
(`byComma_join`).

The scan of a comma list reads a few characters only (`marks`), and between them it does nothing but end an escape
(`Scan.through?_of_notMem`); so an item stays closed if other characters take the place of some that are no marks.
-/

namespace VendorCss

/-! ## Texts without blanks at their ends -/

namespace Text

variable {s t needle : Text}

/-- No blank stands at either end. -/
structure IsTrimmed (t : Text) : Prop where
  head : ∀ c ∈ t.head?, isBlank c = false
  last : ∀ c ∈ t.getLast?, isBlank c = false

theorem IsTrimmed.trim_eq (h : IsTrimmed t) : t.trim = t := by
  have hstart : t.trimStart = t := by
    cases t with
    | nil => rfl
    | cons c t => exact List.dropWhile_cons_of_neg (Bool.eq_false_iff.1 (h.head c rfl))
  rw [trim, hstart, trimEnd_eq_rdropWhile, List.rdropWhile_eq_self_iff]
  exact fun hne => Bool.eq_false_iff.1 (h.last _ (List.getLast?_eq_some_getLast hne))

theorem IsTrimmed.trim_append (h : IsTrimmed t) (hs : ∀ c ∈ s, isBlank c = true) : (s ++ t).trim = t := by
  have hstart : (s ++ t).trimStart = t.trimStart := by
    rw [trimStart, List.dropWhile_append_of_pos hs]
    rfl
  rw [trim, hstart]
  exact h.trim_eq

theorem isTrimmed_trim (t : Text) : IsTrimmed t.trim := by
  have hstarts : t.trim <+: t.trimStart := List.rdropWhile_prefix isBlank t.trimStart
  refine ⟨fun c hc => ?_, fun c hc => ?_⟩
  · obtain ⟨rest, hrest⟩ := List.head?_eq_some_iff.1 hc
    rw [hrest, List.cons_prefix_iff] at hstarts
    obtain ⟨rest', hstart, -⟩ := hstarts
    have hnot := List.head?_dropWhile_not isBlank t
    rw [← trimStart, hstart] at hnot
    exact Bool.eq_false_iff.2 (by simpa using hnot)
  · have hne : t.trim ≠ [] := by
      rintro hnil
      rw [hnil] at hc
      cases hc
    have hnot := List.rdropWhile_last_not isBlank t.trimStart hne
    rw [List.getLast?_eq_some_getLast hne] at hc
    rw [← Option.some.inj hc]
    exact Bool.eq_false_iff.2 hnot

/-- A text starts and ends with blanks around what is left of it. -/
theorem blanks_append_trim (t : Text) : ∃ lead trail, t = lead ++ (t.trim ++ trail) ∧
    (∀ c ∈ lead, isBlank c = true) ∧ ∀ c ∈ trail, isBlank c = true := by
  refine ⟨t.leadingBlanks, t.trimStart.trailingBlanks, ?_, fun c hc => List.mem_takeWhile_imp hc, fun c hc => ?_⟩
  · rw [trim, trimEnd_append_trailingBlanks, leadingBlanks_append_trimStart]
  · exact List.mem_takeWhile_imp (List.mem_reverse.1 hc)

/-- A word without blanks stands between the blanks at the ends. -/
theorem infix_trim (hne : needle ≠ []) (hblank : ∀ c ∈ needle, isBlank c = false) (h : needle <:+: t) :
    needle <:+: t.trim := by
  have hnot : ∀ c, isBlank c = true → c ∉ needle := fun c hc hmem => by
    rw [hblank c hmem] at hc
    cases hc
  have hempty : ¬needle <:+: [] := fun h => hne (List.eq_nil_of_infix_nil h)
  obtain ⟨lead, trail, ht, hlead, htrail⟩ := t.blanks_append_trim
  rw [ht] at h
  generalize t.trim = inner at h ⊢
  have hinner : needle <:+: inner ++ trail := by
    clear ht
    induction lead with
    | nil => exact h
    | cons c lead ih =>
      rcases infix_of_infix_append_cons (s := []) (hnot c (hlead c List.mem_cons_self)) h with h | h
      · exact absurd h hempty
      · exact ih (fun d hd => hlead d (.tail _ hd)) h
  cases trail with
  | nil => rwa [List.append_nil] at hinner
  | cons c trail =>
    refine (infix_of_infix_append_cons (hnot c (htrail c List.mem_cons_self)) hinner).resolve_right fun h => ?_
    obtain ⟨d, needle, rfl⟩ := List.exists_cons_of_ne_nil hne
    exact hnot d (htrail d (.tail _ (h.subset List.mem_cons_self))) List.mem_cons_self

end Text

namespace Separated

variable {separators : List Char} {scan scan' : Scan} {needle current s t item : Text} {pieces qs : List Text} {c : Char}
variable {last : Bool}

/-! ## Pieces and items -/

/-- A character separates outside everything that could hold it. -/
theorem of_step (h : (scan.step separators c).2 = true) :
    c ∈ separators ∧ scan = {} ∧ (scan.step separators c).1 = {} := by
  obtain ⟨escaped, quote, depth⟩ := scan
  unfold Scan.step at h ⊢
  split at h
  · cases h
  rename_i hescaped
  split at h
  · cases h
  split at h
  · cases h
  split at h
  · cases h
  split at h
  · cases h
  split at h
  · cases h
  · simp only [Bool.and_eq_true, List.contains_iff_mem, beq_iff_eq] at h
    simp_all

theorem mem_of_step (h : (scan.step separators c).2 = true) : c ∈ separators := (of_step h).1

theorem cut_ne_nil : cut separators scan current t ≠ [] := by
  induction t generalizing scan current with
  | nil => exact List.cons_ne_nil _ _
  | cons c t ih =>
    rw [cut]
    dsimp only
    split
    · exact List.cons_ne_nil _ _
    · exact ih

theorem infix_of_mem_cut {piece : Text} (h : piece ∈ cut separators scan current t) : piece <:+: current ++ t := by
  induction t generalizing scan current with
  | nil =>
    rw [cut, List.mem_singleton] at h
    subst h
    exact (List.prefix_append piece []).isInfix
  | cons c t ih =>
    rw [cut] at h
    dsimp only at h
    split at h
    · rcases List.mem_cons.1 h with rfl | h
      · exact (List.prefix_append piece _).isInfix
      · exact ((ih h).trans (List.suffix_cons c t).isInfix).trans (List.suffix_append current _).isInfix
    · have hin := ih h
      rwa [List.append_assoc] at hin

/-- A piece with more pieces after it. -/
theorem items_cons (h : pieces ≠ []) : items last (current :: pieces) =
    if current.isEmpty then items last pieces else current.trim :: items last pieces := by
  obtain ⟨piece, pieces, rfl⟩ := List.exists_cons_of_ne_nil h
  rfl

theorem items_singleton : items false [current] = if current.isEmpty then [] else [current.trim] := by
  cases current <;> rfl

/-- Every item is a piece without the blanks at its ends. -/
theorem exists_of_mem_items (h : item ∈ items last pieces) : ∃ piece ∈ pieces, item = piece.trim := by
  induction pieces with
  | nil => cases h
  | cons piece pieces ih =>
    cases pieces with
    | nil =>
      rw [items] at h
      split at h
      · exact ⟨piece, List.mem_cons_self, List.mem_singleton.1 h⟩
      · cases h
    | cons next pieces =>
      rw [items_cons (List.cons_ne_nil _ _)] at h
      split at h
      · obtain ⟨p, hp, hitem⟩ := ih h
        exact ⟨p, .tail _ hp, hitem⟩
      · rcases List.mem_cons.1 h with rfl | h
        · exact ⟨piece, List.mem_cons_self, rfl⟩
        · obtain ⟨p, hp, hitem⟩ := ih h
          exact ⟨p, .tail _ hp, hitem⟩

/-- Every piece that is not empty is an item. -/
theorem trim_mem_items {piece : Text} (h : piece ∈ pieces) (hne : piece ≠ []) : piece.trim ∈ items last pieces := by
  induction pieces with
  | nil => cases h
  | cons first pieces ih =>
    cases pieces with
    | nil =>
      obtain rfl := List.mem_singleton.1 h
      rw [items, List.isEmpty_eq_false_iff.2 hne, Bool.not_false, Bool.or_true, if_pos rfl]
      exact List.mem_cons_self
    | cons next pieces =>
      rw [items_cons (List.cons_ne_nil _ _)]
      rcases List.mem_cons.1 h with rfl | h
      · rw [List.isEmpty_eq_false_iff.2 hne, if_neg Bool.false_ne_true]
        exact List.mem_cons_self
      · split
        · exact ih h
        · exact .tail _ (ih h)

theorem items_ne_nil (h : pieces ≠ []) : items true pieces ≠ [] := by
  induction pieces with
  | nil => exact absurd rfl h
  | cons piece pieces ih =>
    cases pieces with
    | nil => exact List.cons_ne_nil _ _
    | cons next pieces =>
      rw [items_cons (List.cons_ne_nil _ _)]
      split
      · exact ih (List.cons_ne_nil _ _)
      · exact List.cons_ne_nil _ _

/-- Where no piece is empty, every piece is an item. -/
theorem items_eq_map (h : ∀ piece ∈ pieces, piece ≠ []) : items last pieces = pieces.map Text.trim := by
  induction pieces with
  | nil => rfl
  | cons piece pieces ih =>
    have hne := List.isEmpty_eq_false_iff.2 (h piece List.mem_cons_self)
    cases pieces with
    | nil =>
      rw [items, hne, Bool.not_false, Bool.or_true, if_pos rfl]
      rfl
    | cons next pieces =>
      rw [items_cons (List.cons_ne_nil _ _), hne, if_neg Bool.false_ne_true, ih fun p hp => h p (.tail _ hp)]
      rfl

theorem byComma_ne_nil (t : Text) : byComma t ≠ [] := items_ne_nil cut_ne_nil

theorem isTrimmed_of_mem_split (h : item ∈ split separators last t) : item.IsTrimmed := by
  obtain ⟨piece, -, rfl⟩ := exists_of_mem_items h
  exact piece.isTrimmed_trim

/-- The items of a text stand in it. -/
theorem infix_of_mem_byComma (h : item ∈ byComma t) : item <:+: t := by
  obtain ⟨piece, hpiece, rfl⟩ := exists_of_mem_items h
  exact (Text.trim_infix piece).trans (infix_of_mem_cut hpiece)

/-- A word without commas and blanks stands in one item. -/
theorem exists_mem_byComma (hne : needle ≠ []) (hcomma : ',' ∉ needle) (hblank : ∀ c ∈ needle, isBlank c = false)
    (h : needle <:+: t) : ∃ item ∈ byComma t, needle <:+: item := by
  have hcut : ∀ (t current : Text) (scan : Scan), needle <:+: current ++ t →
      ∃ piece ∈ cut [','] scan current t, needle <:+: piece := by
    intro t
    induction t with
    | nil =>
      intro current scan h
      rw [List.append_nil] at h
      exact ⟨current, List.mem_cons_self, h⟩
    | cons c t ih =>
      intro current scan h
      rw [cut]
      dsimp only
      split
      · rename_i hseparates
        obtain rfl : c = ',' := List.mem_singleton.1 (mem_of_step hseparates)
        rcases Text.infix_of_infix_append_cons hcomma h with h | h
        · exact ⟨current, List.mem_cons_self, h⟩
        · obtain ⟨piece, hpiece, hin⟩ := ih [] (scan.step [','] ',').1 h
          exact ⟨piece, .tail _ hpiece, hin⟩
      · refine ih (current ++ [c]) (scan.step [','] c).1 ?_
        rwa [List.append_assoc]
  obtain ⟨piece, hpiece, hin⟩ := hcut t [] {} h
  have hpiece' : piece ≠ [] := fun hnil => hne (List.eq_nil_of_infix_nil (hnil ▸ hin))
  exact ⟨piece.trim, trim_mem_items hpiece hpiece', Text.infix_trim hne hblank hin⟩

/-! ## The scan of an item -/

namespace Scan

/-- The scan after a text in which nothing separates. -/
def through? (separators : List Char) (s : Scan) : Text → Option Scan
  | [] => some s
  | c :: t => if (s.step separators c).2 then none else through? separators (s.step separators c).1 t

/-- The scan after a text. -/
def along (separators : List Char) (s : Scan) (t : Text) : Scan := t.foldl (fun s c => (s.step separators c).1) s

theorem along_eq (h : through? separators scan t = some scan') : along separators scan t = scan' := by
  induction t generalizing scan with
  | nil => exact Option.some.inj h
  | cons c t ih =>
    rw [through?] at h
    split at h
    · cases h
    · exact ih h

theorem through?_append (scan : Scan) (s t : Text) :
    through? separators scan (s ++ t) = (through? separators scan s).bind fun scan => through? separators scan t := by
  induction s generalizing scan with
  | nil => rfl
  | cons c s ih =>
    rw [List.cons_append, through?, through?]
    split
    · rfl
    · exact ih _

theorem isSome_through?_of_append (h : (through? separators scan (s ++ t)).isSome = true) :
    (through? separators scan s).isSome = true := by
  rw [through?_append] at h
  exact Option.isSome_of_isSome_bind h

/-- A text in which nothing separates belongs to the piece that is begun. -/
theorem cut_append (h : through? separators scan s = some scan') (current t : Text) :
    cut separators scan current (s ++ t) = cut separators scan' (current ++ s) t := by
  induction s generalizing scan current with
  | nil =>
    rw [Option.some.inj h, List.append_nil]
    rfl
  | cons c s ih =>
    rw [through?] at h
    split at h
    · cases h
    · rename_i hno
      rw [List.cons_append, cut]
      dsimp only
      rw [if_neg hno, ih h, List.append_assoc]
      rfl

end Scan

open Scan

/-- In a piece nothing separates. -/
theorem isSome_through?_of_mem_cut {piece : Text} (hcurrent : through? separators {} current = some scan)
    (h : piece ∈ cut separators scan current t) : (through? separators {} piece).isSome = true := by
  induction t generalizing scan current with
  | nil =>
    rw [List.mem_singleton.1 h, hcurrent]
    rfl
  | cons c t ih =>
    rw [cut] at h
    dsimp only at h
    split at h
    · rename_i hseparates
      rw [(of_step hseparates).2.2] at h
      rcases List.mem_cons.1 h with rfl | h
      · rw [hcurrent]
        rfl
      · exact @ih {} [] rfl h
    · rename_i hno
      refine ih ?_ h
      rw [through?_append, hcurrent, Option.bind_some, through?, if_neg hno]
      rfl

/-- The characters that open, close or escape. -/
def enclosing : List Char := ['\\', '"', '\'', '(', ')']

/-- Outside everything, other characters change nothing. -/
theorem Scan.step_of_notMem (hc : c ∉ enclosing) : Scan.step separators {} c = ({}, separators.contains c) := by
  have hne : ∀ d ∈ enclosing, c ≠ d := fun d hd heq => hc (heq ▸ hd)
  simp [Scan.step, hne '\\' (by decide), hne '"' (by decide), hne '\'' (by decide), hne '(' (by decide),
    hne ')' (by decide)]

theorem notMem_enclosing_of_isBlank (h : isBlank c = true) : c ∉ enclosing := by
  have henclosing : ∀ c ∈ enclosing, isBlank c = false := by decide
  intro hc
  rw [henclosing c hc] at h
  cases h

/-- Blanks in which nothing separates leave the scan outside everything. -/
theorem Scan.through?_of_isBlank (ht : ∀ c ∈ t, isBlank c = true)
    (hnone : (through? separators {} t).isSome = true) : through? separators {} t = some {} := by
  induction t with
  | nil => rfl
  | cons c t ih =>
    obtain ⟨hc, ht⟩ := List.forall_mem_cons.1 ht
    rw [through?, step_of_notMem (notMem_enclosing_of_isBlank hc)] at hnone ⊢
    dsimp only at hnone ⊢
    split at hnone
    · cases hnone
    · rename_i hno
      rw [if_neg hno]
      exact ih ht hnone

/-- In an item nothing separates. -/
theorem isSome_through?_of_mem_split (h : item ∈ split separators last t) :
    (through? separators {} item).isSome = true := by
  obtain ⟨piece, hpiece, rfl⟩ := exists_of_mem_items h
  obtain ⟨lead, trail, heq, hlead, -⟩ := piece.blanks_append_trim
  have hthrough : (through? separators {} piece).isSome = true := isSome_through?_of_mem_cut rfl hpiece
  rw [heq] at hthrough
  have hblanks := Scan.through?_of_isBlank hlead (isSome_through?_of_append hthrough)
  rw [through?_append, hblanks, Option.bind_some] at hthrough
  exact isSome_through?_of_append hthrough

/-! ## Marks -/

/-- The characters that the scan of a comma list reads. -/
def marks : List Char := ['\\', '"', '\'', '(', ')', ',']

theorem notMem_marks_of_isBlank (h : isBlank c = true) : c ∉ marks := by
  have hmarks : ∀ c ∈ marks, isBlank c = false := by decide
  intro hc
  rw [hmarks c hc] at h
  cases h

/-- An open quote is a quote. -/
def Scan.IsSound (s : Scan) : Prop := ∀ q ∈ s.quote, q ∈ marks

theorem Scan.isSound_start : Scan.IsSound {} := fun _ h => nomatch h

theorem Scan.IsSound.step (h : scan.IsSound) (c : Char) : (scan.step [','] c).1.IsSound := by
  unfold Scan.step
  split
  · exact h
  split
  · exact h
  split
  · rename_i quote hquote
    intro q hq
    dsimp only at hq
    split at hq
    · cases hq
    · obtain rfl := Option.some.inj hq
      exact h quote hquote
  split
  · rename_i hc
    intro q hq
    obtain rfl : c = q := Option.some.inj hq
    rw [Bool.or_eq_true, decide_eq_true_eq, decide_eq_true_eq] at hc
    rcases hc with rfl | rfl <;> decide
  split
  · exact h
  split
  · exact h
  · exact h

/-- A character that is no mark ends an escape. -/
theorem Scan.IsSound.step_of_notMem (h : scan.IsSound) (hc : c ∉ marks) :
    scan.step [','] c = ({ scan with escaped := false }, false) := by
  have hne : ∀ d ∈ marks, c ≠ d := fun d hd heq => hc (heq ▸ hd)
  obtain ⟨escaped, quote, depth⟩ := scan
  unfold Scan.step
  cases escaped with
  | true => rfl
  | false =>
    rw [if_neg Bool.false_ne_true, if_neg (hne '\\' (by decide))]
    cases quote with
    | some quote =>
      dsimp only
      rw [if_neg (hne quote (h quote rfl))]
    | none =>
      simp [hne '"' (by decide), hne '\'' (by decide), hne '(' (by decide), hne ')' (by decide), hne ',' (by decide)]

/-- Characters that are no marks end an escape. -/
theorem Scan.IsSound.through?_of_notMem (h : scan.IsSound) (ht : ∀ c ∈ t, c ∉ marks) (hne : t ≠ []) :
    through? [','] scan t = some { scan with escaped := false } := by
  induction t generalizing scan with
  | nil => exact absurd rfl hne
  | cons c t ih =>
    have hstep := h.step_of_notMem (ht c List.mem_cons_self)
    rw [through?, hstep, if_neg Bool.false_ne_true]
    cases t with
    | nil => rfl
    | cons d t =>
      have hsound := h.step c
      rw [hstep] at hsound
      exact ih hsound (fun e he => ht e (.tail _ he)) (List.cons_ne_nil d t)

theorem Scan.through?_blanks (ht : ∀ c ∈ t, isBlank c = true) : through? [','] {} t = some {} := by
  by_cases hne : t = []
  · rw [hne]
    rfl
  · exact isSound_start.through?_of_notMem (fun c hc => notMem_marks_of_isBlank (ht c hc)) hne

/-! ## Closed items -/

/-- The quotes, parentheses and escapes of a text end in it. -/
def IsClosed (t : Text) : Prop := Scan.along [','] {} t = {}

instance (t : Text) : Decidable (IsClosed t) := inferInstanceAs (Decidable (_ = _))

theorem IsClosed.through?_eq (hclosed : IsClosed item) (h : item ∈ byComma t) : through? [','] {} item = some {} := by
  obtain ⟨scan, hscan⟩ := Option.isSome_iff_exists.1 (isSome_through?_of_mem_split h)
  rw [hscan, ← along_eq hscan, hclosed]

/-- Closed items with a comma and blanks between them are the pieces, with the blanks before them. -/
theorem cut_join {blanks : Text} (hblanks : ∀ c ∈ blanks, isBlank c = true)
    (hq : through? [','] {} item = some {}) (hqs : ∀ q ∈ qs, through? [','] {} q = some {}) (current : Text) :
    cut [','] {} current (Text.join (',' :: blanks) (item :: qs)) = (current ++ item) :: qs.map (blanks ++ ·) := by
  induction qs generalizing item current with
  | nil =>
    have hcut := cut_append hq current []
    rwa [List.append_nil] at hcut
  | cons q qs ih =>
    have hcomma : cut [','] {} (current ++ item) (',' :: (blanks ++ Text.join (',' :: blanks) (q :: qs))) =
        (current ++ item) :: cut [','] {} [] (blanks ++ Text.join (',' :: blanks) (q :: qs)) := rfl
    rw [Text.join_cons_cons, cut_append hq, hcomma, cut_append (Scan.through?_blanks hblanks), List.nil_append,
      ih (hqs q List.mem_cons_self) (fun q' hq' => hqs q' (.tail _ hq'))]
    rfl

/-- Closed items that are joined are cut into the same items. -/
theorem byComma_join {blanks : Text} (hblanks : ∀ c ∈ blanks, isBlank c = true)
    (hqs : ∀ q ∈ qs, through? [','] {} q = some {} ∧ q ≠ [] ∧ q.IsTrimmed) (hne : qs ≠ []) :
    byComma (Text.join (',' :: blanks) qs) = qs := by
  obtain ⟨q, qs, rfl⟩ := List.exists_cons_of_ne_nil hne
  have hcut := cut_join hblanks (hqs q List.mem_cons_self).1 (fun q' hq' => (hqs q' (.tail _ hq')).1) []
  have hpieces : ∀ piece ∈ q :: qs.map (blanks ++ ·), piece ≠ [] := by
    intro piece hpiece
    rcases List.mem_cons.1 hpiece with rfl | hpiece
    · exact (hqs piece List.mem_cons_self).2.1
    · obtain ⟨q', hq', rfl⟩ := List.mem_map.1 hpiece
      exact List.append_ne_nil_of_right_ne_nil _ (hqs q' (.tail _ hq')).2.1
  have htrim : qs.map (Text.trim ∘ (blanks ++ ·)) = qs :=
    (List.map_congr_left fun q' hq' => (hqs q' (.tail _ hq')).2.2.trim_append hblanks).trans (List.map_id qs)
  rw [byComma, split, hcut, List.nil_append, items_eq_map hpieces, List.map_cons, List.map_map, htrim,
    (hqs q List.mem_cons_self).2.2.trim_eq]

/-! ## The first separator -/

/-- The first comma at which a text is cut, with the blanks after it. -/
def separatorAfter? (s : Scan) : Text → Option Text
  | [] => none
  | c :: t =>
    if (s.step [','] c).2 then some (c :: Text.leadingBlanks t) else separatorAfter? (s.step [','] c).1 t

/-- What stands between the items of a comma list: the first comma that separates, with the blanks after it. -/
def firstSeparator? (t : Text) : Option Text := separatorAfter? {} t

theorem prefix_of_mem_head?_cut {piece : Text} (h : piece ∈ (cut separators scan current t).head?) :
    current <+: piece := by
  induction t generalizing scan current with
  | nil => exact Option.some.inj h ▸ List.prefix_rfl
  | cons c t ih =>
    rw [cut] at h
    dsimp only at h
    split at h
    · exact Option.some.inj h ▸ List.prefix_rfl
    · exact (List.prefix_append current [c]).trans (ih h)

/-- Where no comma stands in the first item, none stands in the first piece. -/
theorem notMem_of_mem_head?_cut {piece : Text} (hitem : item ∈ (byComma t).head?) (hcomma : ',' ∉ item)
    (hpiece : piece ∈ (cut [','] {} [] t).head?) : ',' ∉ piece := by
  intro hmem
  have hin : [','] <:+: piece.trim :=
    Text.infix_trim (List.cons_ne_nil _ _) (by decide) (List.infix_iff_prefix_suffix.2 (by
      obtain ⟨a, b, rfl⟩ := List.append_of_mem hmem
      exact ⟨',' :: b, ⟨b, rfl⟩, List.suffix_append a _⟩))
  obtain ⟨pieces, hcut⟩ := List.head?_eq_some_iff.1 hpiece
  have hfirst : item = piece.trim := by
    rw [byComma, split, hcut] at hitem
    cases pieces with
    | nil => exact (Option.some.inj hitem).symm
    | cons next pieces =>
      rw [items_cons (List.cons_ne_nil _ _), List.isEmpty_eq_false_iff.2 (List.ne_nil_of_mem hmem),
        if_neg Bool.false_ne_true] at hitem
      exact (Option.some.inj hitem).symm
  rw [hfirst] at hcomma
  exact hcomma (hin.subset List.mem_cons_self)

end Separated

end VendorCss
