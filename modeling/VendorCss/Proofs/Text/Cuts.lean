import Mathlib.Data.List.DropRight
import Mathlib.Data.List.Nodup
import Mathlib.Data.List.TakeWhile
import VendorCss.Text

/-!
# What cuts keep

A cut loses nothing: the parts of `splitFirst` and `splitLast` with the needle between them are the text. A text that
keeps its end under `trimEnd` does not end with a blank, so each of its suffixes keeps its end as well. Texts made
distinct are the same texts.
-/

namespace VendorCss.Text

/-! ## Blanks and words -/

theorem isBlank_of_isAsciiWordChar {c : Char} (h : isAsciiWordChar c = true) : isBlank c = false := by
  unfold isAsciiWordChar isAsciiLetter isAsciiDigit at h
  simp only [Bool.or_eq_true, Bool.and_eq_true, decide_eq_true_eq, beq_iff_eq, Char.le_def, UInt32.le_iff_toNat_le] at h
  have hle : 0x30 ≤ c.toNat ∧ c.toNat ≤ 0x7A := by
    rcases h with ((⟨h, h'⟩ | ⟨h, h'⟩) | ⟨h, h'⟩) | rfl
    · exact ⟨Nat.le_trans (by decide) h, h'⟩
    · exact ⟨Nat.le_trans (by decide) h, Nat.le_trans h' (by decide)⟩
    · exact ⟨h, Nat.le_trans h' (by decide)⟩
    · decide
  unfold isBlank
  simp only [Bool.or_eq_false_iff, Bool.and_eq_false_iff, decide_eq_false_iff_not, beq_eq_false_iff_ne]
  omega

theorem isAsciiWordChar_of_isDigit {c : Char} (h : c.isDigit = true) : isAsciiWordChar c = true := by
  have hdigit : isAsciiDigit c = true := by
    simpa [Char.isDigit, isAsciiDigit, Char.le_def] using h
  rw [isAsciiWordChar, hdigit, Bool.or_true, Bool.true_or]

/-! ## Blanks at the end -/

theorem trimEnd_eq_rdropWhile (t : Text) : t.trimEnd = t.rdropWhile isBlank := rfl

@[simp] theorem trimEnd_nil : trimEnd [] = [] := rfl

@[simp] theorem trimEnd_trimEnd (t : Text) : t.trimEnd.trimEnd = t.trimEnd := List.rdropWhile_idempotent _ _

/-- A suffix of a text without blanks at its end has none either. -/
theorem trimEnd_eq_self_of_suffix {s t : Text} (h : s <:+ t) (ht : t.trimEnd = t) : s.trimEnd = s := by
  rw [trimEnd_eq_rdropWhile, List.rdropWhile_eq_self_iff] at ht ⊢
  intro hs
  rw [h.getLast hs]
  exact ht _

theorem trimStart_suffix (t : Text) : t.trimStart <:+ t := List.dropWhile_suffix _

theorem trim_infix (t : Text) : t.trim <:+: t :=
  (List.rdropWhile_prefix isBlank t.trimStart).isInfix.trans (trimStart_suffix t).isInfix

/-- Trimming takes blanks only. -/
theorem countP_trim (t : Text) : (t.trim).countP (!isBlank ·) = t.countP (!isBlank ·) := by
  have hblanks {s : Text} (hs : ∀ c ∈ s, isBlank c = true) : s.countP (!isBlank ·) = 0 := by
    rw [List.countP_eq_zero]
    intro c hc
    rw [hs c hc]
    decide
  have hstart := congrArg (List.countP (!isBlank ·)) (leadingBlanks_append_trimStart t)
  have hend := congrArg (List.countP (!isBlank ·)) (trimEnd_append_trailingBlanks t.trimStart)
  have hleading := hblanks (s := t.leadingBlanks) fun c => List.mem_takeWhile_imp
  have htrailing := hblanks (s := t.trimStart.trailingBlanks) fun c hc => List.mem_takeWhile_imp (List.mem_reverse.1 hc)
  rw [List.countP_append] at hstart hend
  rw [trim]
  omega

/-! ## Cuts at a needle -/

theorem dropStart?_eq_some {s t r : Text} (h : dropStart? s t = some r) : t = s ++ r := by
  induction s generalizing t with
  | nil => exact Option.some.inj h
  | cons c s ih =>
    cases t with
    | nil => cases h
    | cons d t =>
      rw [dropStart?] at h
      split at h
      · rename_i hcd
        rw [hcd, ih h, List.cons_append]
      · cases h

theorem splitFirst_eq_some {needle t a b : Text} (h : splitFirst needle t = some (a, b)) : t = a ++ needle ++ b := by
  induction t generalizing a with
  | nil =>
    obtain ⟨r, hr, he⟩ := Option.map_eq_some_iff.1 h
    cases he
    exact dropStart?_eq_some hr
  | cons c t ih =>
    rw [splitFirst] at h
    split at h
    · rename_i rest hrest
      cases h
      exact dropStart?_eq_some hrest
    · obtain ⟨⟨a', b'⟩, hab, he⟩ := Option.map_eq_some_iff.1 h
      cases he
      rw [ih hab]
      rfl

theorem dropStart?_append (s r : Text) : dropStart? s (s ++ r) = some r := by
  induction s with
  | nil => rfl
  | cons c s ih => rw [List.cons_append, dropStart?, if_pos rfl, ih]

/-- A needle is found where it stands. -/
theorem contains_iff {needle t : Text} : contains t needle = true ↔ needle <:+: t := by
  constructor
  · intro h
    obtain ⟨⟨a, b⟩, hab⟩ := Option.isSome_iff_exists.1 h
    exact ⟨a, b, (splitFirst_eq_some hab).symm⟩
  · rintro ⟨a, b, rfl⟩
    rw [contains]
    induction a with
    | nil =>
      have hdrop := dropStart?_append needle b
      rw [List.nil_append]
      cases h : needle ++ b with
      | nil =>
        rw [h] at hdrop
        rw [splitFirst, hdrop]
        rfl
      | cons c t =>
        rw [h] at hdrop
        rw [splitFirst, hdrop]
        rfl
    | cons c a ih =>
      rw [List.append_assoc, List.cons_append, splitFirst, ← List.append_assoc]
      split
      · rfl
      · rw [Option.isSome_map]
        exact ih

theorem splitLast_eq_some {needle t a b : Text} (h : splitLast needle t = some (a, b)) : t = a ++ needle ++ b := by
  obtain ⟨⟨b', a'⟩, hab, he⟩ := Option.map_eq_some_iff.1 h
  cases he
  rw [← List.reverse_reverse t, splitFirst_eq_some hab]
  simp

/-- The only text of one character is found at its last place. -/
theorem splitLast_of_notMem {c : Char} {s t : Text} (h : c ∉ t) : splitLast [c] (s ++ c :: t) = some (s, t) := by
  have hfirst : ∀ r : Text, c ∉ r → splitFirst [c] (r ++ c :: s.reverse) = some (r, s.reverse) := by
    intro r hr
    induction r with
    | nil => rw [List.nil_append, splitFirst, dropStart?, if_pos rfl, dropStart?]
    | cons d r ih =>
      rw [List.mem_cons, not_or] at hr
      rw [List.cons_append, splitFirst, dropStart?, if_neg hr.1]
      dsimp only
      rw [ih hr.2]
      rfl
  have hreverse : (s ++ c :: t).reverse = t.reverse ++ c :: s.reverse := by simp
  rw [splitLast, hreverse, List.reverse_singleton, hfirst t.reverse (mt List.mem_reverse.1 h), Option.map_some]
  simp

/-! ## Needles without a character -/

/-- What a character cannot be part of stands on one side of it. -/
theorem infix_of_infix_append_cons {needle s t : Text} {c : Char} (hc : c ∉ needle) (h : needle <:+: s ++ c :: t) :
    needle <:+: s ∨ needle <:+: t := by
  rcases List.infix_append_iff.1 h with h | h | ⟨l, r, rfl, hl, hr⟩
  · exact .inl h
  · rcases List.infix_cons_iff.1 h with h | h
    · cases needle with
      | nil => exact .inl List.nil_infix
      | cons d needle =>
        obtain ⟨rfl, _⟩ := List.cons_prefix_cons.1 h
        exact absurd List.mem_cons_self hc
    · exact .inr h
  · cases r with
    | nil =>
      rw [List.append_nil]
      exact .inl hl.isInfix
    | cons d r =>
      obtain ⟨rfl, _⟩ := List.cons_prefix_cons.1 hr
      exact absurd (List.mem_append_right l List.mem_cons_self) hc

/-! ## Pieces -/

theorem piecesBy_ne_nil (sep : Char → Bool) (t : Text) : piecesBy sep t ≠ [] := by
  cases t with
  | nil => exact List.cons_ne_nil _ _
  | cons c t =>
    rw [piecesBy]
    split
    · exact List.cons_ne_nil _ _
    · split <;> exact List.cons_ne_nil _ _

/-- Nothing separates. -/
theorem piecesBy_of_forall {sep : Char → Bool} {t : Text} (h : ∀ c ∈ t, sep c = false) : piecesBy sep t = [t] := by
  induction t with
  | nil => rfl
  | cons c t ih =>
    rw [piecesBy, h c List.mem_cons_self, ih fun d hd => h d (List.mem_cons_of_mem _ hd)]
    rfl

/-- The first separator ends the first piece. -/
theorem piecesBy_append_cons {sep : Char → Bool} {s t : Text} {c : Char} (h : ∀ d ∈ s, sep d = false)
    (hc : sep c = true) : piecesBy sep (s ++ c :: t) = s :: piecesBy sep t := by
  induction s with
  | nil =>
    rw [List.nil_append, piecesBy, hc]
    rfl
  | cons d s ih =>
    rw [List.cons_append, piecesBy, h d List.mem_cons_self, ih fun e he => h e (List.mem_cons_of_mem _ he)]
    rfl

/-- The first piece starts the text, and every piece stands in it. -/
theorem infix_of_mem_piecesBy {sep : Char → Bool} {t : Text} :
    (∀ p ∈ (piecesBy sep t).head?, p <+: t) ∧ ∀ p ∈ piecesBy sep t, p <:+: t := by
  induction t with
  | nil =>
    simp only [piecesBy, List.head?_cons, Option.mem_some_iff, List.mem_singleton]
    exact ⟨fun p hp => hp ▸ List.nil_prefix, fun p hp => hp ▸ List.nil_infix⟩
  | cons c t ih =>
    have hlater : ∀ p ∈ piecesBy sep t, p <:+: c :: t := fun p hp => (ih.2 p hp).trans (List.suffix_cons c t).isInfix
    rw [piecesBy]
    split
    · refine ⟨fun p hp => Option.some.inj hp ▸ List.nil_prefix, fun p hp => ?_⟩
      rcases List.mem_cons.1 hp with rfl | hp
      · exact List.nil_infix
      · exact hlater p hp
    · split
      · rename_i hnil
        exact absurd hnil (piecesBy_ne_nil sep t)
      · rename_i first rest hpieces
        rw [hpieces] at ih hlater
        have hfirst : c :: first <+: c :: t := List.cons_prefix_cons.2 ⟨rfl, ih.1 first rfl⟩
        refine ⟨fun p hp => Option.some.inj hp ▸ hfirst, fun p hp => ?_⟩
        rcases List.mem_cons.1 hp with rfl | hp
        · exact hfirst.isInfix
        · exact hlater p (List.mem_cons_of_mem _ hp)

theorem infix_of_mem_words {t w : Text} (h : w ∈ words t) : w <:+: t :=
  infix_of_mem_piecesBy.2 w (List.mem_filter.1 h).1

/-- A word before a blank is the first one. -/
theorem words_append_cons {s : Text} {c : Char} (hs : ∀ d ∈ s, isBlank d = false) (hne : s ≠ [])
    (hc : isBlank c = true) (t : Text) : words (s ++ c :: t) = s :: words t := by
  rw [words, piecesBy_append_cons hs hc, List.filter_cons_of_pos (by simpa using hne), words]

/-- One text alone is joined without a separator. -/
theorem join_eq_join {ts : List Text} (h : ts.length ≤ 1) {sep sep' : Text} : join sep ts = join sep' ts := by
  match ts, h with
  | [], _ => rfl
  | [t], _ => rfl

theorem join_cons_cons (c : Char) (sep t u : Text) (ts : List Text) :
    join (c :: sep) (t :: u :: ts) = t ++ c :: (sep ++ join (c :: sep) (u :: ts)) := by
  rw [join, List.append_assoc, List.cons_append]
  exact List.cons_ne_nil _ _

/-- Words joined by a space are these words again. -/
theorem words_join {ws : List Text} (h : ∀ w ∈ ws, w ≠ [] ∧ ∀ c ∈ w, isBlank c = false) : words (join " " ws) = ws := by
  induction ws with
  | nil => rfl
  | cons w ws ih =>
    obtain ⟨hne, hw⟩ := h w List.mem_cons_self
    cases ws with
    | nil =>
      rw [join, words, piecesBy_of_forall hw]
      exact List.filter_eq_self.2 (by simpa using hne)
    | cons v ws =>
      have hjoin : join " " (w :: v :: ws) = w ++ ' ' :: join " " (v :: ws) := join_cons_cons ' ' [] w v ws
      rw [hjoin, words_append_cons hw hne rfl, ih fun u hu => h u (List.mem_cons_of_mem w hu)]

theorem infix_join_of_mem {t : Text} {ts : List Text} (h : t ∈ ts) (sep : Text) : t <:+: join sep ts := by
  induction ts with
  | nil => cases h
  | cons u ts ih =>
    cases ts with
    | nil =>
      rw [List.mem_singleton.1 h]
      exact List.infix_rfl
    | cons v ts =>
      rw [join]
      · rcases List.mem_cons.1 h with rfl | h
        · exact ((List.prefix_append t sep).trans (List.prefix_append _ _)).isInfix
        · exact (ih h).trans (List.suffix_append _ _).isInfix
      · exact List.cons_ne_nil _ _

/-- Joining with one more item at the end. -/
theorem join_concat (sep : Text) (ts : List Text) (s t : Text) :
    join sep (ts ++ [s ++ t]) = join sep (ts ++ [s]) ++ t := by
  induction ts with
  | nil => rfl
  | cons u ts ih =>
    cases ts with
    | nil => simp [join]
    | cons v ts =>
      simp only [List.cons_append, join] at ih ⊢
      rw [ih]
      simp only [List.append_assoc]

theorem join_pieces (sep : Char) (t : Text) : join [sep] (pieces sep t) = t := by
  unfold pieces
  induction t with
  | nil => rfl
  | cons c t ih =>
    have hne := piecesBy_ne_nil (· == sep) t
    rw [piecesBy]
    split
    · rename_i hc
      cases hp : piecesBy (· == sep) t with
      | nil => exact absurd hp hne
      | cons p ps =>
        rw [hp] at ih
        rw [join, ih, eq_of_beq hc]
        · rfl
        · exact List.cons_ne_nil p ps
    · cases hp : piecesBy (· == sep) t with
      | nil => exact absurd hp hne
      | cons p ps =>
        rw [hp] at ih
        rw [← ih]
        cases ps <;> rfl

/-- The separator stands in no piece. -/
theorem notMem_of_mem_pieces {sep : Char} {t p : Text} (h : p ∈ pieces sep t) : sep ∉ p := by
  unfold pieces at h
  induction t generalizing p with
  | nil =>
    rw [piecesBy, List.mem_singleton] at h
    rw [h]
    exact List.not_mem_nil
  | cons c t ih =>
    rw [piecesBy] at h
    split at h
    · rcases List.mem_cons.1 h with rfl | h
      · exact List.not_mem_nil
      · exact ih h
    · rename_i hc
      have hne : sep ≠ c := fun heq => hc (by rw [heq]; exact beq_self_eq_true c)
      cases hp : piecesBy (· == sep) t with
      | nil => exact absurd hp (piecesBy_ne_nil _ t)
      | cons q ps =>
        rw [hp] at h ih
        rcases List.mem_cons.1 h with rfl | h
        · exact List.not_mem_cons_of_ne_of_not_mem hne (ih List.mem_cons_self)
        · exact ih (List.mem_cons_of_mem _ h)

/-! ## Bytes -/

theorem byteLength_append (s t : Text) : byteLength (s ++ t) = byteLength s + byteLength t := by
  have hfold : ∀ (t : Text) (n : Nat), t.foldl (fun n c => n + c.utf8Size) n = n + byteLength t := by
    intro t
    induction t with
    | nil => exact fun n => rfl
    | cons c t ih =>
      intro n
      rw [byteLength, List.foldl_cons, List.foldl_cons, ih, ih]
      omega
  rw [byteLength, List.foldl_append, hfold t]
  rfl

theorem byteLength_cons (c : Char) (t : Text) : byteLength (c :: t) = c.utf8Size + byteLength t := by
  have h := byteLength_append [c] t
  rwa [show byteLength [c] = c.utf8Size from Nat.zero_add _] at h

/-- A text has at least one byte for each character. -/
theorem length_le_byteLength (t : Text) : t.length ≤ t.byteLength := by
  induction t with
  | nil => exact Nat.le_refl 0
  | cons c t ih =>
    have hsize := c.utf8Size_pos
    rw [byteLength_cons, List.length_cons]
    omega

/-! ## Lists of texts -/

/-- A list keeps its members when each stays at its first place only. -/
theorem mem_distinct {ts : List Text} {t : Text} : t ∈ distinct ts ↔ t ∈ ts := by
  have h : ∀ seen : List Text,
      t ∈ ts.foldl (fun (seen : List Text) t => if seen.contains t then seen else t :: seen) seen ↔
        t ∈ seen ∨ t ∈ ts := by
    induction ts with
    | nil => simp
    | cons u ts ih =>
      intro seen
      rw [List.foldl_cons, ih]
      by_cases hu : u ∈ seen
      · simp only [List.contains_iff_mem.2 hu, ↓reduceIte, List.mem_cons]
        grind
      · simp only [List.contains_iff_mem, hu, ↓reduceIte, List.mem_cons]
        grind
  rw [distinct, List.mem_reverse, h]
  simp

theorem nodup_distinct (ts : List Text) : (distinct ts).Nodup := by
  have h : ∀ seen : List Text, seen.Nodup →
      (ts.foldl (fun (seen : List Text) t => if seen.contains t then seen else t :: seen) seen).Nodup := by
    induction ts with
    | nil => exact fun _ hseen => hseen
    | cons u ts ih =>
      intro seen hseen
      rw [List.foldl_cons]
      apply ih
      by_cases hu : u ∈ seen
      · simpa only [List.contains_iff_mem.2 hu, ↓reduceIte] using hseen
      · simpa only [List.contains_iff_mem, hu, ↓reduceIte, List.nodup_cons, not_false_eq_true, true_and] using hseen
  rw [distinct, List.nodup_reverse]
  exact h [] List.nodup_nil

/-- One more text is one more distinct text, unless it is there. -/
theorem distinct_concat (ts : List Text) (t : Text) :
    distinct (ts ++ [t]) = if t ∈ ts then distinct ts else distinct ts ++ [t] := by
  have h := @mem_distinct ts t
  unfold distinct at h ⊢
  rw [List.mem_reverse] at h
  rw [List.foldl_append, List.foldl_cons, List.foldl_nil]
  by_cases ht : t ∈ ts
  · rw [if_pos ht, if_pos (List.contains_iff_mem.2 (h.2 ht))]
  · rw [if_neg ht, if_neg (by rwa [List.contains_iff_mem, h]), List.reverse_cons]

/-- The first text stays the first one. -/
theorem head?_distinct (ts : List Text) : (distinct ts).head? = ts.head? := by
  induction ts using List.reverseRecOn with
  | nil => rfl
  | append_singleton ts t ih =>
    rw [distinct_concat]
    split
    · rename_i ht
      rw [ih, List.head?_append_of_ne_nil _ (List.ne_nil_of_mem ht)]
    · rw [List.head?_append, List.head?_append, ih]

theorem distinct_filter (keep : Text → Bool) (ts : List Text) :
    distinct (ts.filter keep) = (distinct ts).filter keep := by
  induction ts using List.reverseRecOn with
  | nil => rfl
  | append_singleton ts t ih =>
    rw [List.filter_append, distinct_concat]
    cases ht : keep t with
    | false =>
      rw [List.filter_cons_of_neg (by rw [ht]; exact Bool.false_ne_true), List.filter_nil, List.append_nil, ih]
      split
      · rfl
      · rw [List.filter_append, List.filter_cons_of_neg (by rw [ht]; exact Bool.false_ne_true), List.filter_nil,
          List.append_nil]
    | true =>
      have hmem : t ∈ ts.filter keep ↔ t ∈ ts := List.mem_filter.trans (and_iff_left ht)
      rw [List.filter_cons_of_pos ht, List.filter_nil, distinct_concat, ih]
      simp only [hmem]
      split
      · rfl
      · rw [List.filter_append, List.filter_cons_of_pos ht, List.filter_nil]

/-- Texts that stand for themselves only, several times over. -/
theorem distinct_flatMap {f : Text → List Text} {ts : List Text} (h : ∀ t ∈ ts, f t ≠ [] ∧ ∀ u ∈ f t, u = t) :
    distinct (ts.flatMap f) = distinct ts := by
  have hrepeat : ∀ (ts : List Text) (t : Text) (n : Nat),
      distinct (ts ++ List.replicate (n + 1) t) = distinct (ts ++ [t]) := by
    intro ts t n
    induction n with
    | zero => rfl
    | succ n ih =>
      rw [List.replicate_succ', ← List.append_assoc, distinct_concat, if_pos, ih]
      exact List.mem_append_right _ (List.mem_replicate.2 ⟨Nat.succ_ne_zero n, rfl⟩)
  induction ts using List.reverseRecOn with
  | nil => rfl
  | append_singleton ts t ih =>
    have hts : ∀ u ∈ ts, f u ≠ [] ∧ ∀ v ∈ f u, v = u := fun u hu => h u (List.mem_append_left _ hu)
    obtain ⟨hne, heq⟩ := h t (List.mem_append_right _ List.mem_cons_self)
    obtain ⟨n, hn⟩ := Nat.exists_eq_succ_of_ne_zero (mt List.eq_nil_of_length_eq_zero hne)
    have hmem : t ∈ ts.flatMap f ↔ t ∈ ts := by
      rw [List.mem_flatMap]
      refine ⟨fun ⟨u, hu, htu⟩ => (hts u hu).2 t htu ▸ hu, fun ht => ⟨t, ht, ?_⟩⟩
      obtain ⟨u, hu⟩ := List.exists_mem_of_ne_nil _ (hts t ht).1
      exact (hts t ht).2 u hu ▸ hu
    rw [List.flatMap_append, List.flatMap_singleton, List.eq_replicate_of_mem heq, hn, hrepeat, distinct_concat,
      distinct_concat, ih hts]
    simp only [hmem]

/-- Distinct texts stand in the order of their first places. -/
theorem pairwise_distinct (ts : List Text) : (distinct ts).Pairwise fun s t => ts.idxOf s < ts.idxOf t := by
  induction ts using List.reverseRecOn with
  | nil => exact List.Pairwise.nil
  | append_singleton ts t ih =>
    have hold : ∀ s ∈ distinct ts, (ts ++ [t]).idxOf s = ts.idxOf s := fun s hs =>
      List.idxOf_append_of_mem (mem_distinct.1 hs)
    have ih : (distinct ts).Pairwise fun r s => (ts ++ [t]).idxOf r < (ts ++ [t]).idxOf s := by
      refine ih.imp_of_mem fun hr hs hrs => ?_
      rwa [hold _ hr, hold _ hs]
    rw [distinct_concat]
    split
    · exact ih
    · rename_i ht
      refine List.pairwise_append.2 ⟨ih, List.pairwise_singleton _ _, ?_⟩
      intro s hs u hu
      obtain rfl := List.mem_singleton.1 hu
      rw [hold s hs, List.idxOf_append_of_notMem ht]
      exact Nat.lt_add_right _ (List.idxOf_lt_length_of_mem (mem_distinct.1 hs))

end VendorCss.Text
