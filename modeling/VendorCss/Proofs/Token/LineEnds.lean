import Mathlib
import VendorCss.Css.Position
import VendorCss.Proofs.Token.Rejoining

/-!
# Line ends and tokens

A position counts the lines that have ended before it, and the UTF-16 units of the line that it is on
(`Position.place_eq`). A carriage return and the line feed after it are one line end. No token ends between them
(`tokens_newlines`), so the position after a text can be counted token by token (`Position.advance_append`).
-/

namespace VendorCss

/-- Two texts of which one ends with a carriage return, and the other starts with the line feed that belongs to it. -/
def CutsNewline (p q : Text) : Prop := p.getLast? = some '\r' ∧ q.head? = some '\n'

theorem CutsNewline.append {p q : Text} (h : CutsNewline p q) (before : Text) : CutsNewline (before ++ p) q :=
  ⟨by rw [List.getLast?_append, h.1]; rfl, h.2⟩

/-! ## Positions -/

namespace Position

/-- A position on an earlier line, or before another one of the same line. -/
def Before (p q : Position) : Prop := p.line < q.line ∨ p.line = q.line ∧ p.column < q.column

instance (p q : Position) : Decidable (p.Before q) := inferInstanceAs (Decidable (_ ∨ _))

variable {p q r : Position} {s t : Text}

theorem Before.trans (hpq : p.Before q) (hqr : q.Before r) : p.Before r := by
  unfold Before at *
  omega

theorem units_pos (c : Char) : 0 < units c := by
  unfold units
  split <;> decide

/-- Text moves a position on. -/
theorem before_advance (h : t ≠ []) (p : Position) : p.Before (p.advance t) := by
  fun_induction advance p t with
  | case1 p => exact absurd rfl h
  | case2 p t ih =>
    have hline : p.Before p.newLine := .inl (Nat.lt_succ_self _)
    by_cases ht : t = []
    · rwa [ht, advance]
    · exact hline.trans (ih ht)
  | case3 p c t hnot ih =>
    have hnext : p.Before (if c = '\n' || c = '\r' || c = '\x0c' then p.newLine else ⟨p.line, p.column + units c⟩) := by
      split
      · exact .inl (Nat.lt_succ_self _)
      · exact .inr ⟨rfl, Nat.lt_add_of_pos_right (units_pos c)⟩
    by_cases ht : t = []
    · rwa [ht, advance]
    · exact hnext.trans (ih ht)

/-- The position after two texts, unless they cut a line end. -/
theorem advance_append (h : ¬CutsNewline s t) (p : Position) : p.advance (s ++ t) = (p.advance s).advance t := by
  fun_induction advance p s with
  | case1 p => rfl
  | case2 p s ih =>
    rw [List.cons_append, List.cons_append, advance]
    exact ih fun hcut => h (hcut.append ['\r', '\n'])
  | case3 p c s hnot ih =>
    rw [List.cons_append, advance]
    · exact ih fun hcut => h (hcut.append [c])
    · intro rest hc hrest
      cases s with
      | nil => exact h ⟨by rw [hc]; rfl, by rw [List.nil_append] at hrest; rw [hrest]; rfl⟩
      | cons d s => exact hnot s hc (by rw [(List.cons.inj hrest).1])

end Position

/-- The position after a text. -/
def Text.place (t : Text) : Position := Position.start.advance t

/-! ## Lines -/

/-- The line ends. -/
def lineEnds : List Text := ["\n", "\r", "\r\n", "\x0c"]

/-- Characters of one line, with the line end after them. -/
def Text.IsLine (t : Text) : Prop := ∃ l, ∃ e ∈ lineEnds, t = l ++ e ∧ ∀ c ∈ l, Token.isLineEnd c = false

/-- The lines of a text, and what follows the last line end. -/
inductive Text.AreLines : (t : Text) → (lines : List Text) → (last : Text) → Prop
  | last {t : Text} (ht : ∀ c ∈ t, Token.isLineEnd c = false) : AreLines t [] t
  | line {l t last : Text} {lines : List Text} (hl : IsLine l) (hcut : ¬CutsNewline l t) (ht : AreLines t lines last) :
      AreLines (l ++ t) (l :: lines) last

namespace Position

variable {t last : Text} {lines : List Text}

theorem advance_last (h : ∀ c ∈ t, Token.isLineEnd c = false) (p : Position) :
    p.advance t = ⟨p.line, p.column + (t.map units).sum⟩ := by
  fun_induction advance p t with
  | case1 p => rfl
  | case2 p t => exact absurd (h '\r' List.mem_cons_self) (by decide)
  | case3 p c t _ ih =>
    obtain ⟨hc, ht⟩ := List.forall_mem_cons.1 h
    have hstays : ¬(c = '\n' || c = '\r' || c = '\x0c') = true := by simpa [Token.isLineEnd] using hc
    rw [ih ht, if_neg hstays, List.map_cons, List.sum_cons, Nat.add_assoc]

theorem advance_isLine (h : t.IsLine) (p : Position) : p.advance t = p.newLine := by
  obtain ⟨l, e, he, rfl, hl⟩ := h
  have hcut : ¬CutsNewline l e := fun hcut => absurd (hl '\r' (List.mem_of_getLast? hcut.1)) (by decide)
  rw [advance_append hcut, advance_last hl]
  simp only [lineEnds, List.mem_cons, List.not_mem_nil, or_false] at he
  rcases he with rfl | rfl | rfl | rfl <;> rfl

/-- A position counts the lines that have ended, and the units of the one that has not. -/
theorem advance_areLines (h : t.AreLines lines last) (p : Position) :
    p.advance t = ⟨p.line + lines.length, (if lines = [] then p.column else 1) + (last.map units).sum⟩ := by
  induction h generalizing p with
  | last ht => rw [advance_last ht]; rfl
  | line hl hcut _ ih =>
    rw [advance_append hcut, advance_isLine hl, ih, newLine, List.length_cons, Nat.add_assoc, Nat.add_comm 1]
    simp

theorem place_eq (h : t.AreLines lines last) : t.place = ⟨1 + lines.length, 1 + (last.map units).sum⟩ := by
  rw [Text.place, advance_areLines h]
  split <;> rfl

end Position

/-- Every text has lines. -/
theorem Text.exists_areLines (t : Text) : ∃ lines last, t.AreLines lines last := by
  have hend {e : Text} (he : e ∈ lineEnds) : e.IsLine := ⟨[], e, he, rfl, List.forall_mem_nil _⟩
  fun_induction Position.advance .start t with
  | case1 => exact ⟨[], [], .last (List.forall_mem_nil _)⟩
  | case2 p t ih =>
    obtain ⟨lines, last, h⟩ := ih
    exact ⟨_, _, .line (hend (by decide : ['\r', '\n'] ∈ lineEnds)) (fun hcut => by cases hcut.1) h⟩
  | case3 p c t hnot ih =>
    obtain ⟨lines, last, h⟩ := ih
    cases hc : Token.isLineEnd c with
    | true =>
      have hsign : [c] ∈ lineEnds := by
        simp only [Token.isLineEnd, Bool.or_eq_true, beq_iff_eq] at hc
        rcases hc with (rfl | rfl) | rfl <;> decide
      refine ⟨_, _, .line (hend hsign) (fun hcut => ?_) h⟩
      obtain ⟨rest, rfl⟩ := List.head?_eq_some_iff.1 hcut.2
      exact hnot rest (Option.some.inj hcut.1) rfl
    | false =>
      cases h with
      | last ht => exact ⟨_, _, .last (List.forall_mem_cons.2 ⟨hc, ht⟩)⟩
      | line hl hcut ht =>
        -- the character is one more of the first line
        obtain ⟨s, e, he, rfl, hs⟩ := hl
        have hne : s ++ e ≠ [] := fun hnil => by
          rw [(List.append_eq_nil_iff.1 hnil).2] at he
          exact absurd he (by decide)
        have hline : Text.IsLine (c :: s ++ e) := ⟨c :: s, e, he, rfl, List.forall_mem_cons.2 ⟨hc, hs⟩⟩
        refine ⟨_, _, .line hline (fun hcut' => hcut ⟨?_, hcut'.2⟩) ht⟩
        rw [← hcut'.1, List.cons_append, List.getLast?_cons_of_ne_nil hne]

/-! ## Tokens -/

namespace Token

variable {c : Char} {t : Text} {m n : Nat}

/-- The first `n` characters of a text do not end in the middle of a line end. -/
def KeepsNewline (t : Text) (n : Nat) : Prop := ¬(0 < n ∧ t[n - 1]? = some '\r' ∧ t[n]? = some '\n')

theorem keepsNewline_zero (t : Text) : KeepsNewline t 0 := fun h => absurd h.1 (Nat.lt_irrefl 0)

theorem KeepsNewline.not_cutsNewline (h : KeepsNewline t n) : ¬CutsNewline (t.take n) (t.drop n) := by
  rintro ⟨hlast, hhead⟩
  rw [List.head?_drop] at hhead
  have hn : n < t.length := (List.getElem?_eq_some_iff.1 hhead).1
  rw [List.getLast?_eq_getElem?, List.length_take_of_le hn.le] at hlast
  have hpos : 0 < n := by
    rw [Nat.pos_iff_ne_zero]
    rintro rfl
    rw [List.take_zero] at hlast
    cases hlast
  rw [List.getElem?_take_of_lt (by omega)] at hlast
  exact h ⟨hpos, hlast, hhead⟩

/-- Where no carriage return stands, none is cut from its line feed. -/
theorem keepsNewline_of_notMem (h : '\r' ∉ t.take n) : KeepsNewline t n := by
  rintro ⟨hpos, hlast, -⟩
  refine h (List.mem_of_getElem? (i := n - 1) ?_)
  rw [List.getElem?_take_of_lt (by omega), hlast]

theorem KeepsNewline.cons (hc : c ≠ '\r') (h : KeepsNewline t n) : KeepsNewline (c :: t) (n + 1) := by
  rintro ⟨-, hlast, hnext⟩
  cases n with
  | zero => exact hc (Option.some.inj hlast)
  | succ n => exact h ⟨Nat.succ_pos n, hlast, hnext⟩

theorem KeepsNewline.cons_of_pos (hn : 0 < n) (h : KeepsNewline t n) : KeepsNewline (c :: t) (n + 1) := by
  rintro ⟨-, hlast, hnext⟩
  obtain ⟨n, rfl⟩ := Nat.exists_eq_succ_of_ne_zero hn.ne'
  exact h ⟨hn, hlast, hnext⟩

theorem KeepsNewline.tail (h : KeepsNewline (c :: t) (n + 1)) : KeepsNewline t n := by
  rintro ⟨hpos, hlast, hnext⟩
  obtain ⟨n, rfl⟩ := Nat.exists_eq_succ_of_ne_zero hpos.ne'
  exact h ⟨Nat.succ_pos _, hlast, hnext⟩

/-- More characters, if there are any. -/
theorem KeepsNewline.add (hm : KeepsNewline t m) (hn : KeepsNewline (t.drop m) n) : KeepsNewline t (m + n) := by
  rintro ⟨hpos, hlast, hnext⟩
  cases n with
  | zero => exact hm ⟨hpos, hlast, hnext⟩
  | succ n =>
    refine hn ⟨Nat.succ_pos n, ?_, ?_⟩ <;> rw [List.getElem?_drop] <;> assumption

theorem EndsIn.keepsNewline {c : Char} (hc : c ≠ '\r') (h : EndsIn c t n) : KeepsNewline t n := by
  rintro ⟨hpos, hlast, hnext⟩
  rcases h with h | ⟨u, h⟩
  · rw [List.getElem?_eq_none_iff.2 h] at hnext
    cases hnext
  · have hlength : n = u.length + 1 := by
      have hlt : n < t.length := (List.getElem?_eq_some_iff.1 hnext).1
      rw [← List.length_take_of_le hlt.le, h, List.length_append]
      rfl
    have htake : (t.take n)[n - 1]? = some c := by
      rw [h, hlength, Nat.add_sub_cancel, List.getElem?_concat_length]
    rw [List.getElem?_take_of_lt (by omega), hlast] at htake
    exact hc (Option.some.inj htake).symm

/-! ### Escapes and names -/

theorem keepsNewline_space (t : Text) : KeepsNewline t (spaceLength t) := by
  unfold spaceLength
  split
  · rintro ⟨-, hlast, -⟩
    cases hlast
  · rename_i c t hnot
    split
    · rintro ⟨-, hc, ht⟩
      cases t with
      | nil => cases ht
      | cons d t => exact hnot t (Option.some.inj hc) (congrArg (· :: t) (Option.some.inj ht))
    · exact keepsNewline_zero _
  · exact keepsNewline_zero _

/-- An escape outside strings, which is none before a line end. -/
theorem keepsNewline_escape (h : startsWithLineEnd t = false) : KeepsNewline t (escapeLength t) := by
  unfold escapeLength
  split
  · cases t with
    | nil => exact keepsNewline_zero _
    | cons c t =>
      have hc : c ≠ '\r' := by
        rintro rfl
        cases h
      rw [Nat.min_eq_left (by simp)]
      exact (keepsNewline_zero t).cons hc
  · refine KeepsNewline.add (keepsNewline_of_notMem ?_) (keepsNewline_space _)
    rw [take_hexDigits]
    exact notMem_takeWhile (by decide) _

/-- A scanner that passes over `skip` characters first, from one character to the next. -/
theorem KeepsNewline.skipped {skip : Nat} (h : KeepsNewline (c :: t) (skip + 1)) (hle : min skip t.length ≤ n)
    (hn : KeepsNewline t n) : KeepsNewline (c :: t) (n + 1) := by
  cases n with
  | succ n => exact hn.cons_of_pos (Nat.succ_pos n)
  | zero =>
    rcases Nat.min_eq_zero_iff.1 (Nat.le_zero.1 hle) with rfl | ht
    · exact h
    · rw [List.eq_nil_of_length_eq_zero ht]
      rintro ⟨-, -, hnext⟩
      cases hnext

theorem keepsNewline_nameLength (skip : Nat) (t : Text) (h : KeepsNewline t skip) :
    KeepsNewline t (nameLength skip t) := by
  fun_induction nameLength skip t with
  | case1 | case5 => exact keepsNewline_zero _
  | case2 skip c t ih => exact h.skipped (le_nameLength skip t) (ih h.tail)
  | case3 c t hc ih => exact (ih (keepsNewline_zero t)).cons (by rintro rfl; revert hc; decide)
  | case4 c t _ hc ih =>
    obtain ⟨rfl, hline⟩ : c = '\\' ∧ startsWithLineEnd t = false := by simpa using hc
    exact (ih (keepsNewline_escape hline)).cons (by decide)

theorem keepsNewline_name (t : Text) : KeepsNewline t (nameLength 0 t) :=
  keepsNewline_nameLength 0 t (keepsNewline_zero t)

theorem keepsNewline_unit (t : Text) : KeepsNewline t (unitLength t) := by
  unfold unitLength
  split
  · exact keepsNewline_of_notMem (by simp)
  · split
    · exact keepsNewline_name t
    · exact keepsNewline_zero t

theorem keepsNewline_unsigned (t : Text) : KeepsNewline t (unsignedLength t) :=
  (keepsNewline_of_notMem (notMem_take_numeral (by decide) t)).add (keepsNewline_unit _)

/-! ### Strings and tokens -/

theorem le_stringToken (quote : Char) (skip : Nat) (t : Text) : min skip t.length ≤ (stringToken quote skip t).2 := by
  fun_induction stringToken quote skip t with
  | case1 => simp
  | case2 skip c t ih =>
    rw [List.length_cons, Prod.map_snd]
    omega
  | case3 | case4 | case5 | case6 => simp

theorem keepsNewline_string {quote : Char} (hq : quote ≠ '\r') (skip : Nat) (t : Text) (h : KeepsNewline t skip) :
    KeepsNewline t (stringToken quote skip t).2 := by
  fun_induction stringToken quote skip t with
  | case1 | case4 => exact keepsNewline_zero _
  | case2 skip c t ih => exact h.skipped (le_stringToken quote skip t) (ih h.tail)
  | case3 t => exact (keepsNewline_zero t).cons hq
  | case5 t _ _ ih =>
    refine (ih ?_).cons (by decide)
    split
    · exact keepsNewline_space t
    · rename_i hline
      exact keepsNewline_escape (Bool.eq_false_iff.2 hline)
  | case6 c t _ hc _ ih => exact (ih (keepsNewline_zero t)).cons (by rintro rfl; revert hc; decide)

theorem keepsNewline_nameToken (t : Text) : KeepsNewline t (nameToken t).2 := by
  have hparen {rest : Text} (h : t.drop (nameLength 0 t) = '(' :: rest) :
      KeepsNewline t (nameLength 0 t + 1) ∧ t.drop (nameLength 0 t + 1) = rest := by
    refine ⟨(keepsNewline_name t).add ?_, by rw [← List.drop_drop, h]; rfl⟩
    rw [h]
    exact (keepsNewline_zero rest).cons (by decide)
  unfold nameToken
  dsimp only
  split
  · rename_i rest h
    split
    · refine (hparen h).1.add ?_
      rw [(hparen h).2]
      exact (endsIn_url _ _ _).keepsNewline (by decide)
    · exact (hparen h).1
  · exact keepsNewline_name t

theorem keepsNewline_ite {p : Prop} [Decidable p] {x y : TokenKind × Nat}
    (hx : p → KeepsNewline (c :: t) (x.2 + 1)) (hy : ¬p → KeepsNewline (c :: t) (y.2 + 1)) :
    KeepsNewline (c :: t) ((if p then x else y).2 + 1) := by
  split
  · exact hx ‹_›
  · exact hy ‹_›

theorem keepsNewline_opt {p : Prop} [Decidable p] (h : KeepsNewline t n) : KeepsNewline t (if p then n else 0) := by
  split
  · exact h
  · exact keepsNewline_zero t

/-- Blanks go on over a whole line end. -/
theorem keepsNewline_blanks (t : Text) : KeepsNewline t (t.takeWhile isSpace).length := by
  rintro ⟨-, -, hnext⟩
  have hdrop : t.drop (t.takeWhile isSpace).length = t.dropWhile isSpace :=
    List.append_cancel_left ((List.prefix_iff_eq_append.1 (List.takeWhile_prefix isSpace)).trans
      List.takeWhile_append_dropWhile.symm)
  rw [← List.head?_drop, hdrop] at hnext
  have hnot := List.head?_dropWhile_not isSpace t
  rw [hnext] at hnot
  cases hnot

/-- No token ends in the middle of a line end. -/
theorem scan_keepsNewline (c : Char) (t : Text) : KeepsNewline (c :: t) ((scan c t).2 + 1) := by
  have single (hc : c ≠ '\r') : KeepsNewline (c :: t) (0 + 1) := (keepsNewline_zero t).cons hc
  have unsigned (h : startsUnsigned (c :: t) = true) : KeepsNewline (c :: t) (unsignedLength (c :: t) - 1 + 1) := by
    rw [Nat.sub_add_cancel (unsignedLength_pos h)]
    exact keepsNewline_unsigned _
  have name (h : startsName (c :: t) = true) :
      KeepsNewline (c :: t) (((nameToken (c :: t)).map id (· - 1)).2 + 1) := by
    rw [Prod.map_snd, Nat.sub_add_cancel (nameToken_pos h)]
    exact keepsNewline_nameToken _
  unfold scan
  refine keepsNewline_ite (fun h => ?_) fun hspace => ?_
  · have hblanks := keepsNewline_blanks (c :: t)
    rwa [List.takeWhile_cons_of_pos h] at hblanks
  have hc : c ≠ '\r' := by rintro rfl; exact hspace (by decide)
  refine keepsNewline_ite (fun _ => (keepsNewline_string hc 0 t (keepsNewline_zero t)).cons hc) fun _ => ?_
  iterate 9 refine keepsNewline_ite (fun _ => single hc) fun _ => ?_
  refine keepsNewline_ite (fun _ => ?_) fun _ => ?_
  · split
    · rename_i rest
      have hcomment := (endsIn_comment rest).keepsNewline (by decide)
      exact (hcomment.cons (by decide)).cons hc
    · exact single hc
  -- words of signs: a name, a number or nothing follows
  iterate 2 refine keepsNewline_ite (fun _ => (keepsNewline_opt (keepsNewline_name t)).cons hc) fun _ => ?_
  refine keepsNewline_ite (fun _ => KeepsNewline.cons hc ?_) fun _ => ?_
  · dsimp only
    split
    · rename_i hstart
      obtain ⟨rest, hrest⟩ := Option.isSome_iff_exists.1 hstart
      refine keepsNewline_of_notMem ?_
      rw [Text.dropStart?_eq_some hrest]
      exact (by decide : '\r' ∉ ("!--" : Text))
    · exact keepsNewline_zero t
  refine keepsNewline_ite (fun _ => (keepsNewline_opt (keepsNewline_unsigned t)).cons hc) fun _ => ?_
  refine keepsNewline_ite (fun h => ?_) fun _ => ?_
  · dsimp only
    split
    · exact unsigned (by rw [h]; assumption)
    · exact single hc
  refine keepsNewline_ite (fun h => unsigned (startsUnsigned_of_digit h)) fun _ => ?_
  refine keepsNewline_ite (fun _ => ?_) fun _ => ?_
  · refine keepsNewline_ite (fun _ => (keepsNewline_unsigned t).cons hc) fun _ => ?_
    refine keepsNewline_ite (fun hstart => KeepsNewline.cons hc ?_) fun _ => ?_
    · obtain ⟨rest, hrest⟩ := Option.isSome_iff_exists.1 hstart
      refine keepsNewline_of_notMem ?_
      rw [Text.dropStart?_eq_some hrest]
      exact (by decide : '\r' ∉ ("->" : Text))
    · exact keepsNewline_ite (fun h => name h) fun _ => single hc
  exact keepsNewline_ite (fun h => name h) fun _ => single hc

end Token

/-- No line end is cut by two tokens of a text. -/
theorem tokens_newlines {t : Text} {xs ys : List Token} (h : tokens t = xs ++ ys) :
    ¬CutsNewline (xs.flatMap Token.text) (ys.flatMap Token.text) := by
  induction xs generalizing t with
  | nil => exact fun hcut => nomatch hcut.1
  | cons x xs ih =>
    cases t with
    | nil => cases h
    | cons c t =>
      rw [tokens_cons, List.cons_append] at h
      obtain ⟨rfl, htokens⟩ := List.cons.inj h
      rintro ⟨hlast, hhead⟩
      rw [List.flatMap_cons, List.getLast?_append] at hlast
      cases hxs : (xs.flatMap Token.text).getLast? with
      | some d =>
        rw [hxs] at hlast
        exact ih htokens ⟨hxs.trans hlast, hhead⟩
      | none =>
        -- the rest of the text starts directly after the first token
        have hrest : t.drop (Token.scan c t).2 = ys.flatMap Token.text := by
          rw [← tokens_text (t.drop _), htokens, List.flatMap_append, List.getLast?_eq_none_iff.1 hxs, List.nil_append]
        rw [hxs] at hlast
        refine (Token.scan_keepsNewline c t).not_cutsNewline ⟨hlast, ?_⟩
        rwa [List.drop_succ_cons, hrest]

end VendorCss
