import VendorCss.Proofs.Grid.TrackLists

/-!
# Gaps between tracks

Beside a gap, a track list of the first draft is the list written out with the gap between every two tracks, if every
`repeat` keeps its tracks (`isSpaced_row`). A `repeat` loses tracks in two ways: a track of blanks that are no white space
of CSS is left out, since the row of a `repeat` is told from its spaces by what is left when it is trimmed; and a count of
64 bits or more is read as zero. Lost tracks show in the number of characters that are not white space (`ink`), so there
is no other way in which the text could be the whole list (`isSpaced_trackList_iff`).
-/

namespace VendorCss

namespace Grid

open Component

variable {c : Component} {cs body : List Component} {ts us : List Text} {t gap count : Text} {n : Nat}

/-- No `repeat` stands in the row of a `repeat`. -/
def IsFlat (c : Component) : Prop := ∀ x ∈ repeat? c, ∀ d ∈ x.2, repeat? d = none

/-- A `repeat` is written out whole: its count is read, and none of its tracks is blank. -/
def KeepsTracks (c : Component) : Prop :=
  ∀ x ∈ repeat? c, rounds x.1 < 2 ^ 64 ∧ ∀ t ∈ allWrittenOut x.2, t.trim ≠ []

/-- The text of components beside a gap. -/
def besideGap (gap : Text) (cs : List Component) : Text := renderAll (cs.flatMap (trackComponents (some gap)))

theorem besideGap_cons (gap : Text) (c : Component) (cs : List Component) :
    besideGap gap (c :: cs) = renderAll (trackComponents (some gap) c) ++ besideGap gap cs := by
  rw [besideGap, List.flatMap_cons, renderAll_append]
  rfl

/-! ## What is written beside a gap -/

theorem trim_eq_nil (h : ∀ c ∈ t, isBlank c = true) : t.trim = [] := by
  have hstart : t.trimStart = [] := by rw [Text.trimStart, List.dropWhile_eq_nil_iff]; exact h
  rw [Text.trim, hstart]
  rfl

/-- The tracks of a row that are not blank are what is left of its components. -/
theorem filter_row (hspelled : ∀ c ∈ body, c.IsSpelled) (hbody : ∀ c ∈ body, c.isSpace = false → IsTrack c)
    (hflat : ∀ c ∈ body, repeat? c = none) : (body.map Component.render).filter (fun t => !t.trim.isEmpty) =
      (allWrittenOut body).filter fun t => !t.trim.isEmpty := by
  induction body with
  | nil => rfl
  | cons c cs ih =>
    obtain ⟨hc, hspelled⟩ := List.forall_mem_cons.1 hspelled
    obtain ⟨htrack, hbody⟩ := List.forall_mem_cons.1 hbody
    obtain ⟨hnone, hflat⟩ := List.forall_mem_cons.1 hflat
    rw [allWrittenOut_cons, List.filter_append, ← ih hspelled hbody hflat, List.map_cons]
    cases hspace : c.isSpace with
    | true =>
      cases hc with
      | space hne hall =>
        have hblank := trim_eq_nil fun c hc => Token.isBlank_of_isSpace (hall c hc)
        rw [List.filter_cons_of_neg (by rw [render, hblank]; decide)]
        rfl
      | _ => cases hspace
    | false =>
      rcases (htrack hspace).cases with ⟨-, hwritten, -⟩ | ⟨_, _, _, _, _, _, _, -, -, -, -, rfl⟩
      · rw [hwritten, ← List.filter_append]
        rfl
      · cases hnone

theorem trackComponents_repeat {before after before' after' : Text} (hspelled : ∀ c ∈ body, c.IsSpelled)
    (hbody : ∀ c ∈ body, c.isSpace = false → IsTrack c) (hflat : ∀ c ∈ body, repeat? c = none)
    (hcount : countOf? count = some n) (gap : Text) :
    trackComponents (some gap) (.function "repeat" before after (.word count :: .div "," before' after' :: body)) =
      [.word (Text.join (' ' :: gap ++ [' ']) (repeated (if n < 2 ^ 64 then n else 0)
        ((allWrittenOut body).filter fun t => !t.trim.isEmpty)))] := by
  rw [trackComponents, if_pos rfl, repeatText_gap (isAnyDiv_of_row hbody) hcount, filter_row hspelled hbody hflat]

/-- The components of a function are spelled as those of a text. -/
theorem forall_isSpelled_body {before after name : Text} {w d : Component}
    (h : (Component.function name before after (w :: d :: body)).IsSpelled) : ∀ c ∈ body, c.IsSpelled := by
  cases h with
  | function hargs => exact fun c hc => hargs c (by simp [hc])

/-- A track that keeps its tracks is written out with gaps between them. -/
theorem isSpaced_track (htrack : IsTrack c) (hspelled : c.IsSpelled) (hflat : IsFlat c) (hkeeps : KeepsTracks c)
    (gap : Text) : IsSpaced ((writtenOut c).intersperse gap) (renderAll (trackComponents (some gap) c)) := by
  rcases htrack.cases with ⟨-, hwritten, -, hcomponents⟩ | ⟨count, _, _, _, _, n, body, hcount, -, -, hbody, rfl⟩
  · rw [hwritten, hcomponents, renderAll_cons, renderAll_nil, List.append_nil]
    exact .one _
  · obtain ⟨hlt, hkept⟩ := hkeeps _ rfl
    have hall : (allWrittenOut body).filter (fun t => !t.trim.isEmpty) = allWrittenOut body := by
      rw [List.filter_eq_self]
      intro t ht
      simp [hkept t ht]
    have hn : n < 2 ^ 64 := by simpa [rounds, hcount] using hlt
    rw [trackComponents_repeat (forall_isSpelled_body hspelled) hbody (hflat _ rfl) hcount, hall, if_pos hn,
      writtenOut_repeat, rounds, hcount, renderAll_cons, renderAll_nil, List.append_nil, render_word]
    exact isSpaced_join_gap gap _

theorem allWrittenOut_ne_nil (hrow : IsRow cs) (htracks : ∀ c ∈ cs, c.isSpace = false → IsTrack c) :
    allWrittenOut cs ≠ [] := by
  cases hrow with
  | one hc => simp [writtenOut_ne_nil (htracks _ List.mem_cons_self hc)]
  | more hc _ => simp [writtenOut_ne_nil (htracks _ List.mem_cons_self hc)]

theorem intersperse_ne_nil (hts : ts ≠ []) (gap : Text) : ts.intersperse gap ≠ [] := by
  cases ts with
  | nil => exact absurd rfl hts
  | cons t ts => cases ts <;> exact List.cons_ne_nil _ _

/-- A row of tracks that keep their tracks is written out with the gap between every two. -/
theorem isSpaced_row (hrow : IsRow cs) (hspelled : ∀ c ∈ cs, c.IsSpelled)
    (htracks : ∀ c ∈ cs, c.isSpace = false → IsTrack c) (hflat : ∀ c ∈ cs, IsFlat c)
    (hkeeps : ∀ c ∈ cs, KeepsTracks c) (gap : Text) :
    IsSpaced ((allWrittenOut cs).intersperse gap) (besideGap gap cs) := by
  induction hrow with
  | @one c hc =>
    have htrack := isSpaced_track (htracks c List.mem_cons_self hc) (hspelled c List.mem_cons_self)
      (hflat c List.mem_cons_self) (hkeeps c List.mem_cons_self) gap
    rw [allWrittenOut_cons, besideGap_cons]
    simpa [besideGap, allWrittenOut, renderAll] using htrack
  | @more c s cs hc hrow ih =>
    obtain ⟨hspelledc, hspelled⟩ := List.forall_mem_cons.1 hspelled
    obtain ⟨htrackc, htracks⟩ := List.forall_mem_cons.1 htracks
    obtain ⟨hflatc, hflat⟩ := List.forall_mem_cons.1 hflat
    obtain ⟨hkeepsc, hkeeps⟩ := List.forall_mem_cons.1 hkeeps
    obtain ⟨hs, hspelled⟩ := List.forall_mem_cons.1 hspelled
    have hrest := ih hspelled (List.forall_mem_cons.1 htracks).2 (List.forall_mem_cons.1 hflat).2
      (List.forall_mem_cons.1 hkeeps).2
    have htrack := isSpaced_track (htrackc hc) hspelledc hflatc hkeepsc gap
    have hne := allWrittenOut_ne_nil hrow (List.forall_mem_cons.1 htracks).2
    cases hs with
    | space hsne hspace =>
      have hgap : IsSpaced (gap :: (allWrittenOut cs).intersperse gap) (gap ++ s ++ besideGap gap cs) :=
        IsSpaced.append (.one gap) (List.cons_ne_nil _ _) hrest (intersperse_ne_nil hne gap) hsne hspace
      have hall := htrack.append (intersperse_ne_nil (writtenOut_ne_nil (htrackc hc)) gap) hgap
        (List.cons_ne_nil _ _) (List.cons_ne_nil ' ' []) isSpace_space
      have hwritten : (allWrittenOut (c :: .space s :: cs)).intersperse gap =
          (writtenOut c).intersperse gap ++ gap :: (allWrittenOut cs).intersperse gap := by
        rw [allWrittenOut_cons, allWrittenOut_cons]
        exact intersperse_append (writtenOut_ne_nil (htrackc hc)) hne gap
      have htext : besideGap gap (c :: .space s :: cs) =
          renderAll (trackComponents (some gap) c) ++ [' '] ++ (gap ++ s ++ besideGap gap cs) := by
        rw [besideGap_cons, besideGap_cons]
        simp [trackComponents, renderAll, render, oneSpace]
      rw [hwritten, htext]
      exact hall

/-! ## Lost tracks -/

/-- The number of characters that are not white space. -/
def ink (t : Text) : Nat := t.countP fun c => !Token.isSpace c

/-- The characters of some texts that are not white space. -/
def inkAll (ts : List Text) : Nat := (ts.map ink).sum

@[simp] theorem ink_append (s t : Text) : ink (s ++ t) = ink s + ink t := List.countP_append

@[simp] theorem inkAll_cons (t : Text) (ts : List Text) : inkAll (t :: ts) = ink t + inkAll ts := List.sum_cons

@[simp] theorem inkAll_append (ts us : List Text) : inkAll (ts ++ us) = inkAll ts + inkAll us := by
  simp [inkAll]

theorem ink_eq_zero (h : ∀ c ∈ t, Token.isSpace c = true) : ink t = 0 := by
  rw [ink, List.countP_eq_zero]
  intro c hc
  simp [h c hc]

/-- White space between texts does not count. -/
theorem IsSpaced.ink_eq (h : IsSpaced ts t) : ink t = inkAll ts := by
  induction h with
  | nil => rfl
  | one t => rfl
  | more _ hspace _ ih => simp [ink_eq_zero hspace, ih]

theorem inkAll_repeated (n : Nat) (ts : List Text) : inkAll (repeated n ts) = n * inkAll ts := by
  simp [inkAll, repeated, List.map_flatten, List.sum_flatten]

theorem length_repeated (n : Nat) (ts : List Text) : (repeated n ts).length = n * ts.length := by
  simp [repeated]

theorem inkAll_intersperse (gap : Text) (ts : List Text) :
    inkAll (ts.intersperse gap) = inkAll ts + (ts.length - 1) * ink gap := by
  induction ts with
  | nil => simp
  | cons t ts ih =>
    cases ts with
    | nil => simp
    | cons u ts =>
      have hgaps : (ts.length + 1) * ink gap = ts.length * ink gap + ink gap := Nat.succ_mul _ _
      rw [List.intersperse_cons_cons, inkAll_cons, inkAll_cons, ih]
      simp only [inkAll_cons, List.length_cons, Nat.add_sub_cancel]
      omega

/-- Texts that are left out take their characters with them. -/
theorem inkAll_filter (keep : Text → Bool) (hink : ∀ t ∈ ts, 0 < ink t) :
    inkAll (ts.filter keep) ≤ inkAll ts ∧ (inkAll (ts.filter keep) = inkAll ts → ∀ t ∈ ts, keep t = true) := by
  induction ts with
  | nil => exact ⟨le_rfl, fun _ _ h => (List.not_mem_nil h).elim⟩
  | cons t ts ih =>
    obtain ⟨ht, hink⟩ := List.forall_mem_cons.1 hink
    obtain ⟨hle, hall⟩ := ih hink
    cases hkeep : keep t with
    | true =>
      rw [List.filter_cons_of_pos hkeep, inkAll_cons, inkAll_cons]
      exact ⟨by omega, fun heq => List.forall_mem_cons.2 ⟨hkeep, hall (by omega)⟩⟩
    | false =>
      rw [List.filter_cons_of_neg (Bool.eq_false_iff.1 hkeep), inkAll_cons]
      exact ⟨by omega, fun heq => absurd heq (by omega)⟩

/-- A track that is no `repeat` has a character that is not white space. -/
theorem ink_render_pos (htrack : IsTrack c) (hspelled : c.IsSpelled) : 0 < ink c.render := by
  cases htrack with
  | word t =>
    cases hspelled with
    | word hc t => simp [render, ink, hc]
  | _ =>
    have hparen : Token.isSpace '(' = false := by decide
    rw [render, ink, List.countP_pos_iff]
    exact ⟨'(', by simp, by simp [hparen]⟩

theorem ink_pos_of_mem_allWrittenOut (hspelled : ∀ c ∈ body, c.IsSpelled)
    (hbody : ∀ c ∈ body, c.isSpace = false → IsTrack c) (hflat : ∀ c ∈ body, repeat? c = none) :
    ∀ t ∈ allWrittenOut body, 0 < ink t := by
  induction body with
  | nil => exact fun _ h => (List.not_mem_nil h).elim
  | cons c cs ih =>
    obtain ⟨hc, hspelled⟩ := List.forall_mem_cons.1 hspelled
    obtain ⟨htrack, hbody⟩ := List.forall_mem_cons.1 hbody
    obtain ⟨hnone, hflat⟩ := List.forall_mem_cons.1 hflat
    intro t ht
    rcases List.mem_append.1 (allWrittenOut_cons c cs ▸ ht) with ht | ht
    · cases hspace : c.isSpace with
      | true =>
        cases c with
        | space s => cases ht
        | _ => cases hspace
      | false =>
        rcases (htrack hspace).cases with ⟨-, hwritten, -⟩ | ⟨_, _, _, _, _, _, _, -, -, -, -, rfl⟩
        · rw [hwritten, List.mem_singleton] at ht
          exact ht ▸ ink_render_pos (htrack hspace) hc
        · cases hnone
    · exact ih hspelled hbody hflat t ht

/-- Texts written for some rounds: none is left out, and no round, where no character is missing. -/
theorem inkAll_rounds (keep : Text → Bool) (hpos : 0 < n) (hne : ts ≠ []) (hink : ∀ t ∈ ts, 0 < ink t) (gap : Text) :
    inkAll ((repeated (if n < 2 ^ 64 then n else 0) (ts.filter keep)).intersperse gap) ≤
        inkAll ((repeated n ts).intersperse gap) ∧
      (inkAll ((repeated (if n < 2 ^ 64 then n else 0) (ts.filter keep)).intersperse gap) =
          inkAll ((repeated n ts).intersperse gap) → n < 2 ^ 64 ∧ ∀ t ∈ ts, keep t = true) := by
  have hm : (if n < 2 ^ 64 then n else 0) ≤ n := by split <;> omega
  have hmn : 2 ^ 64 ≤ n → (if n < 2 ^ 64 then n else 0) = 0 := fun h => if_neg (Nat.not_lt.2 h)
  have hmn' : n < 2 ^ 64 → (if n < 2 ^ 64 then n else 0) = n := fun h => if_pos h
  generalize (if n < 2 ^ 64 then n else 0) = m at hm hmn hmn' ⊢
  obtain ⟨hle, hkept⟩ := inkAll_filter keep hink
  have hallpos : 0 < n * inkAll ts := by
    obtain ⟨t, us, rfl⟩ := List.exists_cons_of_ne_nil hne
    have ht := hink t List.mem_cons_self
    exact Nat.mul_pos hpos (by rw [inkAll_cons]; omega)
  have htracks : m * inkAll (ts.filter keep) ≤ n * inkAll ts := Nat.mul_le_mul hm hle
  have hgaps : (m * (ts.filter keep).length - 1) * ink gap ≤ (n * ts.length - 1) * ink gap :=
    Nat.mul_le_mul_right _ (Nat.sub_le_sub_right (Nat.mul_le_mul hm (List.length_filter_le _ _)) 1)
  simp only [inkAll_intersperse, inkAll_repeated, length_repeated]
  refine ⟨by omega, fun heq => ?_⟩
  have heq : m * inkAll (ts.filter keep) = n * inkAll ts := by omega
  have hlt : n < 2 ^ 64 := by
    by_contra hlarge
    rw [hmn (Nat.not_lt.1 hlarge)] at heq
    omega
  rw [hmn' hlt] at heq
  exact ⟨hlt, hkept (Nat.eq_of_mul_eq_mul_left hpos heq)⟩

/-- A track is written with fewer characters than it stands for, unless it keeps its tracks. -/
theorem ink_track (htrack : IsTrack c) (hspelled : c.IsSpelled) (hflat : IsFlat c) (gap : Text) :
    ink (renderAll (trackComponents (some gap) c)) ≤ inkAll ((writtenOut c).intersperse gap) ∧
      (ink (renderAll (trackComponents (some gap) c)) = inkAll ((writtenOut c).intersperse gap) → KeepsTracks c) := by
  rcases htrack.cases with ⟨hnone, hwritten, -, hcomponents⟩ |
    ⟨count, before, after, before', after', n, body, hcount, hpos, hrow, hbody, rfl⟩
  · have heq : ink (renderAll (trackComponents (some gap) c)) = inkAll ((writtenOut c).intersperse gap) := by
      rw [hwritten, hcomponents, renderAll_cons, renderAll_nil, List.append_nil]
      rfl
    refine ⟨heq.le, fun _ x hx => ?_⟩
    rw [hnone] at hx
    cases hx
  · have hspelledbody := forall_isSpelled_body hspelled
    have hbodyflat := hflat _ rfl
    have hink := ink_pos_of_mem_allWrittenOut hspelledbody hbody hbodyflat
    obtain ⟨hle, hkept⟩ := inkAll_rounds (fun t => !t.trim.isEmpty) hpos (allWrittenOut_ne_nil hrow hbody) hink gap
    rw [trackComponents_repeat hspelledbody hbody hbodyflat hcount, renderAll_cons, renderAll_nil, List.append_nil, render_word,
      (isSpaced_join_gap gap _).ink_eq, writtenOut_repeat, rounds, hcount]
    refine ⟨hle, fun heq x hx => ?_⟩
    obtain rfl : (count, body) = x := Option.some.inj hx
    obtain ⟨hlt, hall⟩ := hkept heq
    exact ⟨by simpa [rounds, hcount] using hlt, fun t ht => by simpa using hall t ht⟩

/-- A row is written with fewer characters than it stands for, unless its tracks keep their tracks. -/
theorem ink_row (hrow : IsRow cs) (hspelled : ∀ c ∈ cs, c.IsSpelled)
    (htracks : ∀ c ∈ cs, c.isSpace = false → IsTrack c) (hflat : ∀ c ∈ cs, IsFlat c) (gap : Text) :
    ink (besideGap gap cs) ≤ inkAll ((allWrittenOut cs).intersperse gap) ∧
      (ink (besideGap gap cs) = inkAll ((allWrittenOut cs).intersperse gap) → ∀ c ∈ cs, KeepsTracks c) := by
  induction hrow with
  | @one c hc =>
    obtain ⟨hle, hkeeps⟩ := ink_track (htracks c List.mem_cons_self hc) (hspelled c List.mem_cons_self)
      (hflat c List.mem_cons_self) gap
    have htext : besideGap gap [c] = renderAll (trackComponents (some gap) c) := by simp [besideGap]
    have hwritten : allWrittenOut [c] = writtenOut c := List.append_nil _
    rw [htext, hwritten]
    exact ⟨hle, fun heq => List.forall_mem_singleton.2 (hkeeps heq)⟩
  | @more c s cs hc hrow ih =>
    obtain ⟨hspelledc, hspelled⟩ := List.forall_mem_cons.1 hspelled
    obtain ⟨htrackc, htracks⟩ := List.forall_mem_cons.1 htracks
    obtain ⟨hflatc, hflat⟩ := List.forall_mem_cons.1 hflat
    obtain ⟨hs, hspelled⟩ := List.forall_mem_cons.1 hspelled
    obtain ⟨hle, hkeeps⟩ := ink_track (htrackc hc) hspelledc hflatc gap
    obtain ⟨hlerest, hkeepsrest⟩ := ih hspelled (List.forall_mem_cons.1 htracks).2 (List.forall_mem_cons.1 hflat).2
    have hne := allWrittenOut_ne_nil hrow (List.forall_mem_cons.1 htracks).2
    have hwritten : inkAll ((allWrittenOut (c :: .space s :: cs)).intersperse gap) =
        inkAll ((writtenOut c).intersperse gap) + (ink gap + inkAll ((allWrittenOut cs).intersperse gap)) := by
      have happend := intersperse_append (writtenOut_ne_nil (htrackc hc)) hne gap
      rw [allWrittenOut_cons, allWrittenOut_cons, show writtenOut (.space s) = [] from rfl, List.nil_append, happend,
        inkAll_append, inkAll_cons]
    have htext : ink (besideGap gap (c :: .space s :: cs)) =
        ink (renderAll (trackComponents (some gap) c)) + (ink gap + ink (besideGap gap cs)) := by
      cases hs with
      | space _ hspace =>
        rw [besideGap_cons, besideGap_cons]
        simp only [trackComponents, renderAll, render, oneSpace, ink_append, ink_eq_zero hspace, List.append_nil]
        rw [show ink " ".toList = 0 from ink_eq_zero isSpace_space]
        omega
    rw [hwritten, htext]
    refine ⟨by omega, fun heq => List.forall_mem_cons.2 ⟨hkeeps (by omega), List.forall_mem_cons.2
      ⟨fun x hx => ?_, hkeepsrest (by omega)⟩⟩⟩
    cases hx

/-- **Track lists beside a gap.** The text is the track list written out with the gap between every two tracks, none at
the ends and none doubled, exactly where every `repeat` keeps its tracks: none of them is blank, and the count has less
than 64 bits. -/
theorem isSpaced_trackList_iff {t : Text} (hrow : IsRow (ofText t))
    (htracks : ∀ c ∈ ofText t, c.isSpace = false → IsTrack c) (hflat : ∀ c ∈ ofText t, IsFlat c) (gap : Text) :
    IsSpaced ((allWrittenOut (ofText t)).intersperse gap) (trackList t (some gap)) ↔
      ∀ c ∈ ofText t, KeepsTracks c := by
  have hspelled := forall_isSpelled_ofText t
  constructor
  · intro h
    exact (ink_row hrow hspelled htracks hflat gap).2 h.ink_eq
  · intro hkeeps
    exact isSpaced_row hrow hspelled htracks hflat hkeeps gap

/-- A `repeat` of no-break spaces. -/
def blankTrack : Text := "1fr repeat(2, \u00a0) 1fr"

theorem ofText_blankTrack : ofText blankTrack = [.word "1fr", .space " ",
    .function "repeat" [] [] [.word "2", .div "," [] " ", .word "\u00a0"], .space " ", .word "1fr"] := rfl

/-- Its tracks are lost beside a gap. -/
theorem isSpaced_trackList_iff_blankTrack : IsRow (ofText blankTrack) ∧
    (∀ c ∈ ofText blankTrack, c.isSpace = false → IsTrack c) ∧ (∀ c ∈ ofText blankTrack, IsFlat c) ∧
    ¬IsSpaced ((allWrittenOut (ofText blankTrack)).intersperse "5px") (trackList blankTrack (some "5px")) := by
  have hrow : IsRow (ofText blankTrack) := .more rfl (.more rfl (.one rfl))
  have hbody : ∀ c ∈ [Component.word "\u00a0"], c.isSpace = false → IsTrack c :=
    List.forall_mem_singleton.2 fun _ => .word _
  have htracks : ∀ c ∈ ofText blankTrack, c.isSpace = false → IsTrack c := by
    simp only [ofText_blankTrack, List.forall_mem_cons]
    exact ⟨fun _ => .word _, nofun, fun _ => .rounds (n := 2) rfl (by decide) (.one rfl) hbody, nofun, fun _ => .word _,
      nofun⟩
  have hflat : ∀ c ∈ ofText blankTrack, IsFlat c := by
    simp only [ofText_blankTrack, List.forall_mem_cons]
    exact ⟨nofun, nofun, fun x hx => by cases hx; exact List.forall_mem_singleton.2 rfl, nofun, nofun, nofun⟩
  refine ⟨hrow, htracks, hflat, fun h => ?_⟩
  have hmem : Component.function "repeat" [] [] [.word "2", .div "," [] " ", .word "\u00a0"] ∈ ofText blankTrack :=
    .tail _ (.tail _ (.head _))
  obtain ⟨-, hkept⟩ := (isSpaced_trackList_iff hrow htracks hflat "5px").1 h _ hmem ("2".toList, _) rfl
  exact hkept "\u00a0" (.head _) rfl

end Grid

end VendorCss
