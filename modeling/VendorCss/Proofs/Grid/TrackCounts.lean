import VendorCss.Proofs.Grid.TrackGaps

/-!
# The number of tracks

Automatic placement counts the tracks of a list (`tracksOf`), and the list itself is written for the first draft. Written,
the list stands for its tracks with every `repeat` written out: as `(1fr 2fr)[2]` without a gap (`standsFor_row`), and
track by track beside a gap. The count is smaller where a `repeat` has more than one track, since its row counts as one
track in every round, and where a `repeat` goes on for 2 ^ 63 rounds or more, which are read as none
(`length_componentTracks`). Elsewhere the two agree (`length_tracksOf_iff`).
-/

namespace VendorCss

namespace Grid

open Component

variable {c : Component} {cs : List Component} {ts us : List Text} {t u gap : Text} {n : Nat}

/-! ## Tracks without gaps -/

/-- A text of the first draft that stands for tracks: a track for itself, a row in parentheses for its tracks as often as
the brackets after it say, and such texts with white space between. -/
inductive StandsFor : List Text → Text → Prop
  | track (t : Text) : StandsFor [t] t
  | rounds {ts : List Text} {inside count : Text} {n : Nat} (h : IsSpaced ts inside) (hcount : countOf? count = some n) :
      StandsFor (repeated n ts) ('(' :: inside ++ ")[" ++ count ++ "]")
  | append {ts us : List Text} {t s u : Text} (h : StandsFor ts t) (h' : StandsFor us u) (hne : s ≠ [])
      (hspace : ∀ c ∈ s, Token.isSpace c = true) : StandsFor (ts ++ us) (t ++ s ++ u)

/-- A row without a `repeat` is its own text. -/
theorem isSpaced_renderAll (hrow : IsRow cs) (hspelled : ∀ c ∈ cs, c.IsSpelled)
    (htracks : ∀ c ∈ cs, c.isSpace = false → IsTrack c) (hflat : ∀ c ∈ cs, repeat? c = none) :
    IsSpaced (allWrittenOut cs) (renderAll cs) := by
  have hplain {c : Component} (htrack : IsTrack c) (hnone : repeat? c = none) : writtenOut c = [c.render] := by
    rcases htrack.cases with ⟨-, hwritten, -⟩ | ⟨_, _, _, _, _, _, _, -, -, -, -, rfl⟩
    · exact hwritten
    · cases hnone
  induction hrow with
  | @one c hc =>
    rw [allWrittenOut_cons, hplain (htracks c List.mem_cons_self hc) (hflat c List.mem_cons_self), renderAll_cons, renderAll_nil,
      List.append_nil]
    exact .one _
  | @more c s cs hc hrow ih =>
    obtain ⟨htrackc, htracks⟩ := List.forall_mem_cons.1 htracks
    obtain ⟨hflatc, hflat⟩ := List.forall_mem_cons.1 hflat
    obtain ⟨hs, hspelled⟩ := List.forall_mem_cons.1 (List.forall_mem_cons.1 hspelled).2
    have htracks := (List.forall_mem_cons.1 htracks).2
    have hrest := ih hspelled htracks (List.forall_mem_cons.1 hflat).2
    cases hs with
    | space hne hspace =>
      have hall := IsSpaced.append (.one c.render) (List.cons_ne_nil _ _) hrest (allWrittenOut_ne_nil hrow htracks) hne
        hspace
      rw [allWrittenOut_cons, allWrittenOut_cons, hplain (htrackc hc) hflatc]
      simpa [renderAll, render, writtenOut] using hall

/-- Without a gap a track stands for its tracks. -/
theorem standsFor_track (htrack : IsTrack c) (hspelled : c.IsSpelled) (hflat : IsFlat c) :
    StandsFor (writtenOut c) (renderAll (trackComponents none c)) := by
  rcases htrack.cases with ⟨-, hwritten, -, hcomponents⟩ |
    ⟨count, before, after, before', after', n, body, hcount, -, hrow, hbody, rfl⟩
  · rw [hwritten, hcomponents, renderAll_cons, renderAll_nil, List.append_nil]
    exact .track _
  · have hinside := isSpaced_renderAll hrow (forall_isSpelled_body hspelled) hbody (hflat _ rfl)
    rw [writtenOut_repeat, rounds, hcount, trackComponents, if_pos rfl, repeatText_none (isAnyDiv_of_row hbody),
      renderAll_cons, renderAll_nil, List.append_nil, render_word]
    exact .rounds hinside hcount

/-- Without a gap a row stands for its tracks. -/
theorem standsFor_row (hrow : IsRow cs) (hspelled : ∀ c ∈ cs, c.IsSpelled)
    (htracks : ∀ c ∈ cs, c.isSpace = false → IsTrack c) (hflat : ∀ c ∈ cs, IsFlat c) :
    StandsFor (allWrittenOut cs) (renderAll (cs.flatMap (trackComponents none))) := by
  induction hrow with
  | @one c hc =>
    have htrack := standsFor_track (htracks c List.mem_cons_self hc) (hspelled c List.mem_cons_self)
      (hflat c List.mem_cons_self)
    simpa [allWrittenOut] using htrack
  | @more c s cs hc hrow ih =>
    obtain ⟨hspelledc, hspelled⟩ := List.forall_mem_cons.1 hspelled
    obtain ⟨htrackc, htracks⟩ := List.forall_mem_cons.1 htracks
    obtain ⟨hflatc, hflat⟩ := List.forall_mem_cons.1 hflat
    obtain ⟨hs, hspelled⟩ := List.forall_mem_cons.1 hspelled
    have hrest := ih hspelled (List.forall_mem_cons.1 htracks).2 (List.forall_mem_cons.1 hflat).2
    have htrack := standsFor_track (htrackc hc) hspelledc hflatc
    cases hs with
    | space hne hspace =>
      have hall := htrack.append hrest hne hspace
      simpa [renderAll_append, trackComponents, renderAll, render, writtenOut] using hall

/-! ## Counting -/

/-- The count of a track is right: a `repeat` has one track, and fewer than 2 ^ 63 rounds. -/
def CountsTracks (c : Component) : Prop :=
  ∀ x ∈ repeat? c, (allWrittenOut x.2).length = 1 ∧ rounds x.1 < 2 ^ 63

/-- A track counts for no more tracks than it stands for, and for as many where its count is right. -/
theorem length_componentTracks (h : c.isSpace = false → IsTrack c) :
    (componentTracks c).length ≤ (writtenOut c).length ∧
      ((componentTracks c).length = (writtenOut c).length ↔ CountsTracks c) := by
  cases hspace : c.isSpace with
  | true =>
    cases c with
    | space s => exact ⟨le_rfl, fun _ x hx => by (cases hx), fun _ => rfl⟩
    | _ => cases hspace
  | false =>
    rcases (h hspace).cases with ⟨hnone, hwritten, hcounted, -⟩ |
      ⟨count, before, after, before', after', n, body, hcount, hpos, hrow, hbody, rfl⟩
    · rw [hwritten, hcounted]
      refine ⟨le_rfl, fun _ x hx => ?_, fun _ => rfl⟩
      rw [hnone] at hx
      cases hx
    · have hne := List.length_pos_iff.2 (allWrittenOut_ne_nil hrow hbody)
      have hright : CountsTracks (.function "repeat" before after (.word count :: .div "," before' after' :: body)) ↔
          (allWrittenOut body).length = 1 ∧ n < 2 ^ 63 := by
        have hrounds : rounds count = n := by rw [rounds, hcount]; rfl
        rw [← hrounds]
        constructor
        · exact fun h => h (count, body) rfl
        · rintro h x hx
          obtain rfl : (count, body) = x := Option.some.inj hx
          exact h
      rw [componentTracks_repeat (isAnyDiv_of_row hbody) hcount, writtenOut_repeat, rounds, hcount, List.length_replicate,
        length_repeated, hright, Option.getD_some]
      have hle : n ≤ n * (allWrittenOut body).length := Nat.le_mul_of_pos_right n hne
      split
      · refine ⟨hle, fun heq => ⟨?_, by assumption⟩, fun h => by rw [h.1, Nat.mul_one]⟩
        exact Nat.eq_of_mul_eq_mul_left hpos (by omega)
      · refine ⟨Nat.zero_le _, fun heq => absurd heq (by omega), fun h => absurd h.2 (by assumption)⟩

theorem length_row (htracks : ∀ c ∈ cs, c.isSpace = false → IsTrack c) :
    (cs.flatMap componentTracks).length ≤ (allWrittenOut cs).length ∧
      ((cs.flatMap componentTracks).length = (allWrittenOut cs).length ↔ ∀ c ∈ cs, CountsTracks c) := by
  induction cs with
  | nil => exact ⟨le_rfl, fun _ _ hc => (List.not_mem_nil hc).elim, fun _ => rfl⟩
  | cons c cs ih =>
    obtain ⟨htrack, htracks⟩ := List.forall_mem_cons.1 htracks
    obtain ⟨hle, hiff⟩ := length_componentTracks htrack
    obtain ⟨hlerest, hiffrest⟩ := ih htracks
    rw [List.flatMap_cons, allWrittenOut_cons, List.length_append, List.length_append, List.forall_mem_cons, ← hiff,
      ← hiffrest]
    omega

/-- **The tracks that are counted and those that are written.** For a track list the count is the number of its tracks
with every `repeat` written out exactly where each `repeat` has one track and fewer than 2 ^ 63 rounds. The list written
for the first draft stands for all tracks, and beside a gap it is these tracks with gaps between, where no `repeat` has
another one inside and, for the gaps, where each keeps its tracks. -/
theorem length_tracksOf_iff (hrow : IsRow (ofText t)) (htracks : ∀ c ∈ ofText t, c.isSpace = false → IsTrack c) :
    ((tracksOf t).length = (allWrittenOut (ofText t)).length ↔ ∀ c ∈ ofText t, CountsTracks c) ∧
      ((∀ c ∈ ofText t, IsFlat c) → StandsFor (allWrittenOut (ofText t)) (trackList t none) ∧
        ∀ gap, (∀ c ∈ ofText t, KeepsTracks c) →
          IsSpaced ((allWrittenOut (ofText t)).intersperse gap) (trackList t (some gap))) := by
  have hspelled := forall_isSpelled_ofText t
  refine ⟨(length_row htracks).2, fun hflat => ⟨standsFor_row hrow hspelled htracks hflat, fun gap hkeeps => ?_⟩⟩
  exact isSpaced_row hrow hspelled htracks hflat hkeeps gap

/-- A `repeat` of two tracks. -/
def twoTracks : Text := "repeat(2, 1fr 2fr)"

theorem ofText_twoTracks : ofText twoTracks =
    [.function "repeat" [] [] [.word "2", .div "," [] " ", .word "1fr", .space " ", .word "2fr"]] := rfl

/-- Two tracks are counted and four are written. -/
theorem length_tracksOf_iff_twoTracks : IsRow (ofText twoTracks) ∧
    (∀ c ∈ ofText twoTracks, c.isSpace = false → IsTrack c) ∧
    (tracksOf twoTracks).length ≠ (allWrittenOut (ofText twoTracks)).length ∧
    StandsFor ["1fr", "2fr", "1fr", "2fr"] (trackList twoTracks none) := by
  have hall : allWrittenOut (ofText twoTracks) = ["1fr".toList, "2fr".toList, "1fr".toList, "2fr".toList] := by
    rw [ofText_twoTracks]
    rfl
  have hrow : IsRow (ofText twoTracks) := .one rfl
  have hbody : ∀ c ∈ [Component.word "1fr", .space " ", .word "2fr"], c.isSpace = false → IsTrack c := by
    simp only [List.forall_mem_cons]
    exact ⟨fun _ => .word _, nofun, fun _ => .word _, nofun⟩
  have htracks : ∀ c ∈ ofText twoTracks, c.isSpace = false → IsTrack c := by
    rw [ofText_twoTracks]
    exact List.forall_mem_singleton.2 fun _ => .rounds (n := 2) rfl (by decide) (.more rfl (.one rfl)) hbody
  have hflat : ∀ c ∈ ofText twoTracks, IsFlat c := by
    rw [ofText_twoTracks]
    refine List.forall_mem_singleton.2 fun x hx => ?_
    cases hx
    simp only [List.forall_mem_cons]
    exact ⟨rfl, rfl, rfl, nofun⟩
  obtain ⟨hcount, hwritten⟩ := length_tracksOf_iff hrow htracks
  refine ⟨hrow, htracks, fun heq => ?_, ?_⟩
  · have hcounted : CountsTracks (.function "repeat" [] []
        [.word "2", .div "," [] " ", .word "1fr", .space " ", .word "2fr"]) := hcount.1 heq _ (.head _)
    exact absurd (hcounted ("2".toList, _) rfl).1 (by decide)
  · rw [← hall]
    exact (hwritten hflat).1

end Grid

end VendorCss
