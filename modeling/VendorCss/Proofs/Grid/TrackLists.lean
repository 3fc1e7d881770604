import Mathlib
import VendorCss.Grid.Tracks
import VendorCss.Proofs.Component.Texts
import VendorCss.Proofs.Separated

/-!
# Track lists

A track list is a row of tracks, that is, components with white space between each two (`IsRow`). A track is a word, a
function, or a `repeat` of a row of tracks (`IsTrack`); written out, a `repeat` is its row as often as it says
(`writtenOut`).

A count is a whole number above zero, with or without a plus sign. The functions on tracks read it each in its own way:
where a `repeat` is written out beside gaps, a count has less than 64 bits (`nat64?_count`), and where tracks are counted
it has less than 63 (`leadingInt?_count`). Larger ones are read as zero.
-/

namespace VendorCss

namespace Grid

open Component

/-! ## Texts with white space between -/

/-- Texts one after the other, with white space between each two. -/
inductive IsSpaced : List Text → Text → Prop
  | nil : IsSpaced [] []
  | one (t : Text) : IsSpaced [t] t
  | more {t u s rest : Text} {us : List Text} (hne : s ≠ []) (hspace : ∀ c ∈ s, Token.isSpace c = true)
      (h : IsSpaced (u :: us) rest) : IsSpaced (t :: u :: us) (t ++ s ++ rest)

variable {ts us : List Text} {s t u gap : Text}

theorem IsSpaced.append (h : IsSpaced ts t) (hts : ts ≠ []) (h' : IsSpaced us u) (hus : us ≠ []) (hne : s ≠ [])
    (hspace : ∀ c ∈ s, Token.isSpace c = true) : IsSpaced (ts ++ us) (t ++ s ++ u) := by
  induction h with
  | nil => exact absurd rfl hts
  | one t =>
    cases us with
    | nil => exact absurd rfl hus
    | cons v us => exact .more hne hspace h'
  | more hne' hspace' _ ih =>
    simp only [List.append_assoc] at ih ⊢
    rw [← List.append_assoc _ _ (_ ++ _)]
    exact .more hne' hspace' (ih (List.cons_ne_nil _ _))

theorem isSpace_space : ∀ c ∈ [' '], Token.isSpace c = true := by decide

/-- Texts joined by a gap that has spaces around it. -/
theorem isSpaced_join_gap (gap : Text) (ts : List Text) :
    IsSpaced (ts.intersperse gap) (Text.join (' ' :: gap ++ [' ']) ts) := by
  induction ts with
  | nil => exact .nil
  | cons t ts ih =>
    cases ts with
    | nil => exact .one t
    | cons u ts =>
      have htail : (u :: ts).intersperse gap ≠ [] := by cases ts <;> exact List.cons_ne_nil _ _
      have hgap : IsSpaced (gap :: (u :: ts).intersperse gap)
          (gap ++ [' '] ++ Text.join (' ' :: gap ++ [' ']) (u :: ts)) :=
        IsSpaced.append (.one gap) (List.cons_ne_nil _ _) ih htail (List.cons_ne_nil _ _) isSpace_space
      have hall := IsSpaced.more (t := t) (List.cons_ne_nil ' ' []) isSpace_space hgap
      rw [List.intersperse_cons_cons]
      simpa [Text.join] using hall

theorem intersperse_append (hts : ts ≠ []) (hus : us ≠ []) (gap : Text) :
    (ts ++ us).intersperse gap = ts.intersperse gap ++ gap :: us.intersperse gap := by
  induction ts with
  | nil => exact absurd rfl hts
  | cons t ts ih =>
    cases ts with
    | nil =>
      cases us with
      | nil => exact absurd rfl hus
      | cons u us => rfl
    | cons t' ts =>
      rw [List.cons_append, List.cons_append, List.intersperse_cons_cons, ← List.cons_append, ih (List.cons_ne_nil _ _),
        List.intersperse_cons_cons]
      rfl

/-! ## Counts -/

/-- The number that a text of digits spells, after a plus sign or without one. -/
def countOf? (t : Text) : Option Nat := Decimal.digits? (match t with | '+' :: t => t | t => t)

/-- The number that a count spells. -/
def rounds (count : Text) : Nat := (countOf? count).getD 0

/-- A count is a sign, if any, and digits. -/
theorem exists_of_countOf? {n : Nat} (h : countOf? t = some n) : ∃ sign digits, t = sign ++ digits ∧
    (sign = [] ∨ sign = ['+']) ∧ digits ≠ [] ∧ ∀ c ∈ digits, isAsciiDigit c = true := by
  unfold countOf? Decimal.digits? at h
  obtain ⟨hdigits, -⟩ := Option.ite_none_right_eq_some.1 h
  rw [Bool.and_eq_true, Bool.not_eq_true', List.isEmpty_eq_false_iff, List.all_eq_true] at hdigits
  split at hdigits
  · exact ⟨['+'], _, rfl, .inr rfl, hdigits⟩
  · exact ⟨[], t, rfl, .inl rfl, hdigits⟩

/-- A count has no blanks around it, nor a minus sign before it. -/
theorem trim_count {n : Nat} (h : countOf? t = some n) : t.trim = t ∧ t.trimStart = t ∧ t.head? ≠ some '-' := by
  obtain ⟨sign, digits, rfl, hsign, -, hdigits⟩ := exists_of_countOf? h
  have hchars : ∀ c ∈ sign ++ digits, c = '+' ∨ isAsciiDigit c = true := by
    intro c hc
    rcases List.mem_append.1 hc with hc | hc
    · rcases hsign with rfl | rfl
      · cases hc
      · exact .inl (List.mem_singleton.1 hc)
    · exact .inr (hdigits c hc)
  have hblank : ∀ c ∈ sign ++ digits, isBlank c = false := by
    intro c hc
    rcases hchars c hc with rfl | hdigit
    · decide
    · exact Text.isBlank_of_isAsciiWordChar (by rw [isAsciiWordChar, hdigit, Bool.or_true, Bool.true_or])
  refine ⟨Text.IsTrimmed.trim_eq ⟨fun c hc => hblank c (List.mem_of_head? hc), fun c hc =>
    hblank c (List.mem_of_getLast? hc)⟩, ?_, fun hminus => ?_⟩
  · rw [Text.trimStart, List.dropWhile_eq_self_iff]
    exact fun hlt => Bool.eq_false_iff.1 (hblank _ (List.getElem_mem hlt))
  · rcases hchars '-' (List.mem_of_head? hminus) with h | h <;> exact absurd h (by decide)

/-- Where gaps are written a count has less than 64 bits. -/
theorem nat64?_count {n : Nat} (h : countOf? t = some n) :
    (Decimal.nat64? t.trim).getD 0 = if n < 2 ^ 64 then n else 0 := by
  have hread : Decimal.nat64? t = (countOf? t).filter (· < 2 ^ 64) := rfl
  rw [(trim_count h).1, hread, h, Option.filter_some, apply_ite (Option.getD · 0)]
  simp only [decide_eq_true_eq, Option.getD_some, Option.getD_none]

theorem leadingInt?_eq_int64? {n : Nat} (h : countOf? t = some n) : leadingInt? t = Decimal.int64? t := by
  obtain ⟨-, hstart, hminus⟩ := trim_count h
  obtain ⟨sign, digits, rfl, hsign, hne, hdigits⟩ := exists_of_countOf? h
  obtain ⟨c, ds, rfl⟩ := List.exists_cons_of_ne_nil hne
  have htake : (c :: ds).takeWhile isAsciiDigit = c :: ds := List.takeWhile_eq_self_iff.2 hdigits
  have hplus : isAsciiDigit '+' = false := by decide
  unfold leadingInt?
  rw [hstart]
  rcases hsign with rfl | rfl
  · have hc : c ≠ '+' := fun heq => by
      rw [heq, List.forall_mem_cons, hplus] at hdigits
      exact Bool.false_ne_true hdigits.1
    have hc' : c ≠ '-' := fun heq => hminus (by rw [heq]; rfl)
    simp [hc, hc', htake]
  · simp [htake]

/-- Where tracks are counted it has less than 63. -/
theorem leadingInt?_count {n : Nat} (h : countOf? t = some n) :
    ((leadingInt? t).getD 0).natAbs = if n < 2 ^ 63 then n else 0 := by
  have hread : Decimal.int64? t = ((countOf? t).filter (· < 2 ^ 63)).map Int.ofNat := by
    unfold Decimal.int64?
    split
    · exact absurd rfl (trim_count h).2.2
    · rfl
  rw [leadingInt?_eq_int64? h, hread, h, Option.filter_some]
  split <;> rename_i hn
  · rw [if_pos (of_decide_eq_true hn)]
    rfl
  · rw [if_neg fun hlt => hn (decide_eq_true hlt)]
    rfl

/-! ## Tracks -/

/-- Components with white space between each two, and none at the ends. -/
inductive IsRow : List Component → Prop
  | one {c : Component} (hc : c.isSpace = false) : IsRow [c]
  | more {c : Component} {s : Text} {cs : List Component} (hc : c.isSpace = false) (h : IsRow cs) :
      IsRow (c :: .space s :: cs)

/-- A word, a function that is not a `repeat`, or a `repeat` of a row of tracks as often as a count above zero says. -/
inductive IsTrack : Component → Prop
  | word (t : Text) : IsTrack (.word t)
  | function {name before after : Text} {args : List Component} (hname : name ≠ "repeat".toList) :
      IsTrack (.function name before after args)
  | rounds {count before after before' after' : Text} {n : Nat} {body : List Component}
      (hcount : countOf? count = some n) (hpos : 0 < n) (hrow : IsRow body)
      (hbody : ∀ c ∈ body, c.isSpace = false → IsTrack c) :
      IsTrack (.function "repeat" before after (.word count :: .div "," before' after' :: body))

/-- The count and the row of a `repeat`. -/
def repeat? : Component → Option (Text × List Component)
  | .function name _ _ (.word count :: .div _ _ _ :: body) => if name = "repeat" then some (count, body) else none
  | _ => none

mutual

/-- The tracks that a track stands for. -/
def writtenOut : Component → List Text
  | .space _ => []
  | .function name before after args =>
    if name = "repeat" then
      match args with
      | .word count :: _ :: body => repeated (rounds count) (allWrittenOut body)
      | _ => []
    else [Component.render (.function name before after args)]
  | c => [c.render]

/-- The tracks that a track list stands for. -/
def allWrittenOut : List Component → List Text
  | [] => []
  | c :: cs => writtenOut c ++ allWrittenOut cs

end

variable {c : Component} {cs body args : List Component} {count name before after before' after' : Text} {n : Nat}

@[simp] theorem allWrittenOut_cons (c : Component) (cs : List Component) :
    allWrittenOut (c :: cs) = writtenOut c ++ allWrittenOut cs := rfl

theorem writtenOut_repeat : writtenOut (.function "repeat" before after (.word count :: .div "," before' after' :: body)) =
    repeated (rounds count) (allWrittenOut body) := by
  rw [writtenOut, if_pos rfl]

theorem writtenOut_function (hname : name ≠ "repeat".toList) :
    writtenOut (.function name before after args) = [(Component.function name before after args).render] := by
  unfold writtenOut
  exact if_neg hname

theorem repeated_ne_nil {ts : List Text} (hn : 0 < n) (hts : ts ≠ []) : repeated n ts ≠ [] := by
  obtain ⟨m, rfl⟩ : ∃ m, n = m + 1 := ⟨n - 1, by omega⟩
  rw [repeated, List.replicate_succ, List.flatten_cons]
  simp [hts]

/-- A track stands for one track at least. -/
theorem writtenOut_ne_nil (h : IsTrack c) : writtenOut c ≠ [] := by
  induction h with
  | word t => exact List.cons_ne_nil _ _
  | function hname =>
    rw [writtenOut_function hname]
    exact List.cons_ne_nil _ _
  | rounds hcount hpos hrow _ ih =>
    rw [writtenOut_repeat, rounds, hcount]
    refine repeated_ne_nil hpos ?_
    cases hrow with
    | one hc => simp [ih _ List.mem_cons_self hc]
    | more hc _ => simp [ih _ List.mem_cons_self hc]

theorem IsTrack.isAnyDiv (h : IsTrack c) : c.isAnyDiv = false := by
  cases h <;> rfl

/-- Nothing in a row of tracks is a divider. -/
theorem isAnyDiv_of_row (hbody : ∀ c ∈ body, c.isSpace = false → IsTrack c) : ∀ c ∈ body, c.isAnyDiv = false := by
  intro c hc
  cases hspace : c.isSpace with
  | true => cases c <;> first | rfl | cases hspace
  | false => exact (hbody c hc hspace).isAnyDiv

/-- What every track is: one that stands for itself, or a `repeat`. -/
theorem IsTrack.cases (h : IsTrack c) :
    (repeat? c = none ∧ writtenOut c = [c.render] ∧ componentTracks c = [c.render] ∧
      ∀ gap, trackComponents gap c = [c]) ∨
    ∃ count before after before' after' n body, countOf? count = some n ∧ 0 < n ∧ IsRow body ∧
      (∀ c ∈ body, c.isSpace = false → IsTrack c) ∧
      c = .function "repeat" before after (.word count :: .div "," before' after' :: body) := by
  cases h with
  | word t => exact .inl ⟨rfl, rfl, rfl, fun gap => by cases gap <;> rfl⟩
  | @function name before after args hname =>
    refine .inl ⟨?_, ?_, ?_, fun gap => ?_⟩
    · unfold repeat?
      split
      · rw [if_neg]
        rename_i heq
        cases heq
        exact hname
      · rfl
    · exact writtenOut_function hname
    · rw [componentTracks, if_neg hname]
    · unfold trackComponents
      cases gap <;> exact if_neg hname
  | rounds hcount hpos hrow hbody => exact .inr ⟨_, _, _, _, _, _, _, hcount, hpos, hrow, hbody, rfl⟩

/-! ## The functions on tracks -/

theorem splitRepeat_eq (hbody : ∀ c ∈ body, c.isAnyDiv = false) :
    splitRepeat (.word count :: .div "," before' after' :: body) = ([.word count], body) := by
  have hcut : (Component.word count :: .div "," before' after' :: body).takeWhile (fun c => !c.isDiv ",") =
      [.word count] := by
    simp [List.takeWhile, Component.isDiv]
  have hrest : (Component.div "," before' after' :: body).filter (fun c => !c.isDiv ",") = body := by
    rw [List.filter_cons_of_neg (by simp [Component.isDiv]), List.filter_eq_self]
    intro c hc
    have hdiv := hbody c hc
    cases c <;> first | rfl | cases hdiv
  unfold splitRepeat
  rw [hcut]
  exact congrArg _ hrest

/-- A `repeat` counts as its row once for every round. -/
theorem componentTracks_repeat (hbody : ∀ c ∈ body, c.isAnyDiv = false) (hcount : countOf? count = some n) :
    componentTracks (.function "repeat" before after (.word count :: .div "," before' after' :: body)) =
      List.replicate (if n < 2 ^ 63 then n else 0) (renderAll body) := by
  rw [componentTracks, if_pos rfl, repeatCount, splitRepeat_eq hbody, ← leadingInt?_count hcount]
  rfl

theorem repeatText_none (hbody : ∀ c ∈ body, c.isAnyDiv = false) :
    repeatText (.word count :: .div "," before' after' :: body) none =
      '(' :: renderAll body ++ ")[" ++ count ++ "]" := by
  have hflat : (body.map Component.render).flatten = renderAll body := by
    induction body with
    | nil => rfl
    | cons c cs ih => rw [List.map_cons, List.flatten_cons, ih fun d hd => hbody d (List.mem_cons_of_mem c hd), renderAll_cons]
  rw [repeatText, splitRepeat_eq hbody]
  dsimp only
  rw [hflat, renderAll_cons, renderAll_nil, List.append_nil, render_word]

/-- Beside a gap a `repeat` is written out, but for what is blank. -/
theorem repeatText_gap (hbody : ∀ c ∈ body, c.isAnyDiv = false) (hcount : countOf? count = some n) (gap : Text) :
    repeatText (.word count :: .div "," before' after' :: body) (some gap) = Text.join (' ' :: gap ++ [' '])
      (repeated (if n < 2 ^ 64 then n else 0) ((body.map Component.render).filter fun t => !t.trim.isEmpty)) := by
  rw [repeatText, splitRepeat_eq hbody]
  dsimp only
  rw [renderAll_cons, renderAll_nil, List.append_nil, render_word, nat64?_count hcount]

end Grid

end VendorCss
