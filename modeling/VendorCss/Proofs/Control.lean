import Mathlib.Data.List.TakeWhile
import VendorCss.Proofs.Pass.GridModes
import VendorCss.Proofs.Text.Starts

/-!
# What a control comment says

A control comment reads as a phrase with a keyword at its end, and may go on with any text (`Control.Reads`). It is
found by the phrase, but what it says is searched for in the whole comment: a switch that holds an `on` anywhere switches
on, and a grid comment that holds `: autoplace` anywhere chooses automatic placement. Nothing of what is searched for
stands in the phrase itself unless the keyword says it, nor where the phrase and the text after it meet. So the search
through the comment is one through the text after the keyword (`switchesOn_off`, `gridModeOf_eq`), and the keyword counts
exactly where that text does not hold such a word by chance.

A pass that was asked anything before tells a block what its first control comments say so (`controlComments_told`).
-/

namespace VendorCss

namespace Text

variable {s t r needle : Text}

/-! ## Searches up to case -/

/-- What is cut off the start differs from the text looked for in case alone. -/
theorem dropStartFolded?_eq_some_iff :
    dropStartFolded? s t = some r ↔ ∃ w : Text, t = w ++ r ∧ w.map foldCase = s.map foldCase := by
  induction s generalizing t with
  | nil => simp [dropStartFolded?]
  | cons c s ih =>
    cases t with
    | nil => simp [dropStartFolded?]
    | cons d t =>
      rw [dropStartFolded?]
      constructor
      · intro h
        split at h
        · rename_i hfold
          obtain ⟨w, rfl, hw⟩ := ih.1 h
          exact ⟨d :: w, rfl, by rw [List.map_cons, List.map_cons, hw, hfold]⟩
        · cases h
      · rintro ⟨w, ht, hw⟩
        obtain ⟨e, w, rfl⟩ := List.exists_cons_of_ne_nil (l := w) (by rintro rfl; cases hw)
        obtain ⟨rfl, rfl⟩ := List.cons.inj ht
        obtain ⟨hfold, hw⟩ := List.cons.inj hw
        rw [if_pos hfold.symm]
        exact ih.2 ⟨w, rfl, hw⟩

theorem dropStartFolded?_isSome_iff :
    (dropStartFolded? s t).isSome = true ↔ s.map foldCase <+: t.map foldCase := by
  rw [Option.isSome_iff_exists]
  constructor
  · rintro ⟨r, h⟩
    obtain ⟨w, rfl, hw⟩ := dropStartFolded?_eq_some_iff.1 h
    rw [List.map_append, hw]
    exact List.prefix_append _ _
  · rintro ⟨u, hu⟩
    obtain ⟨w, r, rfl, hw, -⟩ := List.map_eq_append_iff.1 hu.symm
    exact ⟨r, dropStartFolded?_eq_some_iff.2 ⟨w, rfl, hw⟩⟩

theorem containsFolded_iff : containsFolded t needle = true ↔ needle.map foldCase <:+: t.map foldCase := by
  induction t with
  | nil => simp [containsFolded]
  | cons c t ih =>
    rw [containsFolded, Bool.or_eq_true, dropStartFolded?_isSome_iff, ih, List.map_cons, List.infix_cons_iff]

/-- A text without the first character of what is looked for holds no part of a place. -/
theorem infix_append_of_notMem {a : Char} {v w t : Text} (h : a ∉ w) : a :: v <:+: w ++ t ↔ a :: v <:+: t := by
  induction w with
  | nil => exact Iff.rfl
  | cons c w ih =>
    rw [List.mem_cons, not_or] at h
    rw [List.cons_append, List.infix_cons_iff, ih h.2]
    refine or_iff_right fun hprefix => h.1 ?_
    obtain ⟨u, hu⟩ := hprefix
    exact (List.cons.inj hu).1

/-- Two characters do not stand where a text that does not hold them meets another one, unless it ends in the first. -/
theorem pair_infix_append {a b : Char} {w t : Text} (h : ¬[a, b] <:+: w) (hlast : w.getLast? ≠ some a) :
    [a, b] <:+: w ++ t ↔ [a, b] <:+: t := by
  induction w with
  | nil => exact Iff.rfl
  | cons c w ih =>
    rw [List.infix_cons_iff, not_or] at h
    cases w with
    | nil =>
      have hc : a ∉ [c] := fun hmem => hlast (by rw [List.mem_singleton.1 hmem]; rfl)
      exact infix_append_of_notMem hc
    | cons d w =>
      rw [List.getLast?_cons_cons] at hlast
      rw [List.cons_append, List.infix_cons_iff, ih h.2 hlast]
      refine or_iff_right fun hprefix => h.1 ?_
      obtain ⟨u, hu⟩ := hprefix
      obtain ⟨hc, hrest⟩ := List.cons.inj hu
      obtain ⟨hd, -⟩ := List.cons.inj hrest
      exact ⟨w, by rw [hc, hd]; rfl⟩

end Text

namespace PhrasePart

variable {phrase : List PhrasePart} {w t r : Text}

/-! ## Phrases -/

theorem after?_word (h : after? (word w :: phrase) t = some r) :
    ∃ x u : Text, t = x ++ u ∧ x.map foldCase = w.map foldCase ∧ after? phrase u = some r := by
  obtain ⟨u, hu, hr⟩ := Option.bind_eq_some_iff.1 h
  obtain ⟨x, rfl, hx⟩ := Text.dropStartFolded?_eq_some_iff.1 hu
  exact ⟨x, u, rfl, hx, hr⟩

theorem after?_blanks (h : after? (blanks :: phrase) t = some r) :
    ∃ b u : Text, t = b ++ u ∧ (∀ c ∈ b, isBlank c = true) ∧ after? phrase u = some r :=
  ⟨t.leadingBlanks, t.trimStart, (Text.leadingBlanks_append_trimStart t).symm, fun _ hc => List.mem_takeWhile_imp hc, h⟩

/-- A phrase that starts with a word does not start with other letters than the word. -/
theorem after?_cons_of_ne {c d : Char} (h : foldCase c ≠ foldCase d) :
    after? (word (d :: w) :: phrase) (c :: t) = none := by
  rw [after?, Text.dropStartFolded?, if_neg (Ne.symm h)]
  rfl

theorem standsIn_append {d : Char} {v : Text} (h : ∀ c ∈ w, foldCase c ≠ foldCase d) (t : Text) :
    standsIn (word (d :: v) :: phrase) (w ++ t) = standsIn (word (d :: v) :: phrase) t := by
  induction w with
  | nil => rfl
  | cons c w ih =>
    rw [List.cons_append, standsIn, after?_cons_of_ne (h c List.mem_cons_self), ih fun c hc => h c (.tail _ hc)]
    rfl

end PhrasePart

namespace Control

open PhrasePart

variable {comment rest w k : Text}

/-! ## Comments that read as a phrase -/

/-- A text of blanks and exclamation marks. -/
def IsLead (t : Text) : Prop := ∀ c ∈ t, isBlank c = true ∨ c = '!'

instance (t : Text) : Decidable (IsLead t) := inferInstanceAs (Decidable (∀ c ∈ t, isBlank c = true ∨ c = '!'))

/-- A comment reads as a phrase, which only blanks and exclamation marks may stand before, and goes on with a text. -/
def Reads (phrase : List PhrasePart) (comment rest : Text) : Prop :=
  ∃ lead t : Text, comment = lead ++ t ∧ IsLead lead ∧ after? phrase t = some rest

/-- `autoprefixer: off` or `autoprefixer: on`. -/
def switchPhrase (state : Text) : List PhrasePart := [word "autoprefixer:", blanks, word state]

/-- `autoprefixer grid: autoplace` and the like. -/
def gridPhrase (keyword : Text) : List PhrasePart :=
  [word "autoprefixer", blanks, word "grid:", blanks, word keyword]

/-- The sign of automatic placement. -/
def autoplacePhrase : List PhrasePart := [word ":", blanks, word "autoplace"]

theorem IsLead.of_blanks {t : Text} (h : ∀ c ∈ t, isBlank c = true) : IsLead t := fun c hc => .inl (h c hc)

theorem IsLead.foldCase_eq {t : Text} (h : IsLead t) {c : Char} (hc : c ∈ t) : foldCase c = c := by
  rcases h c hc with hblank | rfl
  · exact foldCase_of_isBlank hblank
  · decide

theorem IsLead.map_foldCase {t : Text} (h : IsLead t) : t.map foldCase = t :=
  (List.map_congr_left fun _ hc => h.foldCase_eq hc).trans (List.map_id t)

theorem IsLead.notMem {t : Text} (h : IsLead t) {c : Char} (hblank : isBlank c = false) (hmark : c ≠ '!') : c ∉ t := by
  intro hc
  rcases h c hc with hc | hc
  · rw [hblank] at hc
    cases hc
  · exact hmark hc

/-- The parts of a comment that reads as a switch. -/
theorem Reads.switch_parts {state : Text} (h : Reads (switchPhrase state) comment rest) : ∃ lead b : Text,
    IsLead lead ∧ IsLead b ∧ comment.map foldCase =
      lead ++ ("autoprefixer:" ++ (b ++ (state.map foldCase ++ rest.map foldCase))) := by
  obtain ⟨lead, t, rfl, hlead, h⟩ := h
  obtain ⟨x, t, rfl, hx, h⟩ := after?_word h
  obtain ⟨b, t, rfl, hb, h⟩ := after?_blanks h
  obtain ⟨y, t, rfl, hy, h⟩ := after?_word h
  obtain rfl : t = rest := Option.some.inj h
  have hb := IsLead.of_blanks hb
  have hword : ("autoprefixer:" : Text).map foldCase = "autoprefixer:" := by decide
  refine ⟨lead, b, hlead, hb, ?_⟩
  simp only [List.map_append, hlead.map_foldCase, hb.map_foldCase, hx, hy, hword]

/-- The parts of a comment that reads as a choice of grids; the colon is told apart. -/
theorem Reads.grid_parts {keyword : Text} (h : Reads (gridPhrase keyword) comment rest) :
    ∃ (before : Text) (colon : Char) (blanks key : Text), comment = before ++ colon :: (blanks ++ (key ++ rest)) ∧
      foldCase colon = ':' ∧ IsLead blanks ∧ (∀ c ∈ blanks, isBlank c = true) ∧
      key.map foldCase = keyword.map foldCase ∧
      ∃ lead b : Text, IsLead lead ∧ IsLead b ∧ before.map foldCase = lead ++ ("autoprefixer" ++ (b ++ "grid")) := by
  obtain ⟨lead, _, rfl, hlead, hafter⟩ := h
  obtain ⟨x, _, rfl, hx, hafter⟩ := after?_word hafter
  obtain ⟨b, _, rfl, hb, hafter⟩ := after?_blanks hafter
  obtain ⟨y, _, rfl, hy, hafter⟩ := after?_word hafter
  obtain ⟨b', _, rfl, hb', hafter⟩ := after?_blanks hafter
  obtain ⟨key, t, rfl, hkey, hrest⟩ := after?_word hafter
  obtain rfl : t = rest := Option.some.inj hrest
  have hb := IsLead.of_blanks hb
  have hgrid : ("grid:" : Text).map foldCase = "grid" ++ ":" := by decide
  have hword : ("autoprefixer" : Text).map foldCase = "autoprefixer" := by decide
  obtain ⟨g, c, rfl, hg, hc⟩ := List.map_eq_append_iff.1 (hy.trans hgrid)
  obtain ⟨colon, u, rfl, hcolon, hnil⟩ := List.map_eq_cons_iff.1 hc
  obtain rfl := List.map_eq_nil_iff.1 hnil
  refine ⟨lead ++ (x ++ (b ++ g)), colon, b', key, by simp, hcolon, .of_blanks hb', hb', hkey, lead, b, hlead, hb, ?_⟩
  simp only [List.map_append, hlead.map_foldCase, hb.map_foldCase, hx, hg, hword]

/-! ## Switches -/

/-- An `on` after the phrase of a switch is the only one that it can hold, unless its keyword is one. -/
theorem containsFolded_switch {state : Text} (h : Reads (switchPhrase state) comment rest) :
    Text.containsFolded comment "on" = true ↔ ['o', 'n'] <:+: state.map foldCase ++ rest.map foldCase := by
  obtain ⟨lead, b, hlead, hb, hcomment⟩ := h.switch_parts
  have hon : ("on" : Text).map foldCase = ['o', 'n'] := by decide
  have ho : isBlank 'o' = false := by decide
  have hname : ¬['o', 'n'] <:+: ("autoprefixer:" : Text) := fun h =>
    absurd (h.subset (List.mem_cons_of_mem _ List.mem_cons_self)) (by decide)
  have hlast : ("autoprefixer:" : Text).getLast? ≠ some 'o' := by decide
  rw [Text.containsFolded_iff, hon, hcomment, Text.infix_append_of_notMem (hlead.notMem ho (by decide)),
    Text.pair_infix_append hname hlast, Text.infix_append_of_notMem (hb.notMem ho (by decide))]

theorem switchesOn_on (h : Reads (switchPhrase "on") comment rest) : switchesOn comment = true :=
  (containsFolded_switch h).2 ⟨[], rest.map foldCase, by
    rw [show ("on" : Text).map foldCase = ['o', 'n'] by decide]
    rfl⟩

/-- A comment that reads `off` switches on where an `on` stands in the text after it. -/
theorem switchesOn_off (h : Reads (switchPhrase "off") comment rest) :
    switchesOn comment = Text.containsFolded rest "on" := by
  have hoff : ("off" : Text).map foldCase = ['o', 'f', 'f'] := by decide
  have hon : ("on" : Text).map foldCase = ['o', 'n'] := by decide
  have hword : ¬['o', 'n'] <:+: ['o', 'f', 'f'] := by decide
  have hlast : ['o', 'f', 'f'].getLast? ≠ some 'o' := by decide
  rw [switchesOn, Bool.eq_iff_iff, containsFolded_switch h, hoff, Text.pair_infix_append hword hlast,
    Text.containsFolded_iff, hon]

/-! ## Grids -/

variable {keyword : Text} {mode : GridMode}

/-- What is looked for in a comment about grids stands in its keyword and the text after that, if no place of it starts
before. -/
theorem infix_grid {d : Char} {v : Text} (h : Reads (gridPhrase keyword) comment rest) (hblank : isBlank d = false)
    (hd : d ∉ (":grid!" : Text)) (hname : ∀ t, d :: v <:+: "autoprefixer" ++ t ↔ d :: v <:+: t) :
    d :: v <:+: comment.map foldCase ↔ d :: v <:+: keyword.map foldCase ++ rest.map foldCase := by
  obtain ⟨before, colon, b', key, rfl, hcolon, hb', -, hkey, lead, b, hlead, hb, hbefore⟩ := h.grid_parts
  have hsplit : (":grid!" : Text) = [':'] ++ ("grid" ++ ['!']) := by decide
  rw [hsplit, List.mem_append, List.mem_append, not_or, not_or] at hd
  obtain ⟨hcolon', hgrid, hmark⟩ := hd
  have hmark : d ≠ '!' := fun heq => hmark (List.mem_singleton.2 heq)
  rw [List.map_append, List.map_cons, hcolon, hbefore, List.map_append, List.map_append, hkey, hb'.map_foldCase,
    List.append_cons]
  simp only [List.append_assoc]
  rw [Text.infix_append_of_notMem (hlead.notMem hblank hmark), hname,
    Text.infix_append_of_notMem (hb.notMem hblank hmark), Text.infix_append_of_notMem hgrid,
    Text.infix_append_of_notMem hcolon', Text.infix_append_of_notMem (hb'.notMem hblank hmark)]

theorem containsFolded_grid_on (h : Reads (gridPhrase keyword) comment rest) :
    Text.containsFolded comment "on" = true ↔ ['o', 'n'] <:+: keyword.map foldCase ++ rest.map foldCase := by
  have hon : ("on" : Text).map foldCase = ['o', 'n'] := by decide
  have hname : ¬['o', 'n'] <:+: ("autoprefixer" : Text) := fun h =>
    absurd (h.subset (List.mem_cons_of_mem _ List.mem_cons_self)) (by decide)
  have hlast : ("autoprefixer" : Text).getLast? ≠ some 'o' := by decide
  rw [Text.containsFolded_iff, hon]
  exact infix_grid h (by decide) (by decide) fun t => Text.pair_infix_append hname hlast

theorem containsFolded_grid_noAutoplace (h : Reads (gridPhrase keyword) comment rest) :
    Text.containsFolded comment "no-autoplace" = true ↔
      ("no-autoplace" : Text) <:+: keyword.map foldCase ++ rest.map foldCase := by
  have hno : ("no-autoplace" : Text).map foldCase = 'n' :: "o-autoplace" := by decide
  have hname : 'n' ∉ ("autoprefixer" : Text) := by decide
  rw [Text.containsFolded_iff, hno]
  exact infix_grid h (by decide) (by decide) fun t => Text.infix_append_of_notMem hname

/-- The sign of automatic placement stands in a comment about grids where the keyword and the text after it start with
its word, or in that text. -/
theorem standsIn_autoplacePhrase (h : Reads (gridPhrase keyword) comment rest)
    (hblank : ∀ c ∈ (keyword.map foldCase).head?, isBlank c = false) (hne : keyword ≠ [])
    (hcolon : ':' ∉ keyword.map foldCase) : standsIn autoplacePhrase comment = true ↔
      ("autoplace" : Text) <+: keyword.map foldCase ++ rest.map foldCase ∨ standsIn autoplacePhrase rest = true := by
  obtain ⟨before, colon, b', key, rfl, hcolon', hb', hblanks, hkey, lead, b, hlead, hb, hbefore⟩ := h.grid_parts
  have hfold : foldCase ':' = ':' := by decide
  have hword : ("autoplace" : Text).map foldCase = "autoplace" := by decide
  have hno : ':' ∉ before.map foldCase := by
    rw [hbefore]
    simp only [List.mem_append, not_or]
    exact ⟨hlead.notMem (by decide) (by decide), by decide, hb.notMem (by decide) (by decide), by decide⟩
  have hnone {w : Text} (hw : ':' ∉ w.map foldCase) : ∀ c ∈ w, foldCase c ≠ foldCase ':' := fun c hc heq =>
    hw (List.mem_map.2 ⟨c, hc, heq.trans hfold⟩)
  have hskip {w : Text} (hw : ':' ∉ w.map foldCase) (t : Text) :
      standsIn autoplacePhrase (w ++ t) = standsIn autoplacePhrase t := standsIn_append (hnone hw) t
  have htrim : (b' ++ (key ++ rest)).trimStart = key ++ rest := by
    rw [Text.trimStart, List.dropWhile_append_of_pos hblanks]
    cases key with
    | nil => exact absurd (List.map_eq_nil_iff.1 hkey.symm) hne
    | cons c key =>
      refine List.dropWhile_cons_of_neg fun hc => ?_
      have hhead := hblank (foldCase c) (by rw [← hkey]; rfl)
      rw [foldCase_of_isBlank hc, hc] at hhead
      cases hhead
  have hhere : (after? autoplacePhrase (colon :: (b' ++ (key ++ rest)))).isSome = true ↔
      ("autoplace" : Text) <+: keyword.map foldCase ++ rest.map foldCase := by
    have hafter : after? autoplacePhrase (colon :: (b' ++ (key ++ rest))) =
        Text.dropStartFolded? "autoplace" (key ++ rest) := by
      rw [autoplacePhrase, after?, show (":" : Text) = [':'] from rfl, Text.dropStartFolded?,
        if_pos (hfold.trans hcolon'.symm), Text.dropStartFolded?, Option.bind_some, after?, htrim, after?]
      cases Text.dropStartFolded? "autoplace" (key ++ rest) <;> rfl
    rw [hafter, Text.dropStartFolded?_isSome_iff, List.map_append, hkey, hword]
  have hrest : standsIn autoplacePhrase (b' ++ (key ++ rest)) = standsIn autoplacePhrase rest := by
    have hb'' : ':' ∉ b'.map foldCase := by
      rw [hb'.map_foldCase]
      exact hb'.notMem (by decide) (by decide)
    rw [hskip hb'', hskip (hkey ▸ hcolon)]
  rw [hskip hno, standsIn, Bool.or_eq_true, hhere, hrest]

/-- A keyword that does not start as the word of automatic placement does leaves it to the text after it. -/
theorem standsIn_autoplacePhrase_of_ne {c : Char} {v : Text} (h : Reads (gridPhrase keyword) comment rest)
    (hfold : keyword.map foldCase = c :: v) (hc : c ≠ 'a') (hblank : isBlank c = false) (hcolon : ':' ∉ c :: v) :
    standsIn autoplacePhrase comment = standsIn autoplacePhrase rest := by
  have hne : keyword ≠ [] := by
    rintro rfl
    cases hfold
  have hiff := standsIn_autoplacePhrase h (by simpa [hfold] using hblank) hne (hfold ▸ hcolon)
  rw [Bool.eq_iff_iff, hiff, hfold]
  refine or_iff_right fun hprefix => hc ?_
  obtain ⟨u, hu⟩ := hprefix
  exact (List.cons.inj hu).1.symm

/-- The keywords and what they stand for. -/
theorem keyword_cases (h : GridMode.ofKeyword? keyword = some mode) : keyword = "autoplace" ∧ mode = .autoplace ∨
    keyword = "no-autoplace" ∧ mode = .noAutoplace ∨ keyword = "on" ∧ mode = .noAutoplace ∨
      keyword = "off" ∧ mode = .off := by
  unfold GridMode.ofKeyword? at h
  split at h
  · exact .inl ⟨‹_›, (Option.some.inj h).symm⟩
  · split at h
    · rename_i hon
      simp only [Bool.or_eq_true, decide_eq_true_eq] at hon
      exact .inr (hon.elim (fun hon => .inl ⟨hon, (Option.some.inj h).symm⟩)
        fun hon => .inr (.inl ⟨hon, (Option.some.inj h).symm⟩))
    · split at h
      · exact .inr (.inr (.inr ⟨‹_›, (Option.some.inj h).symm⟩))
      · cases h

/-- A comment about grids chooses what its keyword stands for, unless the text after it holds the sign of automatic
placement, or switches on what the keyword switches off. -/
theorem gridModeOf_eq (hkeyword : GridMode.ofKeyword? keyword = some mode)
    (h : Reads (gridPhrase keyword) comment rest) : gridModeOf comment =
      if standsIn autoplacePhrase rest then .autoplace
      else if mode = .off ∧ (Text.containsFolded rest "no-autoplace" || Text.containsFolded rest "on") then .noAutoplace
      else mode := by
  have hmode : gridModeOf comment = if standsIn autoplacePhrase comment then .autoplace
      else if Text.containsFolded comment "no-autoplace" || Text.containsFolded comment "on" then .noAutoplace
      else .off := rfl
  rcases keyword_cases hkeyword with ⟨rfl, rfl⟩ | ⟨rfl, rfl⟩ | ⟨rfl, rfl⟩ | ⟨rfl, rfl⟩
  · have hfold : ("autoplace" : Text).map foldCase = "autoplace" := by decide
    have hblank : ∀ c ∈ ("autoplace" : Text).head?, isBlank c = false := by
      rintro c ⟨⟩
      decide
    have hstands := (standsIn_autoplacePhrase h (hfold ▸ hblank) (by decide) (by rw [hfold]; decide)).2
      (.inl (by rw [hfold]; exact List.prefix_append _ _))
    rw [hmode, if_pos hstands]
    simp only [reduceCtorEq, false_and, if_false, ite_self]
  · have hfold : ("no-autoplace" : Text).map foldCase = 'n' :: "o-autoplace" := by decide
    have hno : Text.containsFolded comment "no-autoplace" = true := by
      refine (containsFolded_grid_noAutoplace h).2 ?_
      rw [hfold]
      exact (List.prefix_append _ _).isInfix
    rw [hmode, standsIn_autoplacePhrase_of_ne h hfold (by decide) (by decide) (by decide), hno]
    simp only [Bool.true_or, if_true, reduceCtorEq, false_and, if_false]
  · have hfold : ("on" : Text).map foldCase = ['o', 'n'] := by decide
    have hon : Text.containsFolded comment "on" = true := by
      refine (containsFolded_grid_on h).2 ?_
      rw [hfold]
      exact (List.prefix_append _ _).isInfix
    rw [hmode, standsIn_autoplacePhrase_of_ne h hfold (by decide) (by decide) (by decide), hon]
    simp only [Bool.or_true, if_true, reduceCtorEq, false_and, if_false]
  · have hfold : ("off" : Text).map foldCase = ['o', 'f', 'f'] := by decide
    have hpair : ['o', 'n'].map foldCase = ['o', 'n'] := by decide
    have hword : ("no-autoplace" : Text).map foldCase = 'n' :: "o-autoplace" := by decide
    have hnotOn : ¬['o', 'n'] <:+: ['o', 'f', 'f'] := by decide
    have hlast : ['o', 'f', 'f'].getLast? ≠ some 'o' := by decide
    have hn : 'n' ∉ ['o', 'f', 'f'] := by decide
    have hon : Text.containsFolded comment "on" = Text.containsFolded rest "on" := by
      rw [Bool.eq_iff_iff, containsFolded_grid_on h, hfold, Text.pair_infix_append hnotOn hlast,
        Text.containsFolded_iff]
      exact Iff.of_eq (congrArg (· <:+: rest.map foldCase) hpair.symm)
    have hno : Text.containsFolded comment "no-autoplace" = Text.containsFolded rest "no-autoplace" := by
      rw [Bool.eq_iff_iff, containsFolded_grid_noAutoplace h, hfold, Text.containsFolded_iff, hword]
      exact Text.infix_append_of_notMem (v := "o-autoplace") hn
    rw [hmode, standsIn_autoplacePhrase_of_ne h hfold (by decide) (by decide) (by decide), hon, hno]
    simp only [true_and]

end Control

namespace Pass

open Control

/-- Whatever a pass was asked before, a block whose first switch reads `off` is switched off unless an `on` stands in the
text after that, and one whose first switch reads `on` is not; only a comment that has it ignored counts more. A block
whose first comment about grids reads as a keyword is told what the keyword stands for, unless the text after it holds
the sign of automatic placement, or switches on what the keyword switches off; an `@supports` rule that asks for
automatic placement is told otherwise. -/
theorem controlComments_told (rules : Rules) {s : Sheet} (hs : s.IsNumbered) (questions : List Question) (id : Nat) :
    (∀ comment rest state : Text, (switchIn s id isSwitch).1 = some comment → state = "off" ∨ state = "on" →
      Reads (switchPhrase state) comment rest →
        ((({ rules, sheet := s } : Pass).askAll questions).disabled id).1 =
          (s.ignores id || (state = "off" && !Text.containsFolded rest "on"))) ∧
    ∀ comment rest keyword mode, (switchIn s id isGridSwitch).1 = some comment →
      GridMode.ofKeyword? keyword = some mode → Reads (gridPhrase keyword) comment rest →
        (s.node? id).any asksForAutoplace = false → gridModeAfter rules s questions id =
          if PhrasePart.standsIn autoplacePhrase rest then .autoplace
          else if mode = .off ∧ (Text.containsFolded rest "no-autoplace" || Text.containsFolded rest "on") then
            .noAutoplace
          else mode := by
  constructor
  · intro comment rest state hswitch hstate hreads
    have hrecalls := (Recalls.fresh rules s).askAll hs questions
    have hon : switchesOn comment = !(decide (state = "off") && !Text.containsFolded rest "on") := by
      rcases hstate with rfl | rfl
      · rw [switchesOn_off hreads]
        simp
      · rw [switchesOn_on hreads, decide_eq_false (by decide), Bool.false_and]
        rfl
    rw [(hrecalls.toRemembers.answers hs id).isOff, Sheet.isOff_eq hs, Sheet.switch?, hswitch]
    dsimp only
    rw [hon, Bool.not_not]
    cases s.ignores id <;> rfl
  · intro comment rest keyword mode hswitch hkeyword hreads hauto
    have hown : s.ownGridMode? id = some (gridModeOf comment) := by
      rw [Sheet.ownGridMode?, hauto, if_neg Bool.false_ne_true, hswitch]
      rfl
    rw [← gridModeOf_eq hkeyword hreads]
    rcases mayBeTold_gridModeAfter rules hs questions id with heq | ⟨-, i, hi, -⟩
    · rw [heq, Sheet.gridModeAt_of_own hown]
    · rw [Sheet.gridSources_of_own hown] at hi
      cases hi

/-- A rule that is switched off in capitals, and where `grid: off` holds an `on` further on. -/
def annotatedRule : Sheet :=
  .ofRoot .root
    (.tree 1 (.rule "a") (.cons 2 (.comment " Autoprefixer:OFF here ") .nil
      (.tree 3 (.comment "! autoprefixer grid: off in this section ") .nil))) 4

/-- The rule is off, and its grids are written although they are switched off. -/
theorem controlComments_told_annotated : annotatedRule.IsNumbered ∧
    ((({ rules := default, sheet := annotatedRule } : Pass).askAll [.grids 2, .isOff 3]).disabled 1).1 = true ∧
    gridModeAfter default annotatedRule [.isOff 1, .grids 3] 1 = .noAutoplace := by
  have hs : annotatedRule.IsNumbered := ⟨by decide, by decide⟩
  have hoff : Reads (switchPhrase "off") " Autoprefixer:OFF here " " here " :=
    ⟨" ", "Autoprefixer:OFF here ", by decide, by decide, by decide +kernel⟩
  have hgrid : Reads (gridPhrase "off") "! autoprefixer grid: off in this section " " in this section " :=
    ⟨"! ", "autoprefixer grid: off in this section ", by decide, by decide, by decide +kernel⟩
  refine ⟨hs, ?_, ?_⟩
  · exact ((controlComments_told default hs [.grids 2, .isOff 3] 1).1 _ _ "off" (by decide +kernel) (.inl rfl)
      hoff).trans (by decide +kernel)
  · exact ((controlComments_told default hs [.isOff 1, .grids 3] 1).2 _ _ "off" .off (by decide +kernel)
      (by decide +kernel) hgrid (by decide +kernel)).trans (by decide +kernel)

end Pass

end VendorCss
