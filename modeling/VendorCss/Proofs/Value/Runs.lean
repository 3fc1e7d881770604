import Mathlib.Data.List.SplitBy
import VendorCss.Css.Sheet.Parser
import VendorCss.Pass.Value
import VendorCss.Proofs.Value.Settling

/-!
# Words as runs

Between its delimiters a value is made up of runs. Spelling a word for a vendor puts the prefix before each run that is
the word, and leaves every other character as it is (`prefixRuns`). One step may miss a word whose delimiter the word
before it has taken, but it never changes what the runs with their prefixes are (`Respelled.prefixRuns_eq`), since a run
with its prefix is longer than the word. So the steps end, and they end there (`ValueVariants.spellFor_prefixRuns`).
-/

namespace VendorCss

/-! ## Letters -/

/-- The code points of the delimiters. -/
def delimiterCodes : List Nat :=
  [9, 10, 11, 12, 13, 0x20, 0x28, 0x2C, 0x85, 0xA0, 0x1680, 0x2000, 0x2001, 0x2002, 0x2003, 0x2004, 0x2005, 0x2006,
   0x2007, 0x2008, 0x2009, 0x200A, 0x2028, 0x2029, 0x202F, 0x205F, 0x3000]

theorem mem_delimiterCodes {c : Char} (h : WordPattern.isDelimiter c = true) : c.toNat ∈ delimiterCodes := by
  simp only [WordPattern.isDelimiter, Bool.or_eq_true, beq_iff_eq] at h
  rcases h with (h | rfl) | rfl
  · simp only [isBlank, Bool.or_eq_true, Bool.and_eq_true, decide_eq_true_eq, beq_iff_eq] at h
    simp only [delimiterCodes, List.mem_cons, List.not_mem_nil, or_false]
    omega
  · decide
  · decide

/-- A code point is mapped to itself or over the distance of a run that it lies in. -/
theorem mapByRuns_eq (n : Nat) (runs : List LetterRun) : mapByRuns n runs = n ∨
    ∃ r ∈ runs, r.1 ≤ n ∧ n ≤ r.2.1 ∧ mapByRuns n runs = ((n : Int) + r.2.2.2).toNat := by
  induction runs with
  | nil => exact .inl rfl
  | cons r runs ih =>
    obtain ⟨first, last, step, distance⟩ := r
    rw [mapByRuns]
    split
    · rename_i hin
      simp only [Bool.and_eq_true, decide_eq_true_eq] at hin
      exact .inr ⟨_, List.mem_cons_self, hin.1.1, hin.1.2, rfl⟩
    · rcases ih with heq | ⟨r, hr, hin⟩
      · exact .inl heq
      · exact .inr ⟨r, List.mem_cons_of_mem _ hr, hin⟩

/-- No letter is mapped to a delimiter. -/
theorem mapByRuns_notMem {n : Nat} {runs : List LetterRun} (hruns : runs = capitalRuns ∨ runs = foldedRuns)
    (h : mapByRuns n runs ∈ delimiterCodes) : mapByRuns n runs = n := by
  have hall : ∀ r ∈ capitalRuns ++ foldedRuns, ∀ d ∈ delimiterCodes,
      ¬((r.1 : Int) + r.2.2.2 ≤ d ∧ (d : Int) ≤ r.2.1 + r.2.2.2) := by
    decide +kernel
  have hpos : ∀ d ∈ delimiterCodes, 0 < d := by decide
  rcases mapByRuns_eq n runs with heq | ⟨r, hr, hfirst, hlast, heq⟩
  · exact heq
  · have hmem : r ∈ capitalRuns ++ foldedRuns := by
      rcases hruns with rfl | rfl
      · exact List.mem_append_left _ hr
      · exact List.mem_append_right _ hr
    rw [heq] at h
    have hd := hpos _ h
    refine absurd ?_ (hall r hmem _ h)
    omega

/-- Only delimiters are delimiters up to case. -/
theorem isDelimiter_of_foldCase {c : Char} (h : WordPattern.isDelimiter (foldCase c) = true) :
    WordPattern.isDelimiter c = true := by
  have hascii : ∀ n < 128, WordPattern.isDelimiter (lowerAscii (Char.ofNat n)) = true →
      WordPattern.isDelimiter (Char.ofNat n) = true := by
    decide +kernel
  have hmapped : ∀ m, (m ∈ delimiterCodes → m = c.toNat) → WordPattern.isDelimiter (Char.ofNat m) = true →
      WordPattern.isDelimiter c = true := by
    intro m hm hdelimiter
    by_cases hvalid : m.isValidChar
    · have hcode := mem_delimiterCodes hdelimiter
      have htoNat : (Char.ofNat m).toNat = m := by
        rw [Char.ofNat, dif_pos hvalid]
        rfl
      rw [htoNat] at hcode
      rwa [hm hcode, Char.ofNat_toNat] at hdelimiter
    · rw [Char.ofNat, dif_neg hvalid] at hdelimiter
      exact absurd hdelimiter (by decide)
  unfold foldCase at h
  split at h
  · rename_i hlt
    have hc := hascii c.toNat hlt
    rw [Char.ofNat_toNat] at hc
    exact hc h
  · split at h
    · exact h
    · dsimp only at h
      split at h
      · exact hmapped _ (mapByRuns_notMem (.inl rfl)) h
      · exact hmapped _ (mapByRuns_notMem (.inr rfl)) h

/-! ## Runs -/

namespace WordPattern

variable {name planned run t t' w : Text} {c : Char} {start : Bool} {last : Option Char}

/-- No character is a delimiter. -/
def IsRun (t : Text) : Prop := ∀ c ∈ t, isDelimiter c = false

instance (t : Text) : Decidable (IsRun t) := inferInstanceAs (Decidable (∀ c ∈ t, _))

/-- The longest runs of characters that are no delimiters, and the delimiters between them, one by one. -/
def runs (t : Text) : List Text := t.splitBy fun a b => !isDelimiter a && !isDelimiter b

/-- A run with the prefix before it if it is the word, up to case. -/
def prefixRun (name planned run : Text) : Text :=
  if Text.dropStartFolded? name run = some [] then planned ++ run else run

/-- A value with the prefix before every run that is the word. -/
def prefixRuns (name planned value : Text) : Text := (runs value).flatMap (prefixRun name planned)

theorem IsRun.avoids (hname : IsRun name) : name.Avoids isDelimiter := by
  intro c hc d hd heq
  rw [foldCase_of_isDelimiter hd] at heq
  have hdelimiter := isDelimiter_of_foldCase (heq ▸ hd)
  rw [hname c hc] at hdelimiter
  cases hdelimiter

theorem IsRun.append (hrun : IsRun run) (ht : IsRun t) : IsRun (run ++ t) := fun c hc =>
  (List.mem_append.1 hc).elim (hrun c) (ht c)

theorem isRun_nil : IsRun [] := fun _ hc => absurd hc List.not_mem_nil

theorem isRun_singleton (hc : isDelimiter c = false) : IsRun [c] := fun d hd => by
  rwa [List.mem_singleton.1 hd]

/-- A word that a text goes on after is a word alone. -/
theorem dropStartFolded?_append : Text.dropStartFolded? name (w ++ t) = some t ↔
    Text.dropStartFolded? name w = some [] := by
  induction name generalizing w with
  | nil => simp [Text.dropStartFolded?]
  | cons n name ih =>
    cases w with
    | nil =>
      refine ⟨fun h => ?_, fun h => by cases h⟩
      have hlength := Text.length_of_dropStartFolded? h
      rw [List.nil_append, List.length_cons] at hlength
      omega
    | cons c w =>
      rw [List.cons_append, Text.dropStartFolded?, Text.dropStartFolded?]
      split
      · exact ih
      · exact iff_of_false (Option.some_ne_none t).symm (Option.some_ne_none []).symm

theorem prefixRun_of_eq (h : Text.dropStartFolded? name run = some []) : prefixRun name planned run = planned ++ run :=
  if_pos h

theorem prefixRun_of_ne (h : Text.dropStartFolded? name run ≠ some []) : prefixRun name planned run = run := if_neg h

theorem prefixRun_nil (hname : name ≠ []) : prefixRun name planned [] = [] := by
  cases name with
  | nil => exact absurd rfl hname
  | cons n name => exact prefixRun_of_ne nofun

/-- A delimiter is no word. -/
theorem prefixRun_delimiter (hname : IsRun name) (hc : isDelimiter c = true) : prefixRun name planned [c] = [c] := by
  refine prefixRun_of_ne fun h => ?_
  have hrun := hname.avoids.of_dropStartFolded? (s := [c]) (t := []) h c List.mem_cons_self
  rw [hc] at hrun
  cases hrun

/-- A word with its prefix is no word. -/
theorem prefixRun_prefixed (hplanned : planned ≠ []) (hw : Text.dropStartFolded? name w = some []) :
    prefixRun name planned (planned ++ w) = planned ++ w := by
  refine prefixRun_of_ne fun h => hplanned (List.eq_nil_of_length_eq_zero ?_)
  have hlong := Text.length_of_dropStartFolded? h
  have hshort := Text.length_of_dropStartFolded? hw
  rw [List.length_append] at hlong
  omega

theorem prefixRuns_of_isRun (hname : name ≠ []) (hrun : IsRun run) :
    prefixRuns name planned run = prefixRun name planned run := by
  by_cases hnil : run = []
  · rw [hnil, prefixRun_nil hname]
    rfl
  · have hpairs : run.Pairwise fun a b => (!isDelimiter a && !isDelimiter b) = true :=
      List.pairwise_of_forall_mem_list fun a ha b hb => by rw [hrun a ha, hrun b hb]; rfl
    rw [prefixRuns, runs, List.splitBy_of_isChain hnil hpairs.isChain, List.flatMap_singleton]

/-- A run ends before a delimiter, and another one starts after it. -/
theorem prefixRuns_append_cons (hname : name ≠ []) (hname' : IsRun name) (hrun : IsRun run)
    (hc : isDelimiter c = true) (t : Text) : prefixRuns name planned (run ++ c :: t) =
      prefixRun name planned run ++ c :: prefixRuns name planned t := by
  have hrest : runs (c :: t) = [c] :: runs t := by
    have happend := List.splitBy_append (r := fun a b => !isDelimiter a && !isDelimiter b) (l := [c]) (m := t)
      fun x hx y _ => by
        obtain rfl : c = x := Option.some.inj hx
        rw [hc]
        rfl
    exact happend
  have hcut : runs (run ++ c :: t) = runs run ++ runs (c :: t) :=
    List.splitBy_append_cons t fun x _ => by rw [hc, Bool.not_true, Bool.and_false]
  have hfirst : prefixRuns name planned run = prefixRun name planned run := prefixRuns_of_isRun hname hrun
  rw [prefixRuns] at hfirst
  rw [prefixRuns, hcut, List.flatMap_append, hfirst, hrest, List.flatMap_cons, prefixRun_delimiter hname' hc]
  rfl

/-- Before the end or a delimiter a run is complete. -/
theorem prefixRuns_append (hname : name ≠ []) (hname' : IsRun name) (hrun : IsRun run)
    (hend : (word name).EndsBefore t) :
    prefixRuns name planned (run ++ t) = prefixRun name planned run ++ prefixRuns name planned t := by
  cases t with
  | nil =>
    rw [List.append_nil, prefixRuns_of_isRun hname hrun]
    exact (List.append_nil _).symm
  | cons c t =>
    have hc : isDelimiter c = true := hend c rfl
    have hnil : prefixRuns name planned ([] ++ c :: t) = prefixRun name planned [] ++ c :: prefixRuns name planned t :=
      prefixRuns_append_cons hname hname' isRun_nil hc t
    rw [prefixRun_nil hname] at hnil
    rw [prefixRuns_append_cons hname hname' hrun hc, ← List.nil_append (c :: t), hnil]
    rfl

/-! ## Steps -/

/-- What ends a word before a step ends it after the step. -/
theorem Respelled.endsBefore {p : WordPattern} {new : Text → Text} (h : p.Respelled new false t t')
    (hend : p.EndsBefore t) : p.EndsBefore t' := by
  cases h with
  | nil => exact hend
  | copy h => exact hend

/-- A step changes no run with its prefix. -/
theorem Respelled.prefixRuns_eq (h : (WordPattern.word name).Respelled (planned ++ ·) start t t') (hname : name ≠ [])
    (hname' : IsRun name) (hplanned : planned ≠ []) (hplanned' : IsRun planned) (hrun : IsRun run)
    (hstart : start = true → run = []) :
    prefixRuns name planned (run ++ t') = prefixRuns name planned (run ++ t) := by
  -- the run so far is the same in both texts; a word may only start where it is empty
  induction h generalizing run with
  | nil => rfl
  | @copy start c t t' _ ih =>
    cases hc : isDelimiter c with
    | true =>
      have hrest : prefixRuns name planned ([] ++ t') = prefixRuns name planned ([] ++ t) := ih nofun fun _ => rfl
      rw [prefixRuns_append_cons hname hname' hrun hc, prefixRuns_append_cons hname hname' hrun hc]
      exact congrArg (prefixRun name planned run ++ c :: ·) hrest
    | false =>
      have hrest := ih (hrun.append (isRun_singleton hc)) (by rw [hc]; nofun)
      rwa [List.append_assoc, List.append_assoc] at hrest
  | @word w t t' hw hend h ih =>
    have hwrun : IsRun w := hname'.avoids.of_dropStartFolded? hw
    have hword : Text.dropStartFolded? name w = some [] := dropStartFolded?_append.1 hw
    have hrest : prefixRuns name planned ([] ++ t') = prefixRuns name planned ([] ++ t) := ih nofun fun _ => rfl
    rw [List.nil_append, List.nil_append] at hrest
    rw [hstart rfl, List.nil_append, List.nil_append, prefixRuns_append hname hname' hwrun hend,
      prefixRuns_append hname hname' (hplanned'.append hwrun) (h.endsBefore hend), prefixRun_of_eq hword,
      prefixRun_prefixed hplanned hword, hrest]

/-- A step leaves the text as it is or makes it longer. -/
theorem Respelled.length_lt {p : WordPattern} (h : p.Respelled (planned ++ ·) start t t') (hplanned : planned ≠ []) :
    t' = t ∨ t.length < t'.length := by
  induction h with
  | nil => exact .inl rfl
  | copy _ ih =>
    rcases ih with rfl | hlt
    · exact .inl rfl
    · exact .inr (Nat.succ_lt_succ hlt)
  | @word w t t' _ _ _ ih =>
    have hpos := List.length_pos_iff.2 hplanned
    refine .inr ?_
    rw [List.length_append, List.length_append, List.length_append]
    rcases ih with rfl | hlt
    · omega
    · omega

theorem flatten_runs (t : Text) : (runs t).flatten = t := List.flatten_splitBy _ t

/-- Prefixes only add to a text. -/
theorem length_le_prefixRuns (name planned t : Text) : t.length ≤ (prefixRuns name planned t).length := by
  have hall : ∀ rs : List Text, rs.flatten.length ≤ (rs.flatMap (prefixRun name planned)).length := by
    intro rs
    induction rs with
    | nil => exact Nat.le_refl _
    | cons run rs ih =>
      have hrun : run.length ≤ (prefixRun name planned run).length := by
        unfold prefixRun
        split
        · rw [List.length_append]
          omega
        · exact Nat.le_refl _
      rw [List.flatten_cons, List.flatMap_cons, List.length_append, List.length_append]
      omega
  have h := hall (runs t)
  rwa [flatten_runs] at h

/-! ## Where the steps end -/

/-- Where no place is after a delimiter no word stands there. -/
theorem isHere_of_place?_eq_none {p : WordPattern} (hc : isDelimiter c = true) (h : p.place? last (c :: t) = none) :
    p.isHere t = false := by
  rw [← Bool.not_eq_true]
  intro hhere
  have hsome : (p.here? [c] t).isSome = true := isSome_here?_iff.2 (isSome_here?_iff.1 hhere)
  unfold place? at h
  dsimp only at h
  split at h
  · cases h
  · rename_i heq
    obtain ⟨rfl, rfl⟩ := List.cons.inj heq
    rw [if_pos hc] at h
    rw [h] at hsome
    cases hsome
  · rename_i heq
    cases heq

/-- A word that is found makes the text longer. -/
theorem length_lt_substituteFrom {p : WordPattern} {template : Text} (hname : p.name ≠ []) (hplanned : planned ≠ [])
    (htemplate : ∀ w : WordPlace, Template.expand w.parts template = w.lead ++ (planned ++ w.written) ++ w.closer)
    (h : p.matchesAfter last t = true) :
    t.length < (Text.substituteFrom (p.replacement? template) last 0 t).length := by
  have hrespelled : ∀ t last start, (last = none → start = true) → p.Respelled (planned ++ ·) start t
      (Text.substituteFrom (p.replacement? template) last 0 t) := p.respelled_substituteFrom hname htemplate
  induction t generalizing last with
  | nil =>
    rw [matchesAfter] at h
    obtain ⟨w, hw⟩ := Option.isSome_iff_exists.1 h
    obtain ⟨rest, htext, hdrop, -⟩ := place?_eq_some hw
    have hnil := List.append_eq_nil_iff.1 (List.append_eq_nil_iff.1 htext.symm).2
    rw [hnil.1, hnil.2] at hdrop
    exact absurd (List.eq_nil_of_length_eq_zero (Text.length_of_dropStartFolded? hdrop).symm) hname
  | cons c t ih =>
    rw [matchesAfter] at h
    cases hplace : p.place? last (c :: t) with
    | none =>
      rw [hplace] at h
      rw [Text.substituteFrom, replacement?_of_none hplace]
      exact Nat.succ_lt_succ (ih h)
    | some w =>
      obtain ⟨rest, htext, hdrop, -⟩ := place?_eq_some hplace
      have hcut : c :: t = w.text ++ rest := by
        rw [htext, WordPlace.text, List.append_assoc, List.append_assoc]
      have hne : w.text ≠ [] := place_ne_nil hname hdrop
      have hrest := (hrespelled rest w.text.getLast? true fun _ => rfl).length_lt hplanned
      rw [hcut] at hplace ⊢
      rw [Text.substituteFrom_place hne (replacement?_of_place? hplace), htemplate]
      have hpos := List.length_pos_iff.2 hplanned
      have hle : rest.length ≤ (Text.substituteFrom (p.replacement? template) w.text.getLast? 0 rest).length := by
        rcases hrest with heq | hlt
        · rw [heq]
        · exact Nat.le_of_lt hlt
      have hlength : w.text.length = w.lead.length + w.written.length + w.closer.length := by
        rw [WordPlace.text, List.length_append, List.length_append]
      simp only [List.length_append]
      omega

/-- A text in which no word is found has no run to prefix. -/
theorem prefixRuns_eq_self (hname : name ≠ []) (hname' : IsRun name) (hrun : IsRun run)
    (hhere : (word name).isHere (run ++ t) = false) (h : (word name).matchesAfter last t = false) :
    prefixRuns name planned (run ++ t) = run ++ t := by
  -- the run so far, and where it starts no word stands
  have hrest : ∀ run t : Text, (word name).EndsBefore t → (word name).isHere (run ++ t) = false →
      prefixRun name planned run = run := by
    intro run t hend hhere
    refine prefixRun_of_ne fun hword => ?_
    have hsome : (word name).isHere (run ++ t) = true :=
      isSome_here?_iff.2 ⟨t, dropStartFolded?_append.2 hword, hend⟩
    exact Bool.false_ne_true (hhere.symm.trans hsome)
  induction t generalizing run last with
  | nil =>
    have hend : (word name).EndsBefore [] := fun _ hd => nomatch hd
    rw [prefixRuns_append hname hname' hrun hend, hrest run [] hend hhere]
    rfl
  | cons c t ih =>
    rw [matchesAfter, Bool.or_eq_false_iff] at h
    obtain ⟨hplace, hmore⟩ := h
    cases hc : isDelimiter c with
    | true =>
      have hnext : (word name).isHere t = false :=
        isHere_of_place?_eq_none hc (Option.not_isSome_iff_eq_none.1 (Bool.not_eq_true _ ▸ hplace))
      have hafter : prefixRuns name planned ([] ++ t) = [] ++ t := ih nofun hnext hmore
      have hend : (word name).EndsBefore (c :: t) := fun d hd => by
        obtain rfl : c = d := Option.some.inj hd
        exact hc
      rw [prefixRuns_append_cons hname hname' hrun hc, hrest run (c :: t) hend hhere]
      exact congrArg (run ++ c :: ·) hafter
    | false =>
      have happend : run ++ c :: t = run ++ [c] ++ t := by simp
      rw [happend] at hhere ⊢
      exact ih (hrun.append (isRun_singleton hc)) hhere hmore

/-- At the start of a text the word is looked for without a delimiter. -/
theorem isHere_of_matchesAfter_none {p : WordPattern} (h : p.matchesAfter none t = false) : p.isHere t = false := by
  have hplace : p.place? none t = none := by
    cases t with
    | nil => exact Option.not_isSome_iff_eq_none.1 (Bool.not_eq_true _ ▸ h)
    | cons c t =>
      rw [matchesAfter, Bool.or_eq_false_iff] at h
      exact Option.not_isSome_iff_eq_none.1 (Bool.not_eq_true _ ▸ h.1)
  unfold place? at hplace
  rw [Option.isNone_none, if_pos rfl] at hplace
  rw [isHere]
  cases hhere : p.here? [] t with
  | none => rfl
  | some w =>
    rw [hhere] at hplace
    cases hplace

end WordPattern

/-! ## Vendors without notes -/

/-- A prefix that is put before a word as it is: no blank or other delimiter ends it, and no part of a place is quoted in
it. -/
structure Vendor.IsBare (planned : Text) : Prop where
  ne_nil : planned ≠ []
  isRun : WordPattern.IsRun planned
  notMem_dollar : '$' ∉ planned

/-- A word between hyphens is such a prefix. -/
theorem Vendor.IsVendor.isBare {planned : Text} (h : Vendor.IsVendor planned) : Vendor.IsBare planned := by
  obtain ⟨word, hne, hword, rfl⟩ := h
  have hascii : ∀ n < 128, isAsciiWordChar (Char.ofNat n) = true →
      WordPattern.isDelimiter (Char.ofNat n) = false ∧ Char.ofNat n ≠ '$' := by
    decide +kernel
  have hchar : ∀ c ∈ '-' :: word ++ ['-'], WordPattern.isDelimiter c = false ∧ c ≠ '$' := by
    intro c hc
    rcases List.mem_append.1 hc with hc | hc
    · rcases List.mem_cons.1 hc with rfl | hc
      · decide
      · have hlt : c.toNat < 128 := by
          have hascii := hword c hc
          simp only [isAsciiWordChar, isAsciiLetter, isAsciiDigit, Bool.or_eq_true, Bool.and_eq_true,
            decide_eq_true_eq, beq_iff_eq, Char.le_def, UInt32.le_iff_toNat_le] at hascii
          rcases hascii with ((⟨-, h⟩ | ⟨-, h⟩) | ⟨-, h⟩) | rfl
          · exact Nat.lt_of_le_of_lt h (by decide)
          · exact Nat.lt_of_le_of_lt h (by decide)
          · exact Nat.lt_of_le_of_lt h (by decide)
          · decide
        have hc' := hascii c.toNat hlt
        rw [Char.ofNat_toNat] at hc'
        exact hc' (hword c hc)
    · rw [List.mem_singleton.1 hc]
      decide
  exact ⟨List.cons_ne_nil _ _, fun c hc => (hchar c hc).1, fun hc => (hchar _ hc).2 rfl⟩

namespace ValueDialect

variable {name planned value : Text} {result : Option Text}

theorem expand_plainTemplate (hplanned : Vendor.IsBare planned) (w : WordPlace) :
    Template.expand w.parts (placeTemplate none planned) = w.lead ++ (planned ++ w.written) ++ w.closer := by
  have hown : ∀ name ∈ (none : Option Text), '$' ∉ name := nofun
  exact expand_placeTemplate hplanned.notMem_dollar hown w

/-- A step of a word without names of its own. -/
theorem respelled_plain (hname : name ≠ []) (hplanned : Vendor.IsBare planned) (value : Text) :
    (WordPattern.word name).Respelled (planned ++ ·) true value (respell (.word name) none planned value) :=
  WordPattern.respelled_substitute hname (expand_plainTemplate hplanned) value

/-- A text that a step leaves as it is has all its prefixes. -/
theorem prefixRuns_of_respell_eq (hname : name ≠ []) (hname' : WordPattern.IsRun name) (hplanned : Vendor.IsBare planned)
    (h : respell (.word name) none planned value = value) : WordPattern.prefixRuns name planned value = value := by
  cases hin : (WordPattern.word name).matchesAfter none value with
  | true =>
    have hlt := WordPattern.length_lt_substituteFrom (p := .word name) hname hplanned.ne_nil
      (expand_plainTemplate hplanned) hin
    have heq : Text.substituteFrom ((WordPattern.word name).replacement? (placeTemplate none planned)) none 0 value =
        value := h
    rw [heq] at hlt
    exact absurd hlt (Nat.lt_irrefl _)
  | false =>
    have hself : WordPattern.prefixRuns name planned ([] ++ value) = [] ++ value :=
      WordPattern.prefixRuns_eq_self hname hname' nofun (WordPattern.isHere_of_matchesAfter_none hin) hin
    exact hself

/-- The steps end where every run that is the word has its prefix. -/
theorem settles_prefixRuns (hname : name ≠ []) (hname' : WordPattern.IsRun name) (hplanned : Vendor.IsBare planned)
    (value : Text) : plain.Settles name planned value (some (WordPattern.prefixRuns name planned value)) := by
  have hstep : ∀ v, plain.step? name planned v = some (respell (.word name) none planned v) := fun _ => rfl
  have hkept : ∀ v, WordPattern.prefixRuns name planned (respell (.word name) none planned v) =
      WordPattern.prefixRuns name planned v := by
    intro v
    have hstart : WordPattern.prefixRuns name planned ([] ++ respell (.word name) none planned v) =
        WordPattern.prefixRuns name planned ([] ++ v) :=
      (respelled_plain hname hplanned v).prefixRuns_eq hname hname' hplanned.ne_nil hplanned.isRun nofun fun _ => rfl
    exact hstart
  -- what is still to be added gets less
  have hlowers : ∀ v next, plain.step? name planned v = some next → next = v ∨
      (WordPattern.prefixRuns name planned next).length - next.length <
        (WordPattern.prefixRuns name planned v).length - v.length := by
    intro v next hnext
    obtain rfl := Option.some.inj ((hstep v).symm.trans hnext)
    refine ((respelled_plain hname hplanned v).length_lt hplanned.ne_nil).imp_right fun hlt => ?_
    have hle := WordPattern.length_le_prefixRuns name planned (respell (.word name) none planned v)
    rw [hkept v] at hle ⊢
    omega
  obtain ⟨result, hresult⟩ := exists_settles_of_lowers Nat.lt_wfRel.wf
    (fun v => (WordPattern.prefixRuns name planned v).length - v.length) hlowers value
  suffices heq : result = some (WordPattern.prefixRuns name planned value) by rwa [← heq]
  induction hresult with
  | givenUp h => cases h
  | fixed h => rw [prefixRuns_of_respell_eq hname hname' hplanned (Option.some.inj h)]
  | step h _ _ ih =>
    obtain rfl := Option.some.inj ((hstep _).symm.trans h)
    rw [ih, hkept]

end ValueDialect

/-! ## What is remembered -/

namespace Pass

variable {planned value : Text}

theorem spelledValues_recordValue (p : Pass) (decl : Nat) (planned value : Text) :
    (p.recordValue decl planned value).spelledValues decl = setValueFor planned value (p.spelledValues decl) := by
  simp [spelledValues, recordValue, Facts.get?]

/-- A value for a prefix that has none yet comes last. -/
theorem setValueFor_of_forall_ne {known : List (Text × Text)} (h : ∀ x ∈ known, x.1 ≠ planned) :
    setValueFor planned value known = known ++ [(planned, value)] := by
  induction known with
  | nil => rfl
  | cons x known ih =>
    rw [setValueFor, if_neg (h x List.mem_cons_self), ih fun y hy => h y (List.mem_cons_of_mem _ hy)]
    rfl

theorem find?_key_eq_none {known : List (Text × Text)} (h : ∀ x ∈ known, x.1 ≠ planned) :
    (known.find? fun (k, _) => k == planned) = none :=
  List.find?_eq_none.2 fun x hx => by simpa using h x hx

end Pass

namespace ValueVariants

/-- **A word is prefixed wherever it is a run.** For a feature without a dialect of its own, whose token is one run, and a
bare prefix that no value is remembered for, the steps end, and what is remembered is the value of the declaration with
the prefix once before each run that is the token up to case, and nothing else changed. -/
theorem spellFor_prefixRuns {v : ValueVariants} (hplain : v.dialect = .plain) (hname : v.token ≠ [])
    (hname' : WordPattern.IsRun v.token) {planned : Text} (hplanned : Vendor.IsBare planned) {p : Pass} {decl : Nat}
    {d : Declaration} (hd : p.sheet.declaration? decl = some d) (hnone : ∀ x ∈ p.spelledValues decl, x.1 ≠ planned) :
    v.dialect.Settles v.token planned d.value (some (WordPattern.prefixRuns v.token planned d.value)) ∧
      v.spellFor decl p planned = p.recordValue decl planned (WordPattern.prefixRuns v.token planned d.value) ∧
      (v.spellFor decl p planned).spelledValues decl =
        p.spelledValues decl ++ [(planned, WordPattern.prefixRuns v.token planned d.value)] := by
  have hsettles := ValueDialect.settles_prefixRuns hname hname' hplanned d.value
  have happlies : v.dialect.applies d.prop planned = true := by
    rw [hplain]
    rfl
  have hspelled : v.spellFor decl p planned =
      p.recordValue decl planned (WordPattern.prefixRuns v.token planned d.value) := by
    unfold spellFor
    rw [hd]
    dsimp only
    rw [if_pos happlies, hplain, Pass.find?_key_eq_none hnone, Option.map_none, Option.getD_none, hsettles.spell?_eq]
  refine ⟨by rwa [hplain], hspelled, ?_⟩
  rw [hspelled, Pass.spelledValues_recordValue, Pass.setValueFor_of_forall_ne hnone]

/-- The cursor `grab`, in a sheet with one declaration. -/
def grab : ValueVariants := { token := "grab", prefixes := ["-webkit-"], dialect := .plain, props := ["cursor"] }

def grabPass : Pass where
  rules := default
  sheet := Sheet.parse "a\x7bcursor:grab grab,Grab grabbing\x7d"

/-- The second word has the blank before it taken by the first one, and a longer word is another one. -/
theorem spellFor_prefixRuns_grab : (grab.spellFor 2 grabPass "-webkit-").spelledValues 2 =
    [(("-webkit-" : Text), ("-webkit-grab -webkit-grab,-webkit-Grab grabbing" : Text))] := by
  have hd : grabPass.sheet.declaration? 2 = some { prop := "cursor", value := "grab grab,Grab grabbing" } := by
    decide
  have hplanned : Vendor.IsBare "-webkit-" := Vendor.IsVendor.isBare ⟨"webkit", by decide, by decide, rfl⟩
  have hnone : ∀ x ∈ grabPass.spelledValues 2, x.1 ≠ ("-webkit-" : Text) := by decide
  have hruns : WordPattern.prefixRuns "grab" "-webkit-" "grab grab,Grab grabbing" =
      "-webkit-grab -webkit-grab,-webkit-Grab grabbing" := by
    decide +kernel
  have hspelled := (spellFor_prefixRuns (v := grab) rfl (by decide) (by decide +kernel) hplanned hd hnone).2.2
  rw [hspelled, show grab.token = "grab" from rfl, hruns]
  rfl

end ValueVariants

end VendorCss
