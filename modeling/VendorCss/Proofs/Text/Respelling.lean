import VendorCss.Dialect.Value

/-!
# Words spelled in another way

Replacing the places of a word by a template leaves everything between them as it is: the new text has the characters of
the old one, but for the words themselves (`WordPattern.respelled_substitute`). A word stands at the start of a text or
after a delimiter, and the template keeps the delimiters around it.
-/

namespace VendorCss

/-! ## Texts that are replaced -/

namespace Text

/-- The characters of a place that was replaced are skipped. -/
theorem substituteFrom_length (place : Option Char → Text → Option (Nat × Text)) (last : Option Char) (s t : Text) :
    substituteFrom place last s.length (s ++ t) = substituteFrom place (s.getLast?.or last) 0 t := by
  induction s generalizing last with
  | nil => rfl
  | cons c s ih =>
    rw [List.length_cons, List.cons_append, substituteFrom, ih]
    cases hs : s.getLast? with
    | none => rw [List.getLast?_eq_none_iff.1 hs]; rfl
    | some d => rw [List.getLast?_cons, hs]; rfl

/-- A place that is not empty is replaced. -/
theorem substituteFrom_place {place : Option Char → Text → Option (Nat × Text)} {last : Option Char} {s t new : Text}
    (hs : s ≠ []) (h : place last (s ++ t) = some (s.length, new)) :
    substituteFrom place last 0 (s ++ t) = new ++ substituteFrom place s.getLast? 0 t := by
  obtain ⟨c, s, rfl⟩ := List.exists_cons_of_ne_nil hs
  rw [List.cons_append, substituteFrom]
  rw [List.cons_append, List.length_cons] at h
  rw [h]
  dsimp only
  rw [substituteFrom_length]
  congr 2
  cases hs : s.getLast? with
  | none => rw [List.getLast?_eq_none_iff.1 hs]; rfl
  | some d => rw [List.getLast?_cons, hs]; rfl

/-- What follows a text up to case stands at its end. -/
theorem dropStartFolded?_eq_some {s t r : Text} (h : dropStartFolded? s t = some r) :
    t = t.take s.length ++ r := by
  induction s generalizing t with
  | nil => exact Option.some.inj h
  | cons c s ih =>
    cases t with
    | nil => cases h
    | cons d t =>
      rw [dropStartFolded?] at h
      split at h
      · rw [List.length_cons, List.take_succ_cons, List.cons_append, ← ih h]
      · cases h

theorem length_of_dropStartFolded? {s t r : Text} (h : dropStartFolded? s t = some r) :
    t.length = s.length + r.length := by
  induction s generalizing t with
  | nil => rw [Option.some.inj h, List.length_nil, Nat.zero_add]
  | cons c s ih =>
    cases t with
    | nil => cases h
    | cons d t =>
      rw [dropStartFolded?] at h
      split at h
      · rw [List.length_cons, List.length_cons, ih h]
        omega
      · cases h

end Text

/-! ## Templates of places -/

namespace Template

variable {parts : List Text}

theorem substituteFrom_referencePlace_last (parts : List Text) (last last' : Option Char) (skip : Nat) (t : Text) :
    Text.substituteFrom (referencePlace parts) last skip t = Text.substituteFrom (referencePlace parts) last' skip t := by
  cases t with
  | nil => cases skip <;> rfl
  | cons c t =>
    cases skip with
    | zero => rw [Text.substituteFrom, Text.substituteFrom]; rfl
    | succ skip => rw [Text.substituteFrom, Text.substituteFrom]

/-- A text without dollar signs before a template stands for itself. -/
theorem expand_append {s : Text} (h : '$' ∉ s) (t : Text) : expand parts (s ++ t) = s ++ expand parts t := by
  induction s with
  | nil => rfl
  | cons c s ih =>
    rw [List.mem_cons, not_or] at h
    rw [List.cons_append, expand, Text.substitute, Text.substituteFrom, referencePlace_eq_none (Ne.symm h.1)]
    dsimp only
    rw [substituteFrom_referencePlace_last parts _ none]
    exact congrArg (List.cons c) (ih h.2)

/-- A reference before a template stands for its part. -/
theorem expand_reference {n : Nat} (h : n < 4) (t : Text) :
    expand parts (reference n ++ t) = parts.getD n [] ++ expand parts t := by
  have hdigits : ∀ n < 4, (Nat.repr n).toList = [Nat.digitChar n] ∧ Nat.digitChar n ≠ '\x7d' ∧
      Decimal.nat64? [Nat.digitChar n] = some n := by decide
  obtain ⟨hc, hclose, hn⟩ := hdigits n h
  generalize Nat.digitChar n = c at hc hclose hn
  have hplace : referencePlace parts none ('$' :: '\x7b' :: c :: '\x7d' :: t) = some (4, parts.getD n []) := by
    simp [referencePlace, part, hn, hclose]
  rw [reference, hc]
  change Text.substituteFrom _ none 0 ('$' :: '\x7b' :: c :: '\x7d' :: t) = _
  rw [Text.substituteFrom, hplace]
  dsimp only
  exact congrArg _ (substituteFrom_referencePlace_last parts _ none 0 t)

end Template

namespace ValueDialect

/-- What is written for a word: a name of its own, or the prefix before the word. -/
def newWord (own : Option Text) (planned word : Text) : Text := own.getD (planned ++ word)

/-- The template of a place keeps the delimiters of the word. -/
theorem expand_placeTemplate {own : Option Text} {planned : Text} (hplanned : '$' ∉ planned)
    (hown : ∀ name ∈ own, '$' ∉ name) (w : WordPlace) :
    Template.expand w.parts (placeTemplate own planned) = w.lead ++ newWord own planned w.written ++ w.closer := by
  have hend : ∀ n < 4, Template.expand w.parts (Template.reference n) = w.parts.getD n [] := by
    intro n hn
    have h : Template.expand w.parts (Template.reference n ++ []) = _ := Template.expand_reference hn []
    rwa [List.append_nil, Template.expand_eq_self _ List.not_mem_nil, List.append_nil] at h
  cases own with
  | none =>
    have htemplate : placeTemplate none planned = Template.reference 1 ++ (planned ++ Template.reference 2) := rfl
    rw [htemplate, Template.expand_reference (by decide), Template.expand_append hplanned, hend 2 (by decide), newWord,
      Option.getD_none, List.append_assoc, List.append_assoc]
    rfl
  | some name =>
    have htemplate : placeTemplate (some name) planned = Template.reference 1 ++ (name ++ Template.reference 3) := rfl
    rw [htemplate, Template.expand_reference (by decide), Template.expand_append (hown name rfl), hend 3 (by decide),
      newWord, Option.getD_some, List.append_assoc]
    rfl

end ValueDialect

/-! ## Words in place -/

namespace WordPattern

variable {p : WordPattern} {new : Text → Text} {start : Bool} {t t' : Text}

/-- A word may end before this text: before nothing, or before a closer. -/
def EndsBefore (p : WordPattern) (t : Text) : Prop := ∀ c ∈ t.head?, p.closes c = true

/-- The second text is the first one with some words replaced; `start` says that a word may start here. -/
inductive Respelled (p : WordPattern) (new : Text → Text) : (start : Bool) → Text → Text → Prop
  | nil {start : Bool} : Respelled p new start [] []
  | copy {start : Bool} {c : Char} {t t' : Text} (h : Respelled p new (isDelimiter c) t t') :
      Respelled p new start (c :: t) (c :: t')
  | word {w t t' : Text} (hw : Text.dropStartFolded? p.name (w ++ t) = some t) (hend : p.EndsBefore t)
      (h : Respelled p new false t t') : Respelled p new true (w ++ t) (new w ++ t')

/-- A word found at the start of a text, with its closer. -/
theorem here?_eq_some {lead : Text} {w : WordPlace} (h : p.here? lead t = some w) :
    w.lead = lead ∧ ∃ rest, t = w.written ++ (w.closer ++ rest) ∧
      Text.dropStartFolded? p.name t = some (w.closer ++ rest) ∧ p.EndsBefore (w.closer ++ rest) ∧
      (w.closer = [] ∨ ∃ c, w.closer = [c]) := by
  unfold here? at h
  split at h
  · rename_i hdrop
    cases h
    exact ⟨rfl, [], (List.append_nil t).symm, hdrop, (fun _ hc => nomatch hc), .inl rfl⟩
  · rename_i c rest hdrop
    split at h
    · rename_i hc
      cases h
      refine ⟨rfl, rest, Text.dropStartFolded?_eq_some hdrop, hdrop, ?_, .inr ⟨c, rfl⟩⟩
      intro d hd
      obtain rfl : c = d := Option.some.inj hd
      exact hc
    · cases h
  · cases h

/-- A word stands at the start of a text where its name does, with nothing or a closer after it. -/
theorem isSome_here?_iff {lead : Text} : (p.here? lead t).isSome = true ↔
    ∃ rest, Text.dropStartFolded? p.name t = some rest ∧ p.EndsBefore rest := by
  constructor
  · intro h
    obtain ⟨w, hw⟩ := Option.isSome_iff_exists.1 h
    obtain ⟨-, rest, -, hdrop, hend, -⟩ := here?_eq_some hw
    exact ⟨_, hdrop, hend⟩
  · rintro ⟨rest, hdrop, hend⟩
    cases rest with
    | nil => simp [here?, hdrop]
    | cons c rest => simp [here?, hdrop, hend c rfl]

/-- A place is a delimiter, or the start of the text, with a word after it. -/
theorem place?_eq_some {last : Option Char} {w : WordPlace} (h : p.place? last t = some w) :
    ∃ rest, t = w.lead ++ (w.written ++ (w.closer ++ rest)) ∧
      Text.dropStartFolded? p.name (w.written ++ (w.closer ++ rest)) = some (w.closer ++ rest) ∧
      p.EndsBefore (w.closer ++ rest) ∧ (w.lead = [] ∧ last = none ∨ ∃ c, w.lead = [c] ∧ isDelimiter c = true) ∧
      (w.closer = [] ∨ ∃ c, w.closer = [c]) := by
  unfold place? at h
  dsimp only at h
  split at h
  · rename_i w' hstart
    cases h
    split at hstart
    · rename_i hlast
      obtain ⟨hlead, rest, ht, hdrop, hend, hcloser⟩ := here?_eq_some hstart
      rw [ht] at hdrop
      exact ⟨rest, by rw [hlead, List.nil_append]; exact ht, hdrop, hend,
        .inl ⟨hlead, Option.isNone_iff_eq_none.1 hlast⟩, hcloser⟩
    · cases hstart
  · rename_i c rest _
    split at h
    · rename_i hc
      obtain ⟨hlead, rest', ht, hdrop, hend, hcloser⟩ := here?_eq_some h
      rw [ht] at hdrop
      exact ⟨rest', by rw [hlead, ht]; rfl, hdrop, hend, .inr ⟨c, hlead, hc⟩, hcloser⟩
    · cases h
  · cases h

/-- The place of a word, and what a template makes of its parts. -/
def replacement? (p : WordPattern) (template : Text) (last : Option Char) (t : Text) : Option (Nat × Text) :=
  (p.place? last t).map fun w => (w.text.length, Template.expand w.parts template)

theorem replacement?_of_place? {template : Text} {last : Option Char} {w : WordPlace} (h : p.place? last t = some w) :
    p.replacement? template last t = some (w.text.length, Template.expand w.parts template) := by
  rw [replacement?, h, Option.map_some]

theorem replacement?_of_none {template : Text} {last : Option Char} (h : p.place? last t = none) :
    p.replacement? template last t = none := by
  rw [replacement?, h, Option.map_none]

/-- The word of a place is not empty, and so the place is not. -/
theorem place_ne_nil {w : WordPlace} (hname : p.name ≠ [])
    (hdrop : Text.dropStartFolded? p.name (w.written ++ t) = some t) : w.text ≠ [] := by
  intro hnil
  have hlength := Text.length_of_dropStartFolded? hdrop
  rw [WordPlace.text, List.append_eq_nil_iff, List.append_eq_nil_iff] at hnil
  rw [hnil.1.2, List.nil_append] at hlength
  exact hname (List.eq_nil_of_length_eq_zero (by omega))

/-- A template that keeps the delimiters replaces words only. -/
theorem respelled_substituteFrom {template : Text} (hname : p.name ≠ [])
    (htemplate : ∀ w : WordPlace, Template.expand w.parts template = w.lead ++ new w.written ++ w.closer)
    (t : Text) (last : Option Char) (start : Bool) (hstart : last = none → start = true) :
    p.Respelled new start t (Text.substituteFrom (p.replacement? template) last 0 t) := by
  induction hlength : t.length using Nat.strongRecOn generalizing t last start with
  | ind n ih =>
    subst hlength
    cases hplace : p.place? last t with
    | none =>
      have hnone : p.replacement? template last t = none := replacement?_of_none hplace
      cases t with
      | nil =>
        rw [Text.substituteFrom, hnone]
        exact .nil
      | cons c t =>
        rw [Text.substituteFrom, hnone]
        exact .copy (ih t.length (Nat.lt_succ_self _) t (some c) _ (fun h => absurd h (Option.some_ne_none c)) rfl)
    | some w =>
      obtain ⟨rest, rfl, hdrop, hend, hlead, hcloser⟩ := place?_eq_some hplace
      have hne : w.text ≠ [] := place_ne_nil hname hdrop
      have htext : w.lead ++ (w.written ++ (w.closer ++ rest)) = w.text ++ rest := by
        rw [WordPlace.text, List.append_assoc, List.append_assoc]
      rw [htext] at hplace ih ⊢
      have hrest : ∀ start, p.Respelled new start rest
          (Text.substituteFrom (p.replacement? template) w.text.getLast? 0 rest) := by
        refine fun start => ih rest.length ?_ rest _ start (fun hnone => absurd (List.getLast?_eq_none_iff.1 hnone) hne) rfl
        rw [List.length_append]
        exact Nat.lt_add_of_pos_left (List.length_pos_iff.2 hne)
      rw [Text.substituteFrom_place hne (replacement?_of_place? hplace), htemplate, ← htext, List.append_assoc,
        List.append_assoc]
      -- the word and its closer
      have hword : p.Respelled new true (w.written ++ (w.closer ++ rest)) (new w.written ++
          (w.closer ++ Text.substituteFrom (p.replacement? template) w.text.getLast? 0 rest)) := by
        refine .word hdrop hend ?_
        rcases hcloser with hcloser | ⟨c, hcloser⟩ <;> rw [hcloser]
        · exact hrest false
        · exact .copy (hrest _)
      rcases hlead with ⟨hlead, hlast⟩ | ⟨c, hlead, hc⟩ <;> rw [hlead]
      · rw [hstart hlast]
        exact hword
      · rw [← hc] at hword
        exact .copy hword

theorem respelled_substitute {template : Text} (hname : p.name ≠ [])
    (htemplate : ∀ w : WordPlace, Template.expand w.parts template = w.lead ++ new w.written ++ w.closer)
    (value : Text) : p.Respelled new true value (p.substitute template value) :=
  respelled_substituteFrom hname htemplate value none true fun _ => rfl

/-- A character of the text stays, where the new words have those of the old ones. -/
theorem Respelled.subset (h : p.Respelled new start t t') (hnew : ∀ w, w ⊆ new w) : t ⊆ t' := by
  induction h with
  | nil => exact List.Subset.refl _
  | copy _ ih => exact List.cons_subset_cons _ ih
  | word _ _ _ ih => exact List.append_subset.2 ⟨List.Subset.trans (hnew _) (List.subset_append_left _ _),
      List.Subset.trans ih (List.subset_append_right _ _)⟩

end WordPattern

end VendorCss
