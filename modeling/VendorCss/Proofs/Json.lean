import Mathlib.Tactic.SplitIfs
import VendorCss.Json.Reader

/-!
# Reading what was printed

The reader reads the compact form of a value as that value (`Json.parse_compact`), so two values with one compact form
are one (`Json.compact_injective`). Numbers and strings without a text stay out: both are printed as whatever they hold.

A string is read back character by character (`stringBody_escapeChar`). Values, elements and members are read back by
one induction on how they are nested (`valueWithin_compact`); twice the length of what is printed is enough fuel.
-/

namespace VendorCss.Json

/-! ## Strings -/

theorem hex4_hexDigit : ∀ n < 0x20, hex4? '0' '0' (hexDigit (n / 16)) (hexDigit (n % 16)) = some n := by
  decide

/-- A small unit is a character of its own. -/
theorem unitChar_of_lt {unit : Nat} (h : unit < 0x20) (t : Text) : unitChar? unit t = (some (Char.ofNat unit), t) := by
  have hleading : isLeading unit = false := by
    simp only [isLeading, Bool.and_eq_false_iff, decide_eq_false_iff_not]
    omega
  have htrailing : isTrailing unit = false := by
    simp only [isTrailing, Bool.and_eq_false_iff, decide_eq_false_iff_not]
    omega
  simp [unitChar?, hleading, htrailing]

/-- An escape of one letter is read as the character that it stands for. -/
theorem stringBody_shortEscape {e c : Char} (h : shortEscape? e = some c) (fuel : Nat) (t : Text) :
    stringBody (fuel + 1) ('\\' :: e :: t) =
      (stringBody fuel t).map fun (s, rest) => (consText (some c) s, rest) := by
  have hu : e ≠ 'u' := by
    rintro rfl
    cases h
  rw [stringBody.eq_def]
  cases hrest : stringBody fuel t <;> simp [hu, h, hrest]

/-- A control character is read from the number that it is written as. -/
theorem stringBody_control {c : Char} (h : c.toNat < 0x20) (fuel : Nat) (t : Text) :
    stringBody (fuel + 1) ("\\u00".toList ++ [hexDigit (c.toNat / 16), hexDigit (c.toNat % 16)] ++ t) =
      (stringBody fuel t).map fun (s, rest) => (consText (some c) s, rest) := by
  have hread := unitChar_of_lt h t
  rw [Char.ofNat_toNat] at hread
  show stringBody (fuel + 1)
    ('\\' :: 'u' :: '0' :: '0' :: hexDigit (c.toNat / 16) :: hexDigit (c.toNat % 16) :: t) = _
  rw [stringBody, hex4_hexDigit _ h]
  cases hrest : stringBody fuel t <;> simp [hread, hrest]

/-- Each character of a string is read from how it is written. -/
theorem stringBody_escapeChar (c : Char) (fuel : Nat) (t : Text) :
    stringBody (fuel + 1) (escapeChar c ++ t) =
      (stringBody fuel t).map fun (s, rest) => (consText (some c) s, rest) := by
  unfold escapeChar
  split
  · subst c; exact stringBody_shortEscape rfl fuel t
  split
  · subst c; exact stringBody_shortEscape rfl fuel t
  split
  · subst c; exact stringBody_shortEscape rfl fuel t
  split
  · subst c; exact stringBody_shortEscape rfl fuel t
  split
  · subst c; exact stringBody_shortEscape rfl fuel t
  split
  · subst c; exact stringBody_shortEscape rfl fuel t
  split
  · subst c; exact stringBody_shortEscape rfl fuel t
  split
  · rename_i hcontrol
    exact stringBody_control hcontrol fuel t
  · rename_i _ hbackslash _ _ _ _ _ hcontrol
    rw [List.singleton_append, stringBody.eq_def]
    cases hrest : stringBody fuel t <;> simp [hbackslash, hcontrol, hrest]

/-- The text of a string is read up to its closing quote. -/
theorem stringBody_quoted (t rest : Text) {fuel : Nat} (h : t.length < fuel) :
    stringBody fuel (t.flatMap escapeChar ++ '"' :: rest) = some (some t, rest) := by
  induction t generalizing fuel with
  | nil =>
    obtain ⟨fuel, rfl⟩ : ∃ n, fuel = n + 1 := ⟨fuel - 1, by simp at h; omega⟩
    rfl
  | cons c t ih =>
    obtain ⟨fuel, rfl⟩ : ∃ n, fuel = n + 1 := ⟨fuel - 1, by simp at h; omega⟩
    rw [List.flatMap_cons, List.append_assoc, stringBody_escapeChar, ih (by simpa using h)]
    rfl

theorem escapeChar_ne_nil (c : Char) : escapeChar c ≠ [] := by
  unfold escapeChar
  split_ifs <;> simp

theorem length_le_flatMap_escapeChar (t : Text) : t.length ≤ (t.flatMap escapeChar).length := by
  induction t with
  | nil => simp
  | cons c t ih =>
    have := List.length_pos_iff.2 (escapeChar_ne_nil c)
    simp only [List.flatMap_cons, List.length_append, List.length_cons]
    omega

/-- The fuel of a string, the length of what is left of the text, is enough. -/
theorem stringBody_flatMap (t rest : Text) :
    stringBody ((t.flatMap escapeChar ++ '"' :: rest).length + 1) (t.flatMap escapeChar ++ '"' :: rest) =
      some (some t, rest) := by
  refine stringBody_quoted t rest ?_
  have := length_le_flatMap_escapeChar t
  rw [List.length_append]
  omega

theorem quote_append (t rest : Text) : quote t ++ rest = '"' :: (t.flatMap escapeChar ++ '"' :: rest) := by
  simp [quote]

/-! ## Values -/

/-- A value without numbers and without strings that have no text. -/
inductive IsPlain : Json → Prop
  | null : IsPlain null
  | bool (b : Bool) : IsPlain (bool b)
  | string (t : Text) : IsPlain (string t)
  | array {es : List Json} (h : ∀ j ∈ es, IsPlain j) : IsPlain (array es)
  | object {ms : List (Text × Json)} (h : ∀ m ∈ ms, IsPlain m.2) : IsPlain (object ms)

/-- What is printed for a plain value starts with a character that neither is white space nor closes anything. -/
theorem exists_compact_eq_cons {j : Json} (h : IsPlain j) :
    ∃ c t, j.compact = c :: t ∧ isJsonSpace c = false ∧ c ≠ ']' ∧ c ≠ '\x7d' := by
  cases h with
  | null => exact ⟨_, _, rfl, by decide⟩
  | bool b => cases b <;> exact ⟨_, _, rfl, by decide⟩
  | string t => exact ⟨_, _, rfl, by decide⟩
  | array h => exact ⟨_, _, rfl, by decide⟩
  | object h => exact ⟨_, _, rfl, by decide⟩

theorem skipSpace_cons {c : Char} (h : isJsonSpace c = false) (t : Text) : skipSpace (c :: t) = c :: t := by
  rw [skipSpace, List.dropWhile_cons_of_neg (by simp [h])]

theorem IsPlain.of_mem_array {es : List Json} (h : IsPlain (.array es)) : ∀ j ∈ es, IsPlain j := by
  cases h with | array h => exact h

theorem IsPlain.of_mem_object {ms : List (Text × Json)} (h : IsPlain (.object ms)) : ∀ m ∈ ms, IsPlain m.2 := by
  cases h with | object h => exact h

/-- What is printed for a plain value takes some room. -/
theorem length_compact_pos {j : Json} (h : IsPlain j) : 0 < j.compact.length := by
  obtain ⟨c, t, heq, -⟩ := exists_compact_eq_cons h
  simp [heq]

/-! ### One step of the reader -/

theorem valueWithin_array {es : List Json} {t rest : Text} {fuel : Nat} (hne : ∀ u, t ≠ ']' :: u)
    (hspace : skipSpace t = t) (h : elementsWithin fuel t = some (es, rest)) :
    valueWithin (fuel + 1) ('[' :: t) = some (array es, rest) := by
  rw [valueWithin, skipSpace_cons (by decide)]
  simp only [hspace]
  simp [h]

theorem valueWithin_object {ms : List (Text × Json)} {t rest : Text} {fuel : Nat} (hne : ∀ u, t ≠ '\x7d' :: u)
    (hspace : skipSpace t = t) (h : membersWithin fuel t = some (some ms, rest)) :
    valueWithin (fuel + 1) ('\x7b' :: t) = some (object ms, rest) := by
  rw [valueWithin, skipSpace_cons (by decide)]
  simp only [hspace]
  simp [h, objectOf]

/-! ### Values inside values -/

theorem compactElements_cons_cons (j j' : Json) (js : List Json) :
    compactElements (j :: j' :: js) = j.compact ++ ',' :: compactElements (j' :: js) := rfl

theorem compactMembers_cons_cons (k : Text) (j : Json) (m : Text × Json) (ms : List (Text × Json)) :
    compactMembers ((k, j) :: m :: ms) = quote k ++ ':' :: j.compact ++ ',' :: compactMembers (m :: ms) := rfl

/-- Elements start with the first of them. -/
theorem exists_compactElements_eq (j : Json) (js : List Json) : ∃ t, compactElements (j :: js) = j.compact ++ t := by
  cases js with
  | nil => exact ⟨[], by simp [compactElements]⟩
  | cons j' js => exact ⟨_, rfl⟩

/-- Members start with the key of the first of them. -/
theorem exists_compactMembers_eq (m : Text × Json) (ms : List (Text × Json)) :
    ∃ t, compactMembers (m :: ms) = '"' :: t := by
  cases ms with
  | nil => exact ⟨_, rfl⟩
  | cons m' ms => exact ⟨_, rfl⟩

/-- The last member of an object is read up to the brace. -/
theorem membersWithin_last {k t rest : Text} {j : Json} {fuel : Nat}
    (h : valueWithin fuel t = some (j, '\x7d' :: rest)) :
    membersWithin (fuel + 1) (quote k ++ ':' :: t) = some (some [(k, j)], rest) := by
  rw [quote_append, membersWithin, skipSpace_cons (by decide)]
  simp only [stringBody_flatMap, Option.bind_eq_bind, Option.bind_some, skipSpace_cons (c := ':') (by decide), h]
  rfl

/-- A member is read up to the comma, and the others after it. -/
theorem membersWithin_more {k t u rest : Text} {j : Json} {ms : List (Text × Json)} {fuel : Nat}
    (h : valueWithin fuel t = some (j, ',' :: u)) (hms : membersWithin fuel u = some (some ms, rest)) :
    membersWithin (fuel + 1) (quote k ++ ':' :: t) = some (some ((k, j) :: ms), rest) := by
  rw [quote_append, membersWithin, skipSpace_cons (by decide)]
  simp only [stringBody_flatMap, Option.bind_eq_bind, Option.bind_some, skipSpace_cons (c := ':') (by decide), h,
    skipSpace_cons (c := ',') (by decide), hms]
  rfl

mutual

/-- A plain value is read from its compact form, whatever stands after it. -/
theorem valueWithin_compact : ∀ (j : Json), IsPlain j → ∀ (fuel : Nat) (rest : Text),
    2 * j.compact.length ≤ fuel → valueWithin fuel (j.compact ++ rest) = some (j, rest)
  | j, h, 0, rest, hfuel => by
    have := length_compact_pos h
    omega
  | .null, _, fuel + 1, rest, _ => rfl
  | .bool true, _, fuel + 1, rest, _ => rfl
  | .bool false, _, fuel + 1, rest, _ => rfl
  | .string t, _, fuel + 1, rest, _ => by
    rw [compact, quote_append, valueWithin, skipSpace_cons (by decide)]
    simp only [stringBody_flatMap]
    rfl
  | .array [], _, fuel + 1, rest, _ => rfl
  | .array (j :: js), h, fuel + 1, rest, hfuel => by
    have hplain := h.of_mem_array
    have hread := elementsWithin_compact (j :: js) (by simp) hplain fuel rest (by
      simp only [compact, List.length_cons, List.length_append, List.cons_append, List.length_nil] at hfuel
      omega)
    obtain ⟨t, hfirst⟩ := exists_compactElements_eq j js
    obtain ⟨c, cs, hhead, hspace, hclose, -⟩ := exists_compact_eq_cons (hplain j (by simp))
    have hform : (Json.array (j :: js)).compact ++ rest = '[' :: (compactElements (j :: js) ++ ']' :: rest) := by
      simp [compact]
    rw [hform]
    refine valueWithin_array ?_ ?_ hread <;> rw [hfirst, hhead, List.cons_append, List.cons_append]
    · intro u heq
      exact hclose (List.head_eq_of_cons_eq heq)
    · exact skipSpace_cons hspace _
  | .object [], _, fuel + 1, rest, _ => rfl
  | .object (m :: ms), h, fuel + 1, rest, hfuel => by
    have hread := membersWithin_compact (m :: ms) (by simp) h.of_mem_object fuel rest (by
      simp only [compact, List.length_cons, List.length_append, List.cons_append, List.length_nil] at hfuel
      omega)
    obtain ⟨t, hfirst⟩ := exists_compactMembers_eq m ms
    have hform : (Json.object (m :: ms)).compact ++ rest =
        '\x7b' :: (compactMembers (m :: ms) ++ '\x7d' :: rest) := by
      simp [compact]
    rw [hform]
    refine valueWithin_object ?_ ?_ hread <;> rw [hfirst, List.cons_append]
    · intro u heq
      exact absurd (List.head_eq_of_cons_eq heq) (by decide)
    · exact skipSpace_cons (by decide) _

/-- Plain elements are read up to the bracket that closes their array. -/
theorem elementsWithin_compact : ∀ (es : List Json), es ≠ [] → (∀ j ∈ es, IsPlain j) → ∀ (fuel : Nat) (rest : Text),
    2 * (compactElements es).length + 1 ≤ fuel →
      elementsWithin fuel (compactElements es ++ ']' :: rest) = some (es, rest)
  | [], hne, _, _, _, _ => absurd rfl hne
  | [j], _, h, fuel + 1, rest, hfuel => by
    have hread := valueWithin_compact j (h j (by simp)) fuel (']' :: rest) (by
      simp only [compactElements] at hfuel
      omega)
    rw [compactElements, elementsWithin, hread]
    rfl
  | j :: j' :: js, _, h, fuel + 1, rest, hfuel => by
    have hread := valueWithin_compact j (h j (by simp)) fuel (',' :: (compactElements (j' :: js) ++ ']' :: rest)) (by
      simp only [compactElements_cons_cons, List.length_append, List.length_cons] at hfuel
      omega)
    have hrest := elementsWithin_compact (j' :: js) (by simp) (fun x hx => h x (by simp [hx])) fuel rest (by
      simp only [compactElements_cons_cons, List.length_append, List.length_cons] at hfuel
      omega)
    rw [compactElements_cons_cons, List.append_assoc, List.cons_append, elementsWithin, hread]
    simp only [Option.bind_eq_bind, Option.bind_some, skipSpace_cons (c := ',') (by decide), hrest]
    rfl

/-- Plain members are read up to the brace that closes their object. -/
theorem membersWithin_compact : ∀ (ms : List (Text × Json)), ms ≠ [] → (∀ m ∈ ms, IsPlain m.2) →
    ∀ (fuel : Nat) (rest : Text), 2 * (compactMembers ms).length + 1 ≤ fuel →
      membersWithin fuel (compactMembers ms ++ '\x7d' :: rest) = some (some ms, rest)
  | [], hne, _, _, _, _ => absurd rfl hne
  | [(k, j)], _, h, fuel + 1, rest, hfuel => by
    have hread := valueWithin_compact j (h (k, j) (by simp)) fuel ('\x7d' :: rest) (by
      simp only [compactMembers, List.length_append, List.length_cons] at hfuel
      omega)
    rw [compactMembers, List.append_assoc, List.cons_append]
    exact membersWithin_last hread
  | (k, j) :: m :: ms, _, h, fuel + 1, rest, hfuel => by
    have hread := valueWithin_compact j (h (k, j) (by simp)) fuel (',' :: (compactMembers (m :: ms) ++ '\x7d' :: rest))
      (by
        simp only [compactMembers_cons_cons, List.length_append, List.length_cons] at hfuel
        omega)
    have hrest := membersWithin_compact (m :: ms) (by simp) (fun x hx => h x (by simp [hx])) fuel rest (by
      simp only [compactMembers_cons_cons, List.length_append, List.length_cons] at hfuel
      omega)
    rw [compactMembers_cons_cons]
    simp only [List.append_assoc, List.cons_append]
    exact membersWithin_more hread hrest

end

/-- A plain value is read back from its compact form. -/
theorem parse_compact {j : Json} (h : IsPlain j) : parse? j.compact = some j := by
  have hread := valueWithin_compact j h (2 * j.compact.length + 2) [] (by omega)
  rw [List.append_nil] at hread
  rw [parse?, hread]
  rfl

/-- Plain values with one compact form are one. -/
theorem compact_injective {j k : Json} (hj : IsPlain j) (hk : IsPlain k) (h : j.compact = k.compact) : j = k := by
  have hread := parse_compact hj
  rw [h, parse_compact hk] at hread
  exact (Option.some.inj hread).symm

end VendorCss.Json
