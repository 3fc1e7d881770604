import VendorCss.Proofs.Text.Cuts
import VendorCss.Proofs.Text.Respelling
import VendorCss.Vendor

/-!
# Vendors that a value names

A value that already speaks to another vendor gets no copy. Names inside `var(…)` are the author's own and name no
vendor; `WithoutVars` says what is left of a value without them, apart from the search that finds them
(`withoutVars_iff`).

The search for another vendor goes through the value as it is written, stops at the first vendor in the order of `known`,
and asks for this one alone whether it is left (`speaksToOther_eq_true_iff`). So another vendor that is left is missed where
the first one stands inside `var(…)` only, or where none is there until the text around a `var(…)` comes together; and
these are the only two ways (`speaksToOther_iff_namesOther`).
-/

namespace VendorCss.Vendor

variable {value planned kept inside t v w : Text}

/-! ## Values without `var(…)` -/

/-- A text starts with a `var(…)`, closed and not empty. -/
def StartsWithVar (t : Text) : Prop :=
  ∃ inside rest, inside ≠ [] ∧ ')' ∉ inside ∧ t = "var(" ++ inside ++ ')' :: rest

/-- What is left of a text when every `var(…)` is deleted, from left to right. -/
inductive WithoutVars : Text → Text → Prop
  | nil : WithoutVars [] []
  | var {inside rest kept : Text} (hne : inside ≠ []) (hopen : ')' ∉ inside) (h : WithoutVars rest kept) :
      WithoutVars ("var(" ++ inside ++ ')' :: rest) kept
  | char {c : Char} {rest kept : Text} (hno : ¬StartsWithVar (c :: rest)) (h : WithoutVars rest kept) :
      WithoutVars (c :: rest) (c :: kept)

/-- A text has something left without its `var(…)`, be it nothing. -/
theorem exists_withoutVars (t : Text) : ∃ kept, WithoutVars t kept := by
  induction hlength : t.length using Nat.strong_induction_on generalizing t with
  | _ n ih =>
    cases t with
    | nil => exact ⟨[], .nil⟩
    | cons c t =>
      by_cases hstart : StartsWithVar (c :: t)
      · obtain ⟨inside, rest, hne, hopen, heq⟩ := hstart
        have hlt : rest.length < n := by
          rw [← hlength, heq]
          simp only [List.length_append, List.length_cons]
          omega
        obtain ⟨kept, hkept⟩ := ih rest.length hlt rest rfl
        exact ⟨kept, heq ▸ .var hne hopen hkept⟩
      · have hlt : t.length < n := hlength ▸ Nat.lt_succ_self t.length
        obtain ⟨kept, hkept⟩ := ih t.length hlt t rfl
        exact ⟨c :: kept, .char hstart hkept⟩

theorem varPlace_append (hne : inside ≠ []) (hopen : ')' ∉ inside) (last : Option Char) (rest : Text) :
    varPlace last ("var(" ++ inside ++ ')' :: rest) = some (("var(" ++ inside ++ [')'] : Text).length, []) := by
  have hinside : (inside ++ ')' :: rest).takeWhile (· != ')') = inside := by
    rw [List.takeWhile_append_of_pos fun c hc => bne_iff_ne.2 (ne_of_mem_of_not_mem hc hopen),
      List.takeWhile_cons_of_neg (by decide), List.append_nil]
  have hlength : ("var(" ++ inside ++ [')'] : Text).length = inside.length + 5 := by
    rw [List.length_append, List.length_append, Nat.add_comm _ inside.length]
    rfl
  unfold varPlace
  rw [List.append_assoc, Text.dropStart?_append]
  dsimp only
  rw [hinside, hlength, List.isEmpty_eq_false_iff.2 hne, Bool.not_false, Bool.true_and,
    if_pos (decide_eq_true (by simp))]

theorem varPlace_eq_none (hno : ¬StartsWithVar t) (last : Option Char) : varPlace last t = none := by
  unfold varPlace
  split
  · rename_i rest hrest
    refine if_neg fun h => hno ?_
    rw [Bool.and_eq_true, Bool.not_eq_true', List.isEmpty_eq_false_iff, decide_eq_true_eq] at h
    obtain ⟨hne, hlt⟩ := h
    -- the run ends before the text does, so a closing parenthesis stands behind it
    obtain ⟨c, after, hafter⟩ : ∃ c after, rest.dropWhile (· != ')') = c :: after := by
      refine List.exists_cons_of_ne_nil fun hnil => ?_
      have heq := List.takeWhile_append_dropWhile (p := (· != ')')) (l := rest)
      rw [hnil, List.append_nil] at heq
      rw [heq] at hlt
      exact lt_irrefl _ hlt
    obtain rfl : c = ')' := by
      have hnot := List.head?_dropWhile_not (· != ')') rest
      rw [hafter] at hnot
      simpa using hnot
    refine ⟨rest.takeWhile (· != ')'), after, hne, fun hmem => ?_, ?_⟩
    · simpa using List.mem_takeWhile_imp hmem
    · rw [List.append_assoc, ← hafter, List.takeWhile_append_dropWhile]
      exact Text.dropStart?_eq_some hrest
  · rfl

theorem WithoutVars.substituteFrom_eq (h : WithoutVars t kept) (last : Option Char) :
    Text.substituteFrom varPlace last 0 t = kept := by
  induction h generalizing last with
  | nil => rfl
  | @var inside rest kept hne hopen _ ih =>
    have hsplit : ("var(" ++ inside ++ ')' :: rest : Text) = "var(" ++ inside ++ [')'] ++ rest := by
      rw [List.append_assoc _ [')'], List.singleton_append]
    have hplace := varPlace_append hne hopen last rest
    rw [hsplit] at hplace ⊢
    rw [Text.substituteFrom_place (List.append_ne_nil_of_right_ne_nil _ (List.cons_ne_nil _ _)) hplace, ih]
    rfl
  | char hno _ ih =>
    rw [Text.substituteFrom, varPlace_eq_none hno]
    dsimp only
    rw [ih]

/-- What is left is what the search for `var(…)` leaves. -/
theorem withoutVars_iff : WithoutVars t kept ↔ kept = Text.substitute varPlace t := by
  constructor
  · exact fun h => (h.substituteFrom_eq none).symm
  · rintro rfl
    obtain ⟨kept, hkept⟩ := exists_withoutVars t
    rwa [Text.substitute, hkept.substituteFrom_eq]

/-! ## Other vendors -/

/-- The known vendors but for that of a planned prefix. -/
def others (planned : Text) : List Text := known.filter (· != vendorPart planned)

/-- Another vendor than that of a planned prefix stands in a text. -/
def NamesOther (planned t : Text) : Prop := ∃ v ∈ known, v ≠ vendorPart planned ∧ v <:+: t

/-- The first of the other vendors, in their order, that stands in a text. -/
def IsFirstOther (planned t v : Text) : Prop :=
  v <:+: t ∧ ∃ earlier later, others planned = earlier ++ v :: later ∧ ∀ w ∈ earlier, ¬w <:+: t

theorem mem_others : v ∈ others planned ↔ v ∈ known ∧ v ≠ vendorPart planned := by
  rw [others, List.mem_filter, bne_iff_ne]

theorem IsFirstOther.mem_others (h : IsFirstOther planned t v) : v ∈ others planned := by
  obtain ⟨-, earlier, later, heq, -⟩ := h
  rw [heq]
  exact List.mem_append_right _ List.mem_cons_self

theorem find?_others_eq_some_iff :
    (others planned).find? (Text.contains t) = some v ↔ IsFirstOther planned t v := by
  simp only [List.find?_eq_some_iff_append, IsFirstOther, Text.contains_iff, Bool.not_eq_true', Bool.eq_false_iff,
    ne_eq]

/-- A vendor of several that stand in a text is the first one. -/
theorem exists_isFirstOther (h : NamesOther planned t) : ∃ v, IsFirstOther planned t v := by
  obtain ⟨v, hknown, hne, hin⟩ := h
  have hsome : ((others planned).find? (Text.contains t)).isSome = true :=
    List.find?_isSome.2 ⟨v, mem_others.2 ⟨hknown, hne⟩, Text.contains_iff.2 hin⟩
  obtain ⟨first, hfirst⟩ := Option.isSome_iff_exists.1 hsome
  exact ⟨first, find?_others_eq_some_iff.1 hfirst⟩

theorem IsFirstOther.unique (hv : IsFirstOther planned t v) (hw : IsFirstOther planned t w) : v = w :=
  Option.some.inj ((find?_others_eq_some_iff.2 hv).symm.trans (find?_others_eq_some_iff.2 hw))

/-- Only the first of the other vendors in the value as it is written is looked for in what is left. -/
theorem speaksToOther_eq_true_iff (h : WithoutVars value kept) :
    speaksToOther value planned = true ↔ ∃ v, IsFirstOther planned value v ∧ v <:+: kept := by
  rw [speaksToOther, ← withoutVars_iff.1 h, ← others]
  split
  · rename_i v hv
    have hfirst := find?_others_eq_some_iff.1 hv
    rw [Text.contains_iff]
    refine ⟨fun hin => ⟨v, hfirst, hin⟩, ?_⟩
    rintro ⟨w, hw, hin⟩
    rwa [hfirst.unique hw]
  · rename_i hnone
    refine ⟨fun h => absurd h Bool.false_ne_true, ?_⟩
    rintro ⟨w, hw, -⟩
    rw [find?_others_eq_some_iff.2 hw] at hnone
    cases hnone

/-- A value is taken to speak to another vendor where one is left without its `var(…)`, and besides the value as it is
written names one, and the first one that it names is left. -/
theorem speaksToOther_iff_namesOther (value planned : Text) : ∃ kept, (∀ t, WithoutVars value t ↔ t = kept) ∧
    (speaksToOther value planned = true ↔
      NamesOther planned kept ∧ NamesOther planned value ∧ ∀ v, IsFirstOther planned value v → v <:+: kept) := by
  obtain ⟨kept, hkept⟩ := exists_withoutVars value
  refine ⟨kept, fun t => ?_, ?_⟩
  · rw [withoutVars_iff, withoutVars_iff.1 hkept]
  rw [speaksToOther_eq_true_iff hkept]
  constructor
  · rintro ⟨v, hfirst, hin⟩
    have hother := mem_others.1 hfirst.mem_others
    refine ⟨⟨v, hother.1, hother.2, hin⟩, ⟨v, hother.1, hother.2, hfirst.1⟩, fun w hw => ?_⟩
    rwa [hw.unique hfirst]
  · rintro ⟨-, hnames, hleft⟩
    obtain ⟨v, hfirst⟩ := exists_isFirstOther hnames
    exact ⟨v, hfirst, hleft v hfirst⟩

/-- The vendor inside `var(…)` hides the one behind it. -/
theorem speaksToOther_iff_namesOther_hidden : WithoutVars "var(--a-webkit-b) -ms-c" " -ms-c" ∧
    NamesOther "-moz-" " -ms-c" ∧ IsFirstOther "-moz-" "var(--a-webkit-b) -ms-c" "-webkit-" ∧
    speaksToOther "var(--a-webkit-b) -ms-c" "-moz-" = false := by
  have hleft : WithoutVars "var(--a-webkit-b) -ms-c" " -ms-c" := withoutVars_iff.2 (by decide)
  have hfirst : IsFirstOther "-moz-" "var(--a-webkit-b) -ms-c" "-webkit-" :=
    find?_others_eq_some_iff.1 (by decide)
  obtain ⟨kept, hkept, hspeaks⟩ := speaksToOther_iff_namesOther "var(--a-webkit-b) -ms-c" "-moz-"
  obtain rfl := (hkept _).1 hleft
  refine ⟨hleft, ⟨"-ms-", by decide, by decide, Text.contains_iff.1 (by decide)⟩, hfirst, ?_⟩
  refine Bool.eq_false_iff.2 fun h => ?_
  have hin := (hspeaks.1 h).2.2 _ hfirst
  exact absurd (Text.contains_iff.2 hin) (by decide)

/-- A vendor that comes up around a `var(…)` is not seen. -/
example : speaksToOther "-mvar(--a)s-b" "-moz-" = false := by decide

end VendorCss.Vendor
