import VendorCss.Proofs.Bundled
import VendorCss.Proofs.Rules
import VendorCss.Proofs.Value.CrossFade
import VendorCss.Proofs.Value.Gradients
import VendorCss.Proofs.Value.Images

/-!
# The steps of spelling end

A value is spelled in steps until a step changes nothing or gives up. Every step of a dialect but that of gradients leaves
the value as it is or lowers a measure of it: the places of the word, with the quotes before blanks for sets of images, and
the cross-fades of a cross-fade with the extent of the text. A gradient is read and printed as components. Its steps end
where the printed text is read as it was meant (`Gradient.ReadsBack`), which an open square bracket prevents: the
parenthesis that closes the gradient is read as part of the block, and each step adds another one
(`not_settles_openBracket`).
-/

namespace VendorCss

namespace ValueDialect

variable {dialect : ValueDialect} {token planned value next : Text} {result : Option Text}

/-! ## Steps that end -/

/-- The steps from a value end: they reach a value that the step leaves as it is, or give up. -/
inductive Settles (d : ValueDialect) (token planned : Text) : Text → Option Text → Prop
  | givenUp {value : Text} (h : d.step? token planned value = none) : Settles d token planned value none
  | fixed {value : Text} (h : d.step? token planned value = some value) : Settles d token planned value (some value)
  | step {value next : Text} {result : Option Text} (h : d.step? token planned value = some next) (hne : next ≠ value)
      (hnext : Settles d token planned next result) : Settles d token planned value result

/-- Where the steps end is how a value is spelled. -/
theorem Settles.spell?_eq (h : dialect.Settles token planned value result) :
    dialect.spell? token planned value = result := by
  induction h with
  | givenUp h => rw [spell?, h]
  | fixed h =>
    rw [spell?, h]
    exact if_pos rfl
  | step h hne _ ih =>
    rw [spell?, h]
    exact (if_neg hne).trans ih

/-- Steps that change a value only to lower a measure end. -/
theorem exists_settles_of_lowers {α : Type} {lower : α → α → Prop} (hlower : WellFounded lower) (measure : Text → α)
    (hstep : ∀ value next, dialect.step? token planned value = some next →
      next = value ∨ lower (measure next) (measure value)) (value : Text) :
    ∃ result, dialect.Settles token planned value result := by
  induction hm : measure value using hlower.induction generalizing value with
  | _ m ih =>
    subst hm
    cases hnext : dialect.step? token planned value with
    | none => exact ⟨none, .givenUp hnext⟩
    | some next =>
      by_cases heq : next = value
      · subst heq
        exact ⟨some next, .fixed hnext⟩
      · have hlt := (hstep value next hnext).resolve_left heq
        obtain ⟨result, hresult⟩ := ih _ hlt next rfl
        exact ⟨result, .step hnext heq hresult⟩

/-- Steps that change a value no more than once end. -/
theorem exists_settles_of_once (hstep : ∀ next, dialect.step? token planned value = some next →
    dialect.step? token planned next = some next) : ∃ result, dialect.Settles token planned value result := by
  cases hnext : dialect.step? token planned value with
  | none => exact ⟨none, .givenUp hnext⟩
  | some next =>
    have hfixed := hstep next hnext
    by_cases heq : next = value
    · subst heq
      exact ⟨some next, .fixed hfixed⟩
    · exact ⟨some next, .step hnext heq (.fixed hfixed)⟩

/-! ## Words -/

/-- Small letters and hyphens after a hyphen. -/
def IsVendorWord (t : Text) : Prop := t.head? = some '-' ∧ ∀ c ∈ t, isNameChar c = true

instance (t : Text) : Decidable (IsVendorWord t) := inferInstanceAs (Decidable (_ ∧ _))

theorem isVendorWord_of_known : ∀ planned ∈ Vendor.known, IsVendorWord planned := by decide

theorem isVendorWord_stretchName? (token planned : Text) : ∀ name ∈ stretchName? token planned, IsVendorWord name := by
  intro name hname
  unfold stretchName? at hname
  split at hname
  · split at hname
    · cases hname
      decide
    · split at hname
      · cases hname
        decide
      · cases hname
  · cases hname

theorem isVendorWord_pixelatedName? (planned : Text) : ∀ name ∈ pixelatedName? planned, IsVendorWord name := by
  intro name hname
  unfold pixelatedName? at hname
  split at hname
  · cases hname
    decide
  · split at hname
    · cases hname
      decide
    · cases hname

/-- What is written for a word has a hyphen first, and else letters of names and of the word. -/
theorem isHyphenated_newWord {own : Option Text} (hplanned : IsVendorWord planned)
    (hown : ∀ name ∈ own, IsVendorWord name) : WordPattern.IsHyphenated (newWord own planned) := by
  intro w
  cases own with
  | none =>
    obtain ⟨s, rfl⟩ := List.head?_eq_some_iff.1 hplanned.1
    refine ⟨s ++ w, rfl, fun c hc => ?_⟩
    rcases List.mem_append.1 hc with hc | hc
    · exact .inl (hplanned.2 c (List.mem_cons_of_mem _ hc))
    · exact .inr hc
  | some name =>
    obtain ⟨s, rfl⟩ := List.head?_eq_some_iff.1 (hown name rfl).1
    exact ⟨s, rfl, fun c hc => .inl ((hown _ rfl).2 c (List.mem_cons_of_mem _ hc))⟩

theorem notMem_of_isVendorWord {t : Text} (h : IsVendorWord t) : '$' ∉ t := fun hmem =>
  absurd (h.2 '$' hmem) (by decide)

/-- Spelling the words of a value keeps the rest. -/
theorem respelled_respell {p : WordPattern} {own : Option Text} (hname : p.name.IsKeyword)
    (hplanned : IsVendorWord planned) (hown : ∀ name ∈ own, IsVendorWord name) (value : Text) :
    p.Respelled (newWord own planned) true value (respell p own planned value) :=
  WordPattern.respelled_substitute hname.ne_nil (expand_placeTemplate (notMem_of_isVendorWord hplanned)
    fun name h => notMem_of_isVendorWord (hown name h)) value

/-- Steps that spell words end: every one leaves fewer words. -/
theorem exists_settles_respell {p : WordPattern} {own : Option Text} (hname : p.name.IsKeyword)
    (hplanned : IsVendorWord planned) (hown : ∀ name ∈ own, IsVendorWord name)
    (hstep : ∀ value, dialect.step? token planned value = some (respell p own planned value)) (value : Text) :
    ∃ result, dialect.Settles token planned value result := by
  refine exists_settles_of_lowers Nat.lt_wfRel.wf (p.starts true) (fun value next hnext => ?_) value
  rw [hstep] at hnext
  cases hnext
  exact (respelled_respell hname hplanned hown value).starts_lt hname (isHyphenated_newWord hplanned hown)

/-- Steps that spell words and wrap images end: every one leaves fewer words, or fewer quotes before blanks. -/
theorem exists_settles_imageSet (htoken : token.IsKeyword) (hu : 'u' ∉ token) (hplanned : IsVendorWord planned)
    (value : Text) : ∃ result, imageSet.Settles token planned value result := by
  have hnone : ∀ name ∈ (none : Option Text), IsVendorWord name := fun _ h => nomatch h
  refine exists_settles_of_lowers Nat.lt_wfRel.wf
    (fun t => (WordPattern.word token).starts true t + Text.looseQuotes t) (fun value next hnext => ?_) value
  have hrespelled := respelled_respell (p := .word token) htoken hplanned hnone value
  have hnew := isHyphenated_newWord hplanned hnone
  have hstarts := hrespelled.starts_lt htoken hnew
  have hquotes := (hrespelled.looseQuotes_eq htoken hnew).2
  generalize hold : respell (.word token) none planned value = spelled at hrespelled hstarts hquotes
  have hstep : next = if planned = "-webkit-" then Text.substitute bareImagePlace spelled else spelled := by
    rw [← hold]
    exact (Option.some.inj hnext).symm
  have hwrapped : next = spelled ∨ (WordPattern.word token).starts true next ≤ (WordPattern.word token).starts true spelled ∧
      next.looseQuotes < spelled.looseQuotes := by
    rw [hstep]
    split
    · have h := isWrapped_substitute spelled
      have hcloses : (WordPattern.word token).closes 'u' = false := show WordPattern.isDelimiter 'u' = false by decide
      exact h.looseQuotes_lt.imp id fun hlt => ⟨h.starts_le htoken hu hcloses true, hlt⟩
    · exact .inl rfl
  change next = value ∨ _ < _
  rcases hstarts with rfl | hlt
  · refine hwrapped.imp id fun ⟨hle, hlt⟩ => ?_
    omega
  · right
    rcases hwrapped with rfl | ⟨hle, hlt⟩
    · omega
    · omega

/-- The steps of a cross-fade end. -/
theorem exists_settles_crossFade (hplanned : planned ∈ Vendor.known) (value : Text) :
    ∃ result, crossFade.Settles "cross-fade" planned value result := by
  refine exists_settles_of_lowers (Prod.lex Nat.lt_wfRel Nat.lt_wfRel).wf
    (fun t => (Text.needles crossFadeNeedle true t, Text.extent t)) (fun value next hnext => ?_) value
  cases hnext
  exact crossFades_lt hplanned value

/-! ## The bundled data -/

/-- A token and a prefix that the bundled data has for a dialect. -/
structure Takes (d : ValueDialect) (token planned : Text) : Prop where
  keyword : token.IsKeyword
  hyphen : planned.head? = some '-'
  bare : d ≠ gradient → d ≠ displayFlex → planned ∈ Vendor.known
  crossFade : d = crossFade → token = "cross-fade"
  imageSet : d = imageSet → 'u' ∉ token

instance (d : ValueDialect) (token planned : Text) : Decidable (d.Takes token planned) :=
  decidable_of_iff (token.IsKeyword ∧ planned.head? = some '-' ∧
      (d ≠ gradient → d ≠ displayFlex → Vendor.known.contains planned = true) ∧
      (d = .crossFade → token = "cross-fade") ∧ (d = .imageSet → 'u' ∉ token))
    ⟨fun ⟨hkeyword, hhyphen, hbare, hcross, himage⟩ =>
        ⟨hkeyword, hhyphen, fun h h' => List.contains_iff_mem.1 (hbare h h'), hcross, himage⟩,
      fun ⟨hkeyword, hhyphen, hbare, hcross, himage⟩ =>
        ⟨hkeyword, hhyphen, fun h h' => List.contains_iff_mem.2 (hbare h h'), hcross, himage⟩⟩

/-- The steps of every dialect end, but for gradients that are read in another way than they were meant. -/
theorem Takes.exists_settles (h : dialect.Takes token planned)
    (hreads : dialect = gradient → Gradient.ReadsBack token planned value) :
    ∃ result, dialect.Settles token planned value result := by
  have hnone : ∀ name ∈ (none : Option Text), IsVendorWord name := fun _ h => nomatch h
  cases dialect with
  | gradient =>
    have hhead : token.head? ≠ some '-' := by
      obtain ⟨c, rest, rfl, hc⟩ := h.keyword.head
      exact fun h => hc (Option.some.inj h)
    exact exists_settles_of_once fun next hnext =>
      Gradient.spell?_spelled hhead h.hyphen (hreads rfl) hnext
  | displayFlex => exact exists_settles_of_once fun next hnext => hnext
  | crossFade =>
    obtain rfl := h.crossFade rfl
    exact exists_settles_crossFade (h.bare nofun nofun) value
  | imageSet =>
    exact exists_settles_imageSet h.keyword (h.imageSet rfl) (isVendorWord_of_known _ (h.bare nofun nofun)) value
  | sizing =>
    exact exists_settles_respell (p := .size token) h.keyword (isVendorWord_of_known _ (h.bare nofun nofun))
      (isVendorWord_stretchName? token planned) (fun _ => rfl) value
  | pixelated =>
    exact exists_settles_respell (p := .word token) h.keyword (isVendorWord_of_known _ (h.bare nofun nofun))
      (isVendorWord_pixelatedName? planned) (fun _ => rfl) value
  | plain | displayGrid | filter =>
    exact exists_settles_respell (p := .word token) h.keyword (isVendorWord_of_known _ (h.bare nofun nofun)) hnone
      (fun _ => rfl) value

end ValueDialect

namespace Rules

variable {agents : AgentTable} {table : CapabilityTable} {selection : Selection} {options : Options}

/-- The tokens and prefixes of the bundled data. -/
theorem takes_of_mem_values (hagents : AgentTable.bundled = .ok agents) (htable : CapabilityTable.bundled agents = .ok table)
    {v : ValueVariants} (hv : v ∈ (compile table selection options).values) {planned : Text}
    (hplanned : planned ∈ v.prefixes) : v.dialect.Takes v.token planned := by
  have hall : ∀ e ∈ CapabilityTable.bundledEntries, e.props.isSome = true → ∀ name ∈ e.names, ∀ planned ∈ e.plannable,
      (ValueDialect.ofName name).Takes ((ValueDialect.ofName name).token name) planned := by
    rw [CapabilityTable.spelledEntries.2]
    decide +kernel
  obtain ⟨f, hf, name, hname, hkind, _, rfl⟩ := mem_values.1 hv
  obtain ⟨e, he, hnames, hprops, hselector, hplannable⟩ :=
    @CapabilityTable.mem_plannable agents table selection options hagents htable f hf
  have hsome : e.props.isSome = true := by
    rw [← hprops]
    unfold Feature.kindOf at hkind
    split at hkind
    · cases hkind
    split at hkind
    · cases hkind
    split at hkind
    · assumption
    · cases hkind
  rw [hnames] at hname
  exact hall e he hsome name hname planned (hplannable planned hplanned)

/-- A gradient with its side, beside another image. -/
def sides : Text := "linear-gradient(to right, red, blue), url(a.png)"

/-- Version 10 of the Blackberry browser needs `-webkit-` for a feature that has it in its entries. -/
theorem blackberry_wanted (hagents : AgentTable.bundled = .ok agents) {f : Feature} {browsers : List Text}
    (hsupport : expandEntries agents browsers = .ok f.support) (hbrowsers : ("bb 10" : Text) ∈ browsers) :
    ("-webkit-" : Text) ∈ f.wanted ⟨agents, [⟨"bb", "10"⟩], agents.vendors⟩ {} := by
  have hfound : (AgentTable.bundledEntries.find? fun e => e.name == ("bb" : Text)).any (fun e =>
      e.expand.toOption.any fun a => a.versions.contains ("10" : Text) && a.vendorOf "10" == ("-webkit-" : Text)) = true := by
    rw [AgentTable.spelledEntries.2]
    decide +kernel
  obtain ⟨bb, hbb, hversion⟩ := (Option.any_eq_true _ _).1 hfound
  obtain ⟨a, ha, hexpand⟩ := AgentTable.exists_get?_of_ofEntries hagents hbb
  rw [hexpand, Except.toOption, Option.any_some, Bool.and_eq_true, List.contains_iff_mem, beq_iff_eq] at hversion
  obtain ⟨expanded, hexpanded, hsubset⟩ := subset_of_expandEntries hsupport hbrowsers
  have hwords : Text.words "bb 10" = [("bb" : Text), ("10" : Text)] := by decide
  have hmatched : matchedVersions a "10" "bb 10" = .ok (a.versions.filter (· == ("10" : Text))) := rfl
  unfold expandEntry at hexpanded
  rw [hwords] at hexpanded
  dsimp only at hexpanded
  rw [ha] at hexpanded
  dsimp only at hexpanded
  rw [hmatched] at hexpanded
  cases hexpanded
  refine Feature.mem_wanted.2 ⟨⟨⟨⟨"bb", "10"⟩, a.vendorOf "10", none⟩, hsubset ?_, ?_, hversion.2⟩, nofun⟩
  · exact List.mem_map.2 ⟨"10", List.mem_filter.2 ⟨hversion.1, by decide⟩, rfl⟩
  · exact List.contains_iff_mem.2 (List.mem_singleton.2 rfl)

end Rules

end VendorCss
