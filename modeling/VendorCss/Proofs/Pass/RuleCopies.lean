import VendorCss.Pass.Selector
import VendorCss.Proofs.Pass.PlainCopies
import VendorCss.Proofs.Sheet.Copying

/-!
# Which copies a rule gets

The variants of a rule that stand directly above it, up to the first node that is none of them, are its run
(`SelectorVariants.runAbove`). Of the planned prefixes that the scope of the rule allows, those whose variant is not in
the run get a copy of the rule each, in the order of the plan (`SelectorVariants.process_eq`); nothing else changes.

Whether a prefix is absent is asked again before each copy is written. The copies written so far make the run longer at
its near end and hide no variant farther above, and as different prefixes have different variants, a copy answers the
question for its own prefix only. So a prefix that is planned twice gets one copy, and once all copies are there nothing
is absent.
-/

namespace VendorCss

variable {s : Sheet} {p q : Pass} {rule : Nat} {n : Node} {v : SelectorVariants} {selector planned : Text}
variable {variants ts written : List Text} {above : List (Option Text)}

theorem Node.selector?_mapSelector (h : n.selector? = some selector) (t : Text) :
    (n.mapSelector fun _ => t).selector? = some t := by
  obtain ⟨content, raws, source⟩ := n
  cases content with
  | rule _ => rfl
  | root | declaration _ | comment _ | atRule _ => cases h

theorem Sheet.find?_of_selector? (hrule : s.selector? rule = some selector) :
    ∃ n k, s.find? rule = some (n, k) ∧ n.selector? = some selector := by
  obtain ⟨n, hn, hselector⟩ := Option.bind_eq_some_iff.1 hrule
  obtain ⟨k, hfind⟩ := find?_of_node? hn
  exact ⟨n, k, hfind, hselector⟩

namespace SelectorVariants

/-! ## The run above a rule -/

/-- The longest run of variants that a row of selectors starts with; `none` is a node that is no rule. -/
def runOf (variants : List Text) : (above : List (Option Text)) → List Text
  | [] | none :: _ => []
  | some selector :: above => if selector ∈ variants then selector :: runOf variants above else []

/-- Variants put before a row make its run longer. -/
theorem runOf_append (h : ∀ t ∈ ts, t ∈ variants) (above : List (Option Text)) :
    runOf variants (ts.map some ++ above) = ts ++ runOf variants above := by
  induction ts with
  | nil => rfl
  | cons t ts ih =>
    rw [List.map_cons, List.cons_append, runOf, if_pos (h t List.mem_cons_self),
      ih fun t' ht' => h t' (.tail _ ht'), List.cons_append]

/-- All prefixes that the rule may be spelled with. -/
def known (v : SelectorVariants) : List Text := v.possible ++ v.prefixes

/-- Different prefixes have different variants of a selector. -/
def TellsApart (v : SelectorVariants) (selector : Text) : Prop :=
  ∀ x ∈ v.known, ∀ y ∈ v.known, v.spell selector x = v.spell selector y → x = y

instance (v : SelectorVariants) (selector : Text) : Decidable (v.TellsApart selector) :=
  inferInstanceAs (Decidable (∀ x ∈ v.known, ∀ y ∈ v.known, v.spell selector x = v.spell selector y → x = y))

theorem mem_known (h : planned ∈ v.prefixes) : planned ∈ v.known := List.mem_append_right _ h

/-- A variant is found under the prefix that it is for. -/
theorem find?_variant (happart : v.TellsApart selector) (hplanned : planned ∈ v.known) :
    (v.spellings selector).find? (fun (_, variant) => variant == v.spell selector planned) =
      some (planned, v.spell selector planned) := by
  rw [spellings, List.find?_map]
  cases hfind : (v.possible ++ v.prefixes).find?
      ((fun (_, variant) => variant == v.spell selector planned) ∘ fun x => (x, v.spell selector x)) with
  | none => exact absurd (List.find?_eq_none.1 hfind planned hplanned) (by simp)
  | some found =>
    have hspell := List.find?_some hfind
    rw [Function.comp_apply, beq_iff_eq] at hspell
    obtain rfl := happart found (List.mem_of_find?_eq_some hfind) planned hplanned hspell
    rfl

theorem find?_eq_none_of_notMem {t : Text} (h : t ∉ v.known.map (v.spell selector)) :
    (v.spellings selector).find? (fun (_, variant) => variant == t) = none := by
  rw [spellings, List.find?_map, Option.map_eq_none_iff, List.find?_eq_none]
  intro x hx heq
  exact h (List.mem_map.2 ⟨x, hx, eq_of_beq heq⟩)

/-- The variant of a prefix is what it is listed with. -/
theorem find?_planned (hplanned : planned ∈ v.known) :
    (v.spellings selector).find? (fun (known, _) => known == planned) = some (planned, v.spell selector planned) := by
  rw [spellings, List.find?_map]
  cases hfind : (v.possible ++ v.prefixes).find?
      ((fun (known, _) => known == planned) ∘ fun x => (x, v.spell selector x)) with
  | none => exact absurd (List.find?_eq_none.1 hfind planned hplanned) (by simp)
  | some found =>
    have hfound := List.find?_some hfind
    rw [Function.comp_apply, beq_iff_eq] at hfound
    rw [hfound]
    rfl

/-- The copy for a prefix stands above if its variant is in the run. -/
theorem standsAbove_iff (happart : v.TellsApart selector) (hplanned : planned ∈ v.known) (above : List (Option Text)) :
    standsAbove (v.spellings selector) planned above = true ↔
      v.spell selector planned ∈ runOf (v.known.map (v.spell selector)) above := by
  induction above with
  | nil => exact iff_of_false Bool.false_ne_true List.not_mem_nil
  | cons t above ih =>
    cases t with
    | none => exact iff_of_false Bool.false_ne_true List.not_mem_nil
    | some t =>
      rw [standsAbove, runOf]
      by_cases ht : t ∈ v.known.map (v.spell selector)
      · obtain ⟨x, hx, rfl⟩ := List.mem_map.1 ht
        rw [find?_variant happart hx, if_pos ht, List.mem_cons]
        dsimp only
        rw [Bool.or_eq_true, beq_iff_eq, ih]
        exact or_congr_left ⟨fun h => by rw [h], fun h => happart x hx planned hplanned h.symm⟩
      · rw [find?_eq_none_of_notMem ht, if_neg ht]
        exact iff_of_false Bool.false_ne_true List.not_mem_nil

/-- The run of variants directly above a rule. -/
def runAbove (v : SelectorVariants) (s : Sheet) (rule : Nat) (selector : Text) : List Text :=
  runOf (v.known.map (v.spell selector)) ((s.prevSiblings rule).map s.selector?)

/-! ## The copies -/

/-- The sheet with a copy of a rule for each of some prefixes directly before it, which has the variant of its selector
for the prefix. -/
def withCopies (v : SelectorVariants) (s : Sheet) (rule : Nat) (selector : Text) (prefixes : List Text) : Sheet :=
  s.copiesBefore rule (prefixes.map fun planned n => n.mapSelector fun _ => v.spell selector planned)

section

variable (hs : s.IsNumbered) (hrule : s.selector? rule = some selector)

include hs hrule

theorem selector?_withCopies (v : SelectorVariants) (prefixes : List Text) :
    (v.withCopies s rule selector prefixes).selector? rule = some selector := by
  obtain ⟨n, k, hfind, hselector⟩ := Sheet.find?_of_selector? hrule
  rw [withCopies, Sheet.selector?, Sheet.node?, Sheet.find?_copiesBefore hs _ hfind]
  exact hselector

/-- The copies are the near end of the run. -/
theorem runAbove_withCopies (hwritten : ∀ x ∈ written, x ∈ v.known) :
    v.runAbove (v.withCopies s rule selector written) rule selector =
      (written.map (v.spell selector)).reverse ++ v.runAbove s rule selector := by
  obtain ⟨n, k, hfind, hselector⟩ := Sheet.find?_of_selector? hrule
  have hrow : ∀ s' : Sheet, (s'.prevSiblings rule).map s'.selector? =
      ((s'.prevSiblings rule).map s'.node?).map fun n => n.bind Node.selector? := fun s' => by
    rw [List.map_map]
    rfl
  have hcopies : ((written.map fun planned (n : Node) => n.mapSelector fun _ => v.spell selector planned).map
      fun edit => some (edit n)).map (fun n => n.bind Node.selector?) = (written.map (v.spell selector)).map some := by
    simp only [List.map_map]
    exact List.map_congr_left fun x _ => Node.selector?_mapSelector hselector _
  rw [runAbove, hrow, withCopies, Sheet.map_prevSiblings_copiesBefore hs _ hfind, List.map_append, List.map_reverse,
    hcopies, ← List.map_reverse, ← hrow, runOf_append]
  · rfl
  · intro t ht
    obtain ⟨x, hx, rfl⟩ := List.mem_map.1 (List.mem_reverse.1 ht)
    exact List.mem_map_of_mem (hwritten x hx)

end

/-! ## One planned prefix -/

/-- The second pass is the first one with copies of a rule for some prefixes. -/
structure Copied (v : SelectorVariants) (p : Pass) (rule : Nat) (selector : Text) (written : List Text) (q : Pass) :
    Prop where
  rules : q.rules = p.rules
  diagnostics : q.diagnostics = p.diagnostics
  sheet : q.sheet = v.withCopies p.sheet rule selector written

section

variable (hs : p.sheet.IsNumbered) (hrule : p.sheet.selector? rule = some selector) (happart : v.TellsApart selector)

include hs hrule happart

/-- A prefix gets a copy unless it has one by now, or its variant was in the run at the start. -/
theorem Copied.addVariant (h : v.Copied p rule selector written q) (hwritten : ∀ x ∈ written, x ∈ v.known)
    (hplanned : planned ∈ v.known) : v.Copied p rule selector
      (if planned ∈ written ∨ v.spell selector planned ∈ v.runAbove p.sheet rule selector then written
        else written ++ [planned]) (v.addVariant q rule planned) := by
  have hqrule : q.sheet.selector? rule = some selector := by
    rw [h.sheet]
    exact selector?_withCopies hs hrule v written
  have hstands : standsAbove (v.spellings selector) planned ((q.sheet.prevSiblings rule).map q.sheet.selector?) = true ↔
      planned ∈ written ∨ v.spell selector planned ∈ v.runAbove p.sheet rule selector := by
    rw [standsAbove_iff happart hplanned, ← runAbove, h.sheet, runAbove_withCopies hs hrule hwritten, List.mem_append,
      List.mem_reverse]
    refine or_congr_left ⟨fun hmem => ?_, List.mem_map_of_mem⟩
    obtain ⟨x, hx, hspell⟩ := List.mem_map.1 hmem
    exact happart x (hwritten x hx) planned hplanned hspell ▸ hx
  rw [SelectorVariants.addVariant, hqrule]
  dsimp only
  by_cases habove : planned ∈ written ∨ v.spell selector planned ∈ v.runAbove p.sheet rule selector
  · rw [if_pos (hstands.2 habove), if_pos habove]
    exact h
  · rw [if_neg (mt hstands.1 habove), if_neg habove, find?_planned hplanned]
    obtain ⟨n, k, hfind, -⟩ := Sheet.find?_of_selector? hrule
    refine ⟨h.rules, h.diagnostics, ?_⟩
    show q.sheet.cloneBefore rule _ = _
    rw [h.sheet, withCopies, withCopies, Sheet.cloneBefore_copiesBefore hs _ hfind, List.map_append]
    rfl

/-! ## All planned prefixes -/

/-- The prefixes of a row that get a copy are those whose variant was not in the run, each once. -/
theorem copied_foldl (hq : v.Copied p rule selector [] q) (prefixes : List Text)
    (hprefixes : ∀ x ∈ prefixes, x ∈ v.known) : v.Copied p rule selector
      (Text.distinct (prefixes.filter fun x => v.spell selector x ∉ v.runAbove p.sheet rule selector))
      (prefixes.foldl (fun q planned => v.addVariant q rule planned) q) := by
  induction prefixes using List.reverseRecOn with
  | nil => exact hq
  | append_singleton prefixes planned ih =>
    have hstep := (ih fun x hx => hprefixes x (List.mem_append_left _ hx)).addVariant hs hrule happart
      (fun x hx => hprefixes x (List.mem_append_left _ (List.mem_of_mem_filter (Text.mem_distinct.1 hx))))
      (hprefixes planned (List.mem_append_right _ List.mem_cons_self))
    rw [List.foldl_append, List.filter_append, List.foldl_cons, List.foldl_nil]
    by_cases hrun : v.spell selector planned ∈ v.runAbove p.sheet rule selector
    · rw [if_pos (.inr hrun)] at hstep
      rw [List.filter_cons_of_neg (by simpa using hrun), List.filter_nil, List.append_nil]
      exact hstep
    · simp only [Text.mem_distinct, or_iff_left hrun] at hstep
      rw [List.filter_cons_of_pos (by simpa using hrun), List.filter_nil, Text.distinct_concat]
      exact hstep

end

/-- The planned prefixes that a rule gets a copy for: those that its scope allows and whose variant is not in the run
above it. -/
def absent (v : SelectorVariants) (p : Pass) (rule : Nat) (selector : Text) : List Text :=
  Text.distinct ((v.prefixes.filter (Pass.inScope (p.scope rule).1)).filter fun planned =>
    v.spell selector planned ∉ v.runAbove p.sheet rule selector)

theorem mem_known_of_mem_absent (h : planned ∈ v.absent p rule selector) : planned ∈ v.known :=
  mem_known (List.mem_of_mem_filter (List.mem_of_mem_filter (Text.mem_distinct.1 h)))

theorem process_copied (hs : p.sheet.IsNumbered) (hrule : p.sheet.selector? rule = some selector)
    (haccepts : v.accepts selector = true) (happart : v.TellsApart selector) :
    v.Copied p rule selector (v.absent p rule selector) (v.process p rule) := by
  obtain ⟨facts, hfacts, -⟩ := p.scope_learns rule
  have hstart : v.Copied p rule selector [] (p.withScopes facts) := ⟨rfl, rfl, (Sheet.copiesBefore_nil _ _).symm⟩
  rw [process, hrule, Option.any_some, haccepts, if_pos rfl]
  dsimp only
  rw [hfacts]
  exact copied_foldl hs hrule happart hstart _ fun x hx => mem_known (List.mem_of_mem_filter hx)

/-- The scope of the rule is what it was before the copies were written. -/
theorem scope_of_copied (hs : p.sheet.IsNumbered) (hrule : p.sheet.selector? rule = some selector)
    (h : v.Copied p rule selector written q) : (q.fresh.scope rule).1 = (p.fresh.scope rule).1 := by
  obtain ⟨n, k, hfind, -⟩ := Sheet.find?_of_selector? hrule
  have hlt : rule < p.sheet.next := hs.lt_of_node? (n := n) (by rw [Sheet.node?, hfind]; rfl)
  refine Pass.scope_congr (p := p.fresh) (q := q.fresh) hs hlt h.rules rfl ?_ fun i hi => ?_
  · show q.sheet.ancestors rule = p.sheet.ancestors rule
    rw [h.sheet]
    exact Sheet.ancestors_copiesBefore hs _ hfind
  · show (q.sheet.node? i).map Pass.ownScope = (p.sheet.node? i).map Pass.ownScope
    have hi : i < p.sheet.next := hi
    rw [h.sheet, withCopies, Sheet.node?_copiesBefore hi]

/-- Once the copies are there, no prefix that the same scope allows is absent. -/
theorem absent_of_copied (hs : p.sheet.IsNumbered) (hrule : p.sheet.selector? rule = some selector)
    (h : v.Copied p rule selector (v.absent p rule selector) q) (hscope : (q.scope rule).1 = (p.scope rule).1) :
    v.absent q rule selector = [] := by
  have hrun : v.runAbove q.sheet rule selector =
      ((v.absent p rule selector).map (v.spell selector)).reverse ++ v.runAbove p.sheet rule selector := by
    rw [h.sheet]
    exact runAbove_withCopies hs hrule fun x => mem_known_of_mem_absent
  rw [List.eq_nil_iff_forall_not_mem]
  intro planned hplanned
  obtain ⟨hscoped, hnew⟩ := List.mem_filter.1 (Text.mem_distinct.1 hplanned)
  rw [hscope] at hscoped
  rw [hrun, decide_eq_true_eq, List.mem_append, not_or, List.mem_reverse] at hnew
  have hwritten : planned ∈ v.absent p rule selector :=
    Text.mem_distinct.2 (List.mem_filter.2 ⟨hscoped, decide_eq_true hnew.2⟩)
  exact hnew.1 (List.mem_map_of_mem hwritten)

/-- A rule that uses the name, and whose variants for different prefixes differ, gets a copy with the variant as its
selector directly above it for each planned prefix that is absent, in the order of the plan, and nothing else changes.
As long as what the pass remembers of scopes is true of the sheet, a new pass over it adds none. -/
theorem process_eq (hs : p.sheet.IsNumbered) (hrule : p.sheet.selector? rule = some selector)
    (haccepts : v.accepts selector = true) (happart : v.TellsApart selector) :
    (v.process p rule).sheet = v.withCopies p.sheet rule selector (v.absent p rule selector) ∧
      (v.process p rule).rules = p.rules ∧ (v.process p rule).diagnostics = p.diagnostics ∧
      ((p.scope rule).1 = (p.fresh.scope rule).1 →
        (v.process (v.process p rule).fresh rule).sheet = (v.process p rule).sheet ∧
          (v.process (v.process p rule).fresh rule).diagnostics = []) := by
  have hcopied := process_copied hs hrule haccepts happart
  refine ⟨hcopied.sheet, hcopied.rules, hcopied.diagnostics, fun hscope => ?_⟩
  have hfresh : v.Copied p.fresh rule selector (v.absent p rule selector) (v.process p rule).fresh :=
    ⟨hcopied.rules, rfl, hcopied.sheet⟩
  have habsent : v.absent p.fresh rule selector = v.absent p rule selector := by
    rw [absent, absent, ← hscope]
    rfl
  rw [← habsent] at hfresh
  have hnumbered : (v.process p rule).fresh.sheet.IsNumbered := by
    rw [hfresh.sheet]
    exact hs.copiesBefore _ rule
  have hstands : (v.process p rule).fresh.sheet.selector? rule = some selector := by
    rw [hfresh.sheet]
    exact selector?_withCopies hs hrule v _
  have hdone := absent_of_copied (p := p.fresh) hs hrule hfresh (scope_of_copied hs hrule hcopied)
  have hagain := process_copied hnumbered hstands haccepts happart
  rw [hdone] at hagain
  exact ⟨hagain.sheet.trans (Sheet.copiesBefore_nil _ _), hagain.diagnostics⟩

/-- Two prefixes are planned. -/
def placeholderVariants : SelectorVariants := .make "::placeholder" ["-webkit-", "-moz-"] ["-webkit-", "-moz-", "-ms-"]

/-- A rule for placeholders with a declaration, and above it one that Mozilla understands. -/
def placeholderPass : Pass where
  rules :=
    { (default : Rules) with
      selection := { agents := default, targets := [], vendors := ["-webkit-", "-moz-", "-ms-"] }
      options := {} }
  sheet := .ofRoot .root
    (.cons 1 (.rule "a::-moz-placeholder") .nil
      (.tree 2 (.rule "a::placeholder") (.tree 3 (.declaration "color" "red") .nil))) 4

/-- The one whose copy is not there is written, once. -/
theorem process_eq_placeholder :
    placeholderVariants.absent placeholderPass 2 "a::placeholder" = ["-webkit-"] ∧
      (placeholderVariants.process placeholderPass 2).sheet =
        placeholderVariants.withCopies placeholderPass.sheet 2 "a::placeholder"
          (placeholderVariants.absent placeholderPass 2 "a::placeholder") ∧
      (placeholderVariants.process (placeholderVariants.process placeholderPass 2).fresh 2).sheet =
        (placeholderVariants.process placeholderPass 2).sheet := by
  have hnumbered : placeholderPass.sheet.IsNumbered := ⟨by decide, by decide⟩
  have hrule : placeholderPass.sheet.selector? 2 = some "a::placeholder" := by decide +kernel
  have haccepts : placeholderVariants.accepts "a::placeholder" = true := by decide +kernel
  have happart : placeholderVariants.TellsApart "a::placeholder" := by decide +kernel
  obtain ⟨hsheet, -, -, hagain⟩ := process_eq hnumbered hrule haccepts happart
  exact ⟨by decide +kernel, hsheet, (hagain rfl).1⟩

end SelectorVariants

end VendorCss
