import VendorCss.Pass.Removal
import VendorCss.Proofs.Resolution
import VendorCss.Proofs.Sheet.Mapping

/-!
# Resolutions in media queries, edited by a pass

The params of a rule are the only thing that changes when queries are written for vendors or taken away. Written and
taken away again, they leave the queries as they were (`Pass.dropResolutions_addResolutions`).

An `@media` rule that speaks of a resolution loses the queries that name a ratio of an outdated vendor
(`Pass.cleanAtRule_media`). It still speaks of a resolution afterwards, unless a query that does so names such a ratio as
well; a rule in which every query names one loses them all.
-/

namespace VendorCss

/-! ## The params of a rule -/

theorem Node.atRule?_mapAtRule (n : Node) (f : AtRule → AtRule) : (n.mapAtRule f).atRule? = n.atRule?.map f := by
  obtain ⟨content, raws, source⟩ := n
  cases content <;> rfl

namespace Sheet

variable {s : Sheet} {rule : Nat}

theorem atRule?_setParams (params : Text) :
    (s.setParams rule params).atRule? rule = (s.atRule? rule).map fun r => { r with params } := by
  rw [setParams, atRule?, atRule?, node?_modify]
  cases s.node? rule with
  | none => rfl
  | some n => exact n.atRule?_mapAtRule _

theorem setParams_setParams (params params' : Text) :
    (s.setParams rule params).setParams rule params' = s.setParams rule params' := by
  have hnode :
      (fun n : Node => (n.mapAtRule fun r => { r with params }).mapAtRule fun r => { r with params := params' }) =
        fun n => n.mapAtRule fun r => { r with params := params' } := by
    funext n
    obtain ⟨content, raws, source⟩ := n
    cases content <;> rfl
  rw [setParams, setParams, setParams, modify_modify, hnode]

end Sheet

namespace Pass

open Resolution (IsStandard SpeaksTo keptQueries)

variable {p : Pass} {rule : Nat} {r : AtRule} {vendors : List Text}

theorem editParams_eq (h : p.sheet.atRule? rule = some r) (f : Text → Text) :
    p.editParams rule f = p.edit fun s => s.setParams rule (f r.params) := by
  rw [editParams, h]

/-! ## Written and taken away again -/

/-- Queries of vendors that are written outside the scope of any vendor and taken away again leave the queries of a rule
as they were, each at its first place only, if these are closed, name no ratio and spell their bounds in small letters.
Between them stands what stood between the first two, unless the first query holds a comma of its own. -/
theorem dropResolutions_addResolutions {P Q : List Text} (hrule : p.sheet.atRule? rule = some r)
    (hscope : (p.scope rule).1 = none) (hP : ∀ v ∈ P, Vendor.IsVendor v) (hsub : P ⊆ Q)
    (hqs : ∀ q ∈ Separated.byComma r.params, IsStandard q) :
    ∃ first ∈ (Separated.byComma r.params).head?, ((p.addResolutions P rule).dropResolutions Q rule).sheet =
      p.sheet.setParams rule
        (Text.join (if ',' ∈ first then Resolution.separator first
          else (Separated.firstSeparator? r.params).getD ", ") (Text.distinct (Separated.byComma r.params))) := by
  obtain ⟨facts, hfacts, -⟩ := p.scope_learns rule
  obtain ⟨first, hfirst, hparams⟩ := Resolution.exists_dropQueries_addQueries hP hsub hqs
  refine ⟨first, hfirst, ?_⟩
  have hadded : (p.addResolutions P rule).sheet =
      p.sheet.setParams rule (Resolution.addQueries P r.params) := by
    rw [addResolutions]
    dsimp only
    rw [hscope, hfacts, editParams_eq (p := p.withScopes facts) hrule]
    rfl
  have hrule' : (p.addResolutions P rule).sheet.atRule? rule =
      some { r with params := Resolution.addQueries P r.params } := by
    rw [hadded, Sheet.atRule?_setParams, hrule]
    rfl
  rw [dropResolutions, editParams_eq hrule', ← hparams]
  show (p.addResolutions P rule).sheet.setParams rule _ = _
  rw [hadded, Sheet.setParams_setParams]

/-- An `@media` rule alone. -/
def mediaPass (params : Text) : Pass where
  rules :=
    { (default : Rules) with
      selection := { agents := default, targets := [], vendors := ["-webkit-", "-moz-"] }
      options := {}
      outdatedResolution := some ["-webkit-"] }
  sheet := .ofRoot .root (.tree 1 (.atRule "media" params) (.tree 2 (.rule "a") .nil)) 3

/-- The comma in the quotes of the first query is taken for the one between the queries. -/
theorem dropResolutions_addResolutions_quoted :
    (((mediaPass "(x:'a, b'),(min-resolution:2dppx)").addResolutions ["-webkit-"] 1).dropResolutions
        ["-moz-", "-webkit-"] 1).sheet =
      (mediaPass "(x:'a, b'),(min-resolution:2dppx)").sheet.setParams 1 "(x:'a, b'), (min-resolution:2dppx)" := by
  have hvendors : ∀ v ∈ (["-webkit-"] : List Text), Vendor.IsVendor v := by
    intro v hv
    refine Vendor.isVendor_of_known ?_
    revert v
    decide
  have hqueries : Separated.byComma "(x:'a, b'),(min-resolution:2dppx)" =
      (["(x:'a, b')", "(min-resolution:2dppx)"] : List Text) := by decide +kernel
  have hstandard : ∀ q ∈ Separated.byComma "(x:'a, b'),(min-resolution:2dppx)", IsStandard q := by
    rw [hqueries]
    intro q hq
    simp only [List.mem_cons, List.not_mem_nil, or_false] at hq
    rcases hq with rfl | rfl
    · exact ⟨by decide, by decide +kernel, by decide +kernel, by decide +kernel⟩
    · exact ⟨by decide, by decide +kernel, by decide +kernel, by decide +kernel⟩
  have hrule : (mediaPass "(x:'a, b'),(min-resolution:2dppx)").sheet.atRule? 1 =
      some { name := "media", params := "(x:'a, b'),(min-resolution:2dppx)" } := by decide +kernel
  obtain ⟨first, hfirst, hsheet⟩ := dropResolutions_addResolutions (P := ["-webkit-"]) (Q := ["-moz-", "-webkit-"])
    hrule (by decide +kernel) hvendors (by decide) hstandard
  rw [hqueries] at hfirst
  obtain rfl := Option.some.inj hfirst
  exact hsheet.trans (congrArg (Sheet.setParams _ 1) (by decide +kernel))

/-! ## Outdated queries -/

/-- An `@media` rule that speaks of a resolution keeps the queries that name no ratio of an outdated vendor. All are lost
where every query names one; but the rule has queries left and still speaks of a resolution, unless a query that does so
names such a ratio as well. -/
theorem cleanAtRule_media (hrule : p.sheet.atRule? rule = some r) (hremoved : p.rules.removesAtRule r.name = false)
    (hname : r.name = "media") (hparams : r.params.contains "-resolution" = true)
    (hvendors : p.rules.outdatedResolution = some vendors) :
    (p.cleanAtRule rule).sheet =
        p.sheet.setParams rule (Text.join (Resolution.separator r.params) (keptQueries vendors r.params)) ∧
      (keptQueries vendors r.params = [] ↔ ∀ q ∈ Separated.byComma r.params, SpeaksTo vendors q) ∧
      ((∀ q ∈ Separated.byComma r.params, q.contains "-resolution" = true → ¬SpeaksTo vendors q) →
        keptQueries vendors r.params ≠ [] ∧ Text.contains
          (Text.join (Resolution.separator r.params) (keptQueries vendors r.params)) "-resolution" = true) := by
  refine ⟨?_, ?_, fun hapart => ?_⟩
  · rw [cleanAtRule, hrule]
    dsimp only
    rw [hremoved, if_neg Bool.false_ne_true, if_pos (by rw [hname, hparams]; rfl), hvendors]
    dsimp only
    rw [dropResolutions, editParams_eq hrule, Resolution.dropQueries_eq]
    rfl
  · rw [keptQueries, List.filter_eq_nil_iff]
    simp
  · obtain ⟨q, hq, hin⟩ := Separated.exists_mem_byComma (List.cons_ne_nil _ _) (by decide) (by decide)
      (Text.contains_iff.1 hparams)
    have hkept : q ∈ keptQueries vendors r.params :=
      List.mem_filter.2 ⟨hq, decide_eq_true (hapart q hq (Text.contains_iff.2 hin))⟩
    exact ⟨List.ne_nil_of_mem hkept, Text.contains_iff.2 (hin.trans (Text.infix_join_of_mem hkept _))⟩

/-- A rule whose only query joins a ratio and a resolution applies everywhere afterwards. -/
theorem cleanAtRule_media_joined :
    ((mediaPass "(-webkit-min-device-pixel-ratio:2) and (min-resolution:2dppx)").cleanAtRule 1).sheet =
      (mediaPass "(-webkit-min-device-pixel-ratio:2) and (min-resolution:2dppx)").sheet.setParams 1 [] := by
  have hrule : (mediaPass "(-webkit-min-device-pixel-ratio:2) and (min-resolution:2dppx)").sheet.atRule? 1 =
      some { name := "media", params := "(-webkit-min-device-pixel-ratio:2) and (min-resolution:2dppx)" } := by
    decide +kernel
  obtain ⟨hsheet, -, -⟩ := cleanAtRule_media hrule (by decide +kernel) rfl (by decide +kernel) rfl
  exact hsheet.trans (congrArg (Sheet.setParams _ 1) (by decide +kernel))

end Pass

end VendorCss
