import VendorCss.Proofs.PlannedNames
import VendorCss.Proofs.RunBounds
import VendorCss.Proofs.Separated

/-!
# Vendors that are not planned

A vendor is planned if some handler of the rules has a prefix of it (`Rules.Plans`). Of any other vendor a run writes no
declaration, with three exceptions that do not ask the plan (`Prefixer.run_unplanned`):

* where grids are not left alone, named areas are placed by cells of `-ms-`;
* in a rule that is written for a vendor, the lists of `transition` and `transition-property` are written for it;
* a declaration of a vendor that no browser has gets copies with its values spelled for others.
-/

namespace VendorCss

/-! ## Selectors of cells -/

namespace Text

variable {needle : Text}

/-- Without a comma or a space a text stands in one of the joined ones. -/
theorem exists_infix_of_infix_join {ts : List Text} (hne : needle ≠ []) (hcomma : ',' ∉ needle) (hspace : ' ' ∉ needle)
    (h : needle <:+: join ", " ts) : ∃ t ∈ ts, needle <:+: t := by
  induction ts with
  | nil => exact absurd (List.eq_nil_of_infix_nil h) hne
  | cons t ts ih =>
    cases ts with
    | nil => exact ⟨t, List.mem_cons_self, h⟩
    | cons t' ts =>
      have hjoin : join ", " (t :: t' :: ts) = t ++ ',' :: ([] ++ ' ' :: join ", " (t' :: ts)) :=
        List.append_assoc t [',', ' '] _
      rw [hjoin] at h
      rcases infix_of_infix_append_cons hcomma h with h | h
      · exact ⟨t, List.mem_cons_self, h⟩
      · rcases infix_of_infix_append_cons hspace h with h | h
        · exact absurd (List.eq_nil_of_infix_nil h) hne
        · obtain ⟨u, hu, hinfix⟩ := ih h
          exact ⟨u, List.mem_cons_of_mem _ hu, hinfix⟩

end Text

namespace Grid

variable {vendor : Text}

theorem notMem_colon_vendor (h : Vendor.IsVendor vendor) : ∀ c ∈ ([',', ' ', '('] : List Char), c ∉ ':' :: vendor := by
  obtain ⟨word, _, hword, rfl⟩ := h
  intro c hc hmem
  have hfalse : ∀ c ∈ ([',', ' ', '('] : List Char), c ≠ ':' ∧ c ≠ '-' ∧ isAsciiWordChar c = false := by decide
  obtain ⟨hcolon, hdash, hno⟩ := hfalse c hc
  simp only [List.cons_append, List.mem_cons, List.mem_append, List.not_mem_nil, or_false, hcolon, hdash, false_or]
    at hmem
  rw [hword c hmem] at hno
  cases hno

/-- What is added for a cell names no vendor. -/
theorem infix_of_infix_cell (h : Vendor.IsVendor vendor) {part : Text} {nth : Nat}
    (hcell : ':' :: vendor <:+: part ++ " > *:nth-child(" ++ (Nat.repr nth).toList ++ [')']) :
    ':' :: vendor <:+: part := by
  have hno := notMem_colon_vendor h
  have happend : part ++ " > *:nth-child(".toList ++ (Nat.repr nth).toList ++ [')'] =
      part ++ ' ' :: ([">".toList, [' '], "*:nth-child".toList].flatten ++ '(' :: ((Nat.repr nth).toList ++ [')'])) := by
    rw [List.append_assoc, List.append_assoc]
    rfl
  rw [happend] at hcell
  rcases Text.infix_of_infix_append_cons (hno ' ' (by decide)) hcell with hcell | hcell
  · exact hcell
  rcases Text.infix_of_infix_append_cons (hno '(' (by decide)) hcell with hcell | hcell
  · -- a hyphen follows the colon of a vendor
    obtain ⟨word, _, _, rfl⟩ := h
    have hstart : [':', '-'] <:+: ':' :: ('-' :: word ++ ['-']) := ⟨[], word ++ ['-'], rfl⟩
    have hinfix := hstart.trans hcell
    rw [← Text.contains_iff] at hinfix
    exact absurd hinfix (by decide)
  · have hcolon : ':' ∈ (Nat.repr nth).toList ++ [')'] := hcell.subset List.mem_cons_self
    rcases List.mem_append.1 hcolon with hdigit | hclose
    · rw [Nat.repr, String.toList_ofList] at hdigit
      exact absurd (Nat.isDigit_of_mem_toDigits (by decide) (by decide) hdigit) (by decide)
    · exact absurd hclose (by decide)

/-- The selector of a cell is not written for another vendor than that of the grid. -/
theorem contains_of_cellSelector (h : Vendor.IsVendor vendor) {s : Text} {nth : Nat}
    (hcell : Text.contains (cellSelector (Separated.byComma s) nth) (':' :: vendor) = true) :
    Text.contains s (':' :: vendor) = true := by
  rw [Text.contains_iff] at hcell ⊢
  have hno := notMem_colon_vendor h
  obtain ⟨t, ht, hinfix⟩ := Text.exists_infix_of_infix_join (List.cons_ne_nil _ _) (hno ',' (by decide))
    (hno ' ' (by decide)) hcell
  obtain ⟨part, hpart, rfl⟩ := List.mem_map.1 ht
  exact (infix_of_infix_cell h hinfix).trans (Separated.infix_of_mem_byComma hpart)

end Grid

/-! ## Bounds for a vendor -/

/-- Some handler of the rules has a prefix of a vendor. -/
def Rules.Plans (r : Rules) (vendor : Text) : Prop :=
  (∃ v ∈ r.properties, ∃ planned ∈ v.prefixes, Vendor.vendorPart planned = vendor) ∨
    (∃ v ∈ r.values, ∃ planned ∈ v.prefixes, Vendor.vendorPart planned = vendor) ∨
    (∃ v ∈ r.selectors, ∃ planned ∈ v.prefixes, Vendor.vendorPart planned = vendor) ∨
    (∃ v ∈ r.atRules, ∃ planned ∈ v.prefixes, Vendor.vendorPart planned = vendor) ∨
    ∃ prefixes, r.resolution = some prefixes ∧ ∃ planned ∈ prefixes, Vendor.vendorPart planned = vendor

/-- A selector of a sheet, or one that a rule of it is copied under. -/
inductive Rules.Selects (r : Rules) (sheet : Sheet) : Text → Prop
  | written {id : Nat} {s : Text} (h : sheet.selector? id = some s) : Selects r sheet s
  | spelled {v : SelectorVariants} {planned s : Text} (hv : v ∈ r.selectors) (hplanned : planned ∈ v.prefixes)
      (h : Selects r sheet s) : Selects r sheet (v.spell s planned)

/-- What may be written for a vendor that is not planned. -/
inductive Rules.Unplanned (r : Rules) (sheet : Sheet) (vendor : Text) (d : Declaration) : Prop
  | written {id : Nat} (h : sheet.declaration? id = some d)
  /-- The cell of a named area. -/
  | cell (hgrids : ¬sheet.LeavesGrids r.options) (hms : vendor = "-ms-") (h : d.prop ∈ Grid.cellProperties)
  /-- A list of properties in a rule that is written for the vendor. -/
  | list {s list : Text} (hvendor : vendor ∈ r.selection.vendors) (hs : r.Selects sheet s)
      (hcontains : Text.contains s (':' :: vendor) = true) (hlist : list ∈ Transition.properties)
      (h : d.prop = vendor ++ list)
  /-- A declaration of a vendor that no browser has, with another value. -/
  | value {id : Nat} {d' : Declaration} (hvendor : vendor ∉ r.selection.vendors)
      (hd' : sheet.declaration? id = some d') (h : d.prop = d'.prop)

namespace Rules

open Vendor

variable {table : CapabilityTable} {selection : Selection} {options : Options} {sheet : Sheet} {v : Text}

/-- Declarations of a vendor are as may be written, and get spelled values only where no browser has the vendor. -/
def unplannedBounds (r : Rules) (sheet : Sheet) (v : Text) : Bounds where
  declares d := Vendor.ofName d.prop = v → r.Unplanned sheet v d
  selects := r.Selects sheet
  spells d _ := Vendor.ofName d.prop = v → v ∉ r.selection.vendors
  grids := ¬sheet.LeavesGrids r.options
  spells_setValue _ _ _ _ h := h

/-- A property of another vendor, or of none, may be written with any value. -/
theorem names_of_ofName_ne {r : Rules} {prop : Text} (h : Vendor.ofName prop ≠ v) :
    (r.unplannedBounds sheet v).Names prop := fun _ heq => absurd heq h

theorem names_of_vendor {r : Rules} {prop vendor : Text} (h : Vendor.ofName prop = vendor ∨ prop = "color-adjust")
    (hv : IsVendor v) (hne : vendor ≠ v) : (r.unplannedBounds sheet v).Names prop := by
  refine names_of_ofName_ne fun heq => ?_
  rcases h with h | rfl
  · exact hne (h.symm.trans heq)
  · exact hv.ne_nil heq.symm

/-- A property or a token has no prefix of a vendor that is not planned. -/
theorem ne_of_not_plans {r : Rules} (h : ¬r.Plans v) {planned vendor : Text} (hvendor : IsVendor vendor)
    (hplanned : IsFor planned vendor)
    (hmem : (∃ w ∈ r.properties, planned ∈ w.prefixes) ∨ ∃ w ∈ r.values, planned ∈ w.prefixes) : vendor ≠ v := by
  rintro rfl
  rcases hmem with ⟨w, hw, hmem⟩ | ⟨w, hw, hmem⟩
  · exact h (.inl ⟨w, hw, planned, hmem, hplanned.vendorPart hvendor⟩)
  · exact h (.inr (.inl ⟨w, hw, planned, hmem, hplanned.vendorPart hvendor⟩))

theorem allowsNames (htable : ∀ f ∈ table.features, ∀ s ∈ f.support, IsVendor s.vendor)
    (hselection : ∀ vendor ∈ selection.vendors, IsVendor vendor) (hv : IsVendor v)
    (hplans : ¬(compile table selection options).Plans v) :
    (((compile table selection options).unplannedBounds sheet v).withSelects fun s =>
      Text.contains s (':' :: v) = true →
        ∃ s', (compile table selection options).Selects sheet s' ∧ Text.contains s' (':' :: v) = true).AllowsNames
      (compile table selection options) where
  cells := fun s nth hs hcell => hs (Grid.contains_of_cellSelector hv hcell)
  names := by
    intro prop name w hhandles hw planned hplanned spelled hwrites
    obtain ⟨hmem, _, hdialect⟩ := eq_of_property? hw
    obtain ⟨vendor, hvendor, hfor⟩ := isFor_of_mem_properties htable hmem hplanned
    have hname : prop = name ∨ name ∈ PropertyDialect.gridNames := by
      cases hhandles with
      | own => exact .inl rfl
      | grid _ hname => exact .inr hname
    rw [hdialect] at hwrites
    exact names_of_vendor (PropertyDialect.ofName_of_writes hvendor hfor hname hwrites) hv
      (ne_of_not_plans hplans hvendor hfor (.inl ⟨w, hmem, hplanned⟩))
  lists := by
    intro prop hprop
    have hnone : ∀ p ∈ Transition.properties, Vendor.ofName p = [] := by decide
    exact names_of_ofName_ne fun heq => hv.ne_nil (heq.symm.trans (hnone prop hprop))
  listsPlanned := by
    intro prop hprop w hw planned hplanned
    obtain ⟨hmem, _, _⟩ := eq_of_property? hw
    obtain ⟨vendor, hvendor, hfor⟩ := isFor_of_mem_properties htable hmem hplanned
    exact names_of_vendor (.inl (hfor.ofName_append hvendor prop)) hv
      (ne_of_not_plans hplans hvendor hfor (.inl ⟨w, hmem, hplanned⟩))
  listsSelected := by
    intro prop hprop vendor hvendor s hs hcontains d heq
    obtain rfl : vendor = v := ((hselection vendor hvendor).ofName_append prop).symm.trans heq
    obtain ⟨s', hs', hcontains'⟩ := hs hcontains
    exact .list hvendor hs' hcontains' hprop rfl

theorem allowsValues (htable : ∀ f ∈ table.features, ∀ s ∈ f.support, IsVendor s.vendor) (hv : IsVendor v)
    (hplans : ¬(compile table selection options).Plans v) :
    ((compile table selection options).unplannedBounds sheet v).AllowsValues (compile table selection options) where
  values := by
    intro d _ _ w hw haccepts planned hplanned
    have hmem := mem_of_mem_applying hw
    obtain ⟨vendor, hvendor, hfor⟩ := isFor_of_mem_values htable hmem hplanned
    have hne : vendor ≠ v := ne_of_not_plans hplans hvendor hfor (.inr ⟨w, hmem, hplanned⟩)
    refine ⟨fun hnil => hvendor.ne_nil ?_, fun hscope _ known _ value _ heq hbrowser => ?_⟩
    · rcases hfor with rfl | ⟨note, rfl⟩
      · exact hnil
      · exact (List.append_eq_nil_iff.1 hnil).1
    · -- a declaration of a browser's vendor is in the scope of that vendor alone
      have hdash : d.prop.head? = some '-' := by
        cases hprop : d.prop with
        | nil =>
          rw [hprop] at heq
          exact absurd heq.symm hv.ne_nil
        | cons c rest =>
          by_cases hc : c = '-'
          · rw [hc]
            rfl
          · rw [hprop] at heq
            unfold Vendor.ofName at heq
            split at heq
            · rename_i hcons
              exact absurd (List.cons.inj hcons).1 hc
            · exact absurd heq.symm hv.ne_nil
      have hin := hscope hdash
      rw [Pass.prefixedScope, heq, Option.filter_some, if_pos (List.contains_iff_mem.2 hbrowser), Pass.inScope,
        Option.all_some, hfor.vendorPart hvendor] at hin
      exact hne (eq_of_beq hin).symm
  saving := by
    intro d value hd hspells heq
    have hbrowser := hspells heq
    cases hd heq with
    | written h => exact .value hbrowser h rfl
    | cell hgrids hms h => exact .cell hgrids hms h
    | list hvendor => exact absurd hvendor hbrowser
    | value hvendor hd' h => exact .value hvendor hd' h

end Rules

/-! ## Runs -/

namespace Prefixer

open Vendor

/-- **Vendors that are not planned.** A run writes no declaration for a vendor that no handler has a prefix of: each such
declaration stood in the sheet, or it is the cell of a named area, a list of properties in a rule that is written for
the vendor, or a copy of a declaration whose vendor no browser has. -/
theorem run_unplanned {table : CapabilityTable} {selection : Selection} {options : Options} {sheet : Sheet} {v : Text}
    (htable : ∀ f ∈ table.features, ∀ s ∈ f.support, IsVendor s.vendor)
    (hselection : ∀ vendor ∈ selection.vendors, IsVendor vendor) (hs : sheet.IsNumbered) (hv : IsVendor v)
    (hplans : ¬(Rules.compile table selection options).Plans v) :
    ∀ id d, ((compile table selection options).run sheet).sheet.declaration? id = some d → v <+: d.prop →
      (Rules.compile table selection options).Unplanned sheet v d := by
  rintro id d hd ⟨rest, hprop⟩
  let r := Rules.compile table selection options
  have hnodes : ∀ id n, sheet.node? id = some n → (r.unplannedBounds sheet v).Allows n := fun id n hn => {
    declaration := fun d hd _ => .written (show sheet.declaration? id = some d by rw [Sheet.declaration?, hn]; exact hd)
    selector := fun s hs => .written (show sheet.selector? id = some s by rw [Sheet.selector?, hn]; exact hs)
    switch := fun hgrids => (Classical.not_not.1 hgrids).switch hn }
  have hwithin := run_within (compile table selection options) hs hnodes
    (fun hgrids => (Classical.not_not.1 hgrids).1) _
    (fun w hw planned hplanned s hs => .spelled hw hplanned hs) (fun s hs hcontains => ⟨s, hs, hcontains⟩)
    (Rules.allowsNames htable hselection hv hplans)
    (fun hgrids prop hprop d heq => ?_) (Rules.allowsValues htable hv hplans)
  · refine hwithin.declares hd ?_
    rw [← hprop]
    exact hv.ofName_append rest
  · have hms : ∀ p ∈ Grid.cellProperties, Vendor.ofName p = "-ms-" := by decide
    exact .cell hgrids (heq.symm.trans (hms prop hprop)) hprop

/-- Two vendors, of which the table plans only the first. -/
def twoVendors : Selection := { Pass.userSelectSelection with vendors := ["-webkit-", "-moz-"] }

/-- A rule with a property of the second vendor. -/
def mozSheet : Sheet := Sheet.parse "a\x7b-moz-user-select:none;user-select:none\x7d"

/-- The declaration of the second vendor. -/
def mozDeclaration : Declaration := ⟨"-moz-user-select", "none", false⟩

theorem run_unplanned_moz :
    ((compile Pass.userSelectTable twoVendors {}).run mozSheet).sheet.declaration? 2 = some mozDeclaration ∧
      ("-moz-" : Text) <+: mozDeclaration.prop ∧ ∃ id', mozSheet.declaration? id' = some mozDeclaration := by
  have htable : ∀ f ∈ Pass.userSelectTable.features, ∀ s ∈ f.support, IsVendor s.vendor :=
    List.forall_mem_singleton.2 (List.forall_mem_singleton.2 ⟨"webkit", by decide, by decide, rfl⟩)
  have hvendors : ∀ vendor ∈ twoVendors.vendors, IsVendor vendor :=
    List.forall_mem_cons.2 ⟨⟨"webkit", by decide, by decide, rfl⟩,
      List.forall_mem_singleton.2 ⟨"moz", by decide, by decide, rfl⟩⟩
  let r := Rules.compile Pass.userSelectTable twoVendors {}
  obtain ⟨hproperties, hvalues, hselectors, hatRules, hresolution, hd⟩ :
      (∀ v ∈ r.properties, ∀ planned ∈ v.prefixes, vendorPart planned ≠ "-moz-") ∧ r.values.length = 0 ∧
        r.selectors.length = 0 ∧ r.atRules.length = 0 ∧ r.resolution = none ∧
        ((compile Pass.userSelectTable twoVendors {}).run mozSheet).sheet.declaration? 2 = some mozDeclaration := by
    decide +kernel
  have hplans : ¬r.Plans "-moz-" := by
    rintro (⟨v, hv, planned, hplanned, heq⟩ | ⟨v, hv, _⟩ | ⟨v, hv, _⟩ | ⟨v, hv, _⟩ | ⟨prefixes, h, _⟩)
    · exact hproperties v hv planned hplanned heq
    · exact absurd hv (List.eq_nil_of_length_eq_zero hvalues ▸ List.not_mem_nil)
    · exact absurd hv (List.eq_nil_of_length_eq_zero hselectors ▸ List.not_mem_nil)
    · exact absurd hv (List.eq_nil_of_length_eq_zero hatRules ▸ List.not_mem_nil)
    · rw [hresolution] at h
      cases h
  have hselects : ∀ s, r.Selects mozSheet s → s = "a" := by
    rintro s (@⟨id, _, h⟩ | ⟨hv, _, _⟩)
    · obtain ⟨n, hn, hs⟩ := Option.bind_eq_some_iff.1 h
      have hone : ∀ x ∈ mozSheet.nodes, ∀ s, x.2.selector? = some s → s = "a" := by decide
      exact hone _ (Sheet.mem_nodes_of_node? hn) s hs
    · exact absurd hv (List.eq_nil_of_length_eq_zero hselectors ▸ List.not_mem_nil)
  have hprop : ("-moz-" : Text) <+: mozDeclaration.prop := ⟨"user-select", rfl⟩
  refine ⟨hd, hprop, ?_⟩
  cases run_unplanned htable hvendors (Sheet.isNumbered_parse _) ⟨"moz", by decide, by decide, rfl⟩ hplans 2 _ hd
    hprop with
  | written h => exact ⟨_, h⟩
  | cell _ hms => exact absurd hms (by decide)
  | @list s _ _ hs hcontains =>
    rw [hselects s hs] at hcontains
    exact absurd hcontains (by decide)
  | value hvendor => exact absurd (by decide) hvendor

end Prefixer

end VendorCss
