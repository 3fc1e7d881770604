import VendorCss.Proofs.Condition
import VendorCss.Proofs.Pass.Sparing
import VendorCss.Proofs.PlannedNames
import VendorCss.Proofs.Sheet.Mapping

/-!
# What an update of `@supports` keeps

An update takes away outdated conditions and nothing else, and writes every other condition on its own: as it was, or as
an `or` of all its alternatives (`update_keeps`). The declaration that a condition tests is one of these, but for a
vendor's own property whose value is spelled for that vendor, among other alternatives (`Rules.Respells`).

The value that is tested ends at a second colon. So a condition that has one, such as `mask: url(http://x)`, comes back
cut, if it has several alternatives; every other one comes back whole.
-/

namespace VendorCss

/-! ## A declaration put into a rule -/

namespace Forest

variable {f k : Forest} {n : Node} {rule : Nat}

theorem notMem_of_find? (h : f.find? rule = none) : rule ∉ f.ids := fun hmem => by
  have hsome := find?_isSome hmem
  rw [h] at hsome
  cases hsome

theorem find?_appendTo (h : f.find? rule = some (n, k)) (new : Forest) :
    (appendTo rule new f).find? rule = some (n, k ++ new) := by
  induction f with
  | nil => cases h
  | cons i m l r ihl ihr =>
    rw [find?] at h
    rw [appendTo]
    split at h
    · rename_i hi
      obtain ⟨rfl, rfl⟩ : m = n ∧ l = k := by simpa using h
      rw [if_pos hi, find?, if_pos hi]
    · rename_i hi
      rw [if_neg hi, find?, if_neg hi]
      rcases Option.or_eq_some_iff.1 h with h | ⟨hnone, h⟩
      · rw [ihl h]
        rfl
      · rw [(puts_appendTo rule new).of_notMem (notMem_of_find? hnone), hnone, Option.none_or, ihr h]

end Forest

namespace Sheet

variable {s : Sheet} {rule : Nat} {d : Declaration} {n m : Node} {k : Forest}

/-- A new child of a node stands after the other ones. -/
theorem find?_insert (h : s.find? rule = some (n, k)) (m : Node) :
    (s.insert (.appended rule) m).2.find? rule = some (n, k ++ .tree s.next m .nil) := by
  rw [find?] at h ⊢
  show (s.runs.map _).findSome? _ = _
  generalize s.runs = runs at h ⊢
  induction runs with
  | nil => cases h
  | cons f runs ih =>
    rw [List.findSome?_cons] at h
    rw [List.map_cons, List.findSome?_cons]
    cases hf : f.find? rule with
    | some found =>
      rw [hf] at h
      obtain rfl := Option.some.inj h
      rw [Place.splice, Forest.find?_appendTo hf]
    | none =>
      rw [hf] at h
      rw [Place.splice, (Forest.puts_appendTo rule _).of_notMem (Forest.notMem_of_find? hf), hf]
      exact ih h

theorem stands_insert (hs : s.IsNumbered) (h : s.find? rule = some (n, k)) (hd : m.declaration? = some d) :
    (s.insert (.appended rule) m).2.Stands rule s.next d := by
  refine ⟨hs.splice (s.isFresh_tree m) (.appended rule), mem_childDeclarationsOf.2 ⟨n, _, find?_insert h m, m, ?_, hd⟩⟩
  rw [Forest.topNodes_append]
  exact List.mem_append_right _ List.mem_cons_self

theorem childDeclarations_sublist (s : Sheet) (id : Nat) : (s.childDeclarations id).Sublist (s.children id) := by
  rw [childDeclarations, childDeclarationsOf, children]
  induction s.kids id with
  | nil => exact .slnil
  | cons i n k r _ ih =>
    rw [Forest.topNodes, Forest.tops, List.filterMap_cons]
    dsimp only
    cases n.declaration? with
    | none => exact ih.cons i
    | some d => exact ih.cons_cons i

theorem setValue_eq_mapAt (hs : s.IsNumbered) (decl : Nat) (value : Text) :
    s.setValue decl value = s.mapAt [decl] (·.mapDeclaration fun d => { d with value }) := by
  rw [← modify_mapAt hs List.not_mem_nil, mapAt_nil]
  rfl

theorem declaration?_setValue (hs : s.IsNumbered) (decl : Nat) (value : Text) (id : Nat) :
    (s.setValue decl value).declaration? id =
      (s.declaration? id).map fun d => if id = decl then { d with value } else d := by
  rw [setValue_eq_mapAt hs, declaration?, declaration?, node?_mapAt]
  cases s.node? id with
  | none => rfl
  | some n =>
    obtain ⟨content, raws, source⟩ := n
    by_cases hid : id = decl <;> cases content <;> simp [hid, Node.mapDeclaration, Node.declaration?]

end Sheet

/-! ## The property of a condition -/

theorem Text.piecesBy_eq_cons (sep : Char → Bool) (t : Text) :
    ∃ ps, Text.piecesBy sep t = (t.takeWhile fun c => !sep c) :: ps := by
  induction t with
  | nil => exact ⟨[], rfl⟩
  | cons c t ih =>
    obtain ⟨ps, hps⟩ := ih
    rw [Text.piecesBy, List.takeWhile_cons]
    split
    · rename_i hc
      exact ⟨Text.piecesBy sep t, by simp [hc]⟩
    · rename_i hc
      rw [hps]
      exact ⟨ps, by simp [hc]⟩

theorem Text.piecesBy_append {sep : Char → Bool} {s : Text} (hs : ∀ c ∈ s, sep c = false) {c : Char} (hc : sep c = true)
    (t : Text) : Text.piecesBy sep (s ++ c :: t) = s :: Text.piecesBy sep t := by
  induction s with
  | nil => rw [List.nil_append, Text.piecesBy, if_pos hc]
  | cons a s ih =>
    rw [List.cons_append, Text.piecesBy, hs a List.mem_cons_self, ih fun b hb => hs b (List.mem_cons_of_mem _ hb)]
    rfl

/-- The property of a condition stands before the first colon, and its value goes on to the second one. -/
theorem Supports.declarationOf_eq {prop : Text} (hprop : ':' ∉ prop) (value : Text) :
    declarationOf (prop ++ ':' :: value) = (prop.trim, Text.trim (value.takeWhile (· != ':'))) := by
  obtain ⟨ps, hps⟩ := Text.piecesBy_eq_cons (· == ':') value
  have hpieces : Text.pieces ':' (prop ++ ':' :: value) = prop :: (value.takeWhile (· != ':')) :: ps := by
    rw [Text.pieces, Text.piecesBy_append (fun c hc => ?_) rfl, hps]
    · rfl
    · exact beq_eq_false_iff_ne.2 (ne_of_mem_of_not_mem hc hprop)
  rw [declarationOf, hpieces]

example : Supports.declarationOf "mask: url(http://x)" = (("mask" : Text), ("url(http" : Text)) := by decide

/-! ## Values spelled for the vendor of their own property -/

/-- A value is spelled for the vendor that its property has, and more is written for the property than this one value. -/
def Rules.Respells (r : Rules) (prop : Text) : Prop :=
  (∃ v ∈ r.valuesFor prop, Vendor.ofName prop ∈ v.prefixes) ∧
    (Vendor.ofName prop = [] ∨ r.property? prop ≠ none ∨
      ∃ v ∈ r.valuesFor prop, ∃ planned ∈ v.prefixes,
        planned ≠ Vendor.ofName prop ∧ Pass.inScope (Pass.prefixedScope r prop) planned = true)

theorem Vendor.head?_of_ofName {prop : Text} (h : Vendor.ofName prop ≠ []) : prop.head? = some '-' := by
  unfold Vendor.ofName at h
  split at h
  · rfl
  · exact absurd rfl h

namespace Pass

variable {p : Pass} {rule decl : Nat} {prop : Text}

/-- One declaration alone in a rule, of a property with a vendor, with its value spelled for that vendor only. -/
structure Alone (r : Rules) (rule decl : Nat) (prop : Text) (p : Pass) : Prop where
  rules : p.rules = r
  numbered : p.sheet.IsNumbered
  children : (p.sheet.children rule).length ≤ 1
  declaration : ∃ d, p.sheet.declaration? decl = some d ∧ d.prop = prop
  knows : p.Knows
  spells : p.SpellsOnly (· = Vendor.ofName prop)

namespace Alone

variable {r : Rules}

theorem process (h : p.Alone r rule decl prop) (hprop : Vendor.ofName prop ≠ []) {v : ValueVariants}
    (hv : ∀ planned ∈ v.prefixes, inScope (prefixedScope r prop) planned = true → planned = Vendor.ofName prop) :
    (v.process p decl).Alone r rule decl prop := by
  obtain ⟨d, hd, hdprop⟩ := h.declaration
  have hdash : d.prop.head? = some '-' := hdprop ▸ Vendor.head?_of_ofName hprop
  have hscope : (p.scope decl).1 = prefixedScope r prop := by
    rw [scope_of_prefixed h.knows hd hdash, h.rules, hdprop]
  have hsheet := v.sheet_process p decl
  obtain ⟨hrules, hknows⟩ := process_knows v p decl
  refine ⟨hrules.trans h.rules, hsheet ▸ h.numbered, hsheet ▸ h.children, hsheet ▸ h.declaration, ?_, ?_⟩
  · refine hknows h.numbered (fun hn => ?_) h.knows
    rw [Sheet.declaration?, hn] at hd
    cases hd
  · refine h.spells.process fun planned hplanned hin => hv planned hplanned ?_
    rwa [hscope] at hin

/-- The value goes into the declaration itself. -/
theorem saveValue (h : p.Alone r rule decl prop) {spelled : Text × Text} (hspelled : spelled.1 = Vendor.ofName prop) :
    (saveValue decl p spelled).Alone r rule decl prop := by
  obtain ⟨planned, value⟩ := spelled
  unfold Pass.saveValue
  dsimp only at hspelled ⊢
  split
  · rename_i d parent hd _
    obtain ⟨d', hd', hprop⟩ := h.declaration
    obtain rfl := Option.some.inj (hd'.symm.trans hd)
    split
    · exact h
    · rw [if_pos (by rw [hspelled, hprop])]
      have hprops : ∀ id e, (p.sheet.setValue decl value).declaration? id = some e →
          ∃ d, p.sheet.declaration? id = some d ∧ e.prop = d.prop := by
        intro id e he
        rw [Sheet.declaration?_setValue h.numbered] at he
        obtain ⟨d, hd, rfl⟩ := Option.map_eq_some_iff.1 he
        exact ⟨d, hd, by split <;> rfl⟩
      refine ⟨h.rules, h.numbered.modify decl _, ?_, ?_, fun x hx => ⟨(h.knows x hx).1, fun e he hdash => ?_⟩, h.spells⟩
      · rw [Pass.edit, Pass.withSheet, Sheet.setValue_eq_mapAt h.numbered, Sheet.children_mapAt]
        exact h.children
      · refine ⟨{ d' with value }, ?_, hprop⟩
        rw [Pass.edit, Pass.withSheet, Sheet.declaration?_setValue h.numbered, hd]
        simp
      · obtain ⟨d, hd, heq⟩ := hprops x.1 e he
        rw [heq] at hdash ⊢
        exact (h.knows x hx).2 d hd hdash
  · exact h

theorem addValues (h : p.Alone r rule decl prop) (hprop : Vendor.ofName prop ≠ [])
    (hv : ∀ v ∈ r.valuesFor prop, ∀ planned ∈ v.prefixes,
      inScope (prefixedScope r prop) planned = true → planned = Vendor.ofName prop) :
    (Supports.addValues prop p decl).Alone r rule decl prop := by
  have hspell : ∀ (vs : List ValueVariants) (q : Pass), q.Alone r rule decl prop → (∀ v ∈ vs, v ∈ r.valuesFor prop) →
      (vs.foldl (fun p v => v.process p decl) q).Alone r rule decl prop := by
    intro vs
    induction vs with
    | nil => exact fun _ hq _ => hq
    | cons v vs ih =>
      exact fun q hq hvs => ih _ (hq.process hprop (hv v (hvs v List.mem_cons_self))) fun w hw =>
        hvs w (List.mem_cons_of_mem _ hw)
  have hsave : ∀ (xs : List (Text × Text)) (q : Pass), q.Alone r rule decl prop →
      (∀ x ∈ xs, x.1 = Vendor.ofName prop) → (xs.foldl (Pass.saveValue decl) q).Alone r rule decl prop := by
    intro xs
    induction xs with
    | nil => exact fun _ hq _ => hq
    | cons x xs ih =>
      exact fun q hq hxs => ih _ (hq.saveValue (hxs x List.mem_cons_self)) fun y hy => hxs y (List.mem_cons_of_mem _ hy)
  have hspelled := hspell (p.rules.valuesFor prop) p h fun v hv => h.rules ▸ hv
  exact hsave _ _ hspelled fun x hx => hspelled.spells.spelledValues decl x hx

end Alone

end Pass

namespace Supports

variable {table : CapabilityTable} {selection : Selection} {options : Options}

/-- The declarations that stand for one are found by a pass over a rule in which it is alone. -/
theorem exists_pass (r : Rules) (prop value : Text) : ∃ (p : Pass) (rule decl : Nat), p.rules = r ∧ p.memory = {} ∧
    p.sheet.Stands rule decl { prop, value } ∧ p.sheet.children rule = [decl] ∧
    declarationsFor r prop value =
      let q := p.addVariantsOf decl prop
      let q := (q.sheet.childDeclarations rule).foldl (addValues prop) q
      (q.sheet.childDeclarationsOf rule).map fun (_, d) => (d.prop, d.value) := by
  let s := Sheet.parse ['a', '\x7b', '\x7d']
  have hfirst : s.firstChild? Sheet.rootId = some 1 := by decide +kernel
  have hkids : (s.find? 1).map Prod.snd = some .nil := by decide +kernel
  obtain ⟨⟨n, k⟩, hfind, rfl⟩ := Option.map_eq_some_iff.1 hkids
  refine ⟨{ rules := r, sheet := (s.insert (.appended 1) (.declaration prop value)).2 }, 1, s.next, rfl, rfl,
    Sheet.stands_insert (Sheet.isNumbered_parse _) hfind rfl, ?_, ?_⟩
  · rw [Sheet.children, Sheet.kids, Sheet.find?_insert hfind]
    rfl
  · unfold declarationsFor
    dsimp only
    rw [hfirst]
    rfl

/-- A declaration is among those that stand for it, or alone, or its value is spelled for the vendor of its property. -/
theorem mem_declarationsFor (prop value : Text) :
    let r := Rules.compile table selection options
    (prop, value) ∈ declarationsFor r prop value ∨ (declarationsFor r prop value).length ≤ 1 ∨ r.Respells prop := by
  intro r
  obtain ⟨p, rule, decl, hrules, hmemory, hstands, hchildren, heq⟩ := exists_pass r prop value
  rw [heq]
  by_cases hown : ∃ v ∈ r.valuesFor prop, Vendor.ofName prop ∈ v.prefixes
  · refine .inr ?_
    by_cases hmore : Vendor.ofName prop = [] ∨ r.property? prop ≠ none ∨
        ∃ v ∈ r.valuesFor prop, ∃ planned ∈ v.prefixes,
          planned ≠ Vendor.ofName prop ∧ Pass.inScope (Pass.prefixedScope r prop) planned = true
    · exact .inr ⟨hown, hmore⟩
    · -- nothing but the value itself may change
      simp only [not_or, not_exists, not_and] at hmore
      obtain ⟨hvendor, hproperty, hscope⟩ := hmore
      have hplain : p.addVariantsOf decl prop = p := by
        rw [Pass.addVariantsOf, hrules, not_ne_iff.1 hproperty]
      have halone : p.Alone r rule decl prop := by
        refine ⟨hrules, hstands.numbered, by rw [hchildren]; exact Nat.le_refl 1, ⟨_, hstands.declaration?, rfl⟩, ?_, ?_⟩
        · unfold Pass.Knows
          rw [hmemory]
          exact fun x hx => (List.not_mem_nil hx).elim
        · unfold Pass.SpellsOnly
          rw [hmemory]
          exact fun x hx => (List.not_mem_nil hx).elim
      have honly : p.sheet.childDeclarations rule = [decl] := by
        have hsub := p.sheet.childDeclarations_sublist rule
        rw [hchildren, List.sublist_singleton] at hsub
        refine hsub.resolve_left fun hnil => ?_
        have hmem : decl ∈ p.sheet.childDeclarations rule := List.mem_map_of_mem hstands.mem
        rw [hnil] at hmem
        cases hmem
      rw [hplain]
      dsimp only
      rw [honly, List.foldl_cons, List.foldl_nil, List.length_map, ← List.length_map (f := Prod.fst)]
      have hvalues := halone.addValues hvendor fun v hv planned hplanned hin => by
        by_contra hne
        exact hscope v hv planned hplanned hne hin
      exact .inl (Nat.le_trans (Sheet.childDeclarations_sublist _ rule).length_le hvalues.children)
  · refine .inl (List.mem_map.2 ⟨(decl, { prop, value }), ?_, rfl⟩)
    -- copies come beside the declaration, and values go into copies
    let kind (planned : Text) : Prop := ∃ v ∈ r.valuesFor prop, planned ∈ v.prefixes
    have hcopies : p.Spares rule decl { prop, value } (p.addVariantsOf decl prop) := by
      unfold Pass.addVariantsOf
      rw [hrules]
      split
      · rename_i v hv
        refine v.process_spares (fun hareas => ?_) p
        have hfamily := PropertyDialect.mem_family_ofName prop
        rw [← (Rules.eq_of_property? hv).2.2, hareas] at hfamily
        dsimp only
        rw [List.mem_singleton.1 (hfamily.resolve_left nofun)]
        decide
      · exact .refl p
    have hwrites : (p.addVariantsOf decl prop).Writes r kind rule decl { prop, value } := by
      refine ⟨hcopies.rules.trans hrules, hcopies.stands hstands, ?_⟩
      unfold Pass.SpellsOnly
      rw [hcopies.values, hmemory]
      exact fun x hx => (List.not_mem_nil hx).elim
    have hfold : ∀ (is : List Nat) (q : Pass), q.Writes r kind rule decl { prop, value } →
        (is.foldl (addValues prop) q).Writes r kind rule decl { prop, value } := by
      intro is
      induction is with
      | nil => exact fun _ hq => hq
      | cons i is ih =>
        exact fun q hq => ih _ (hq.addValues hown (fun v hv planned hplanned => ⟨v, hv, hplanned⟩) i)
    exact (hfold _ _ hwrites).stands.mem

/-- The condition that a declaration makes is among those written for it. -/
theorem mem_written {prop : Text} (hprop : ':' ∉ prop) (value : Text) :
    let r := Rules.compile table selection options
    let c := prop ++ ':' :: value
    ConditionPiece.written (alternatives r) c = [c] ∨
      ConditionPiece.ofDeclaration (prop.trim, Text.trim (value.takeWhile (· != ':'))) ∈
        ConditionPiece.written (alternatives r) c ∨
      r.Respells prop.trim := by
  intro r c
  unfold ConditionPiece.written
  split
  · rename_i hlength
    refine .inr ?_
    rw [alternatives, declarationOf_eq hprop] at hlength ⊢
    dsimp only at hlength ⊢
    split at hlength
    · exact absurd hlength (Nat.lt_irrefl 1)
    · rename_i hleft
      rw [if_neg hleft]
      rcases mem_declarationsFor prop.trim (Text.trim (value.takeWhile (· != ':'))) with hmem | hle | hrespells
      · exact .inl (List.mem_map_of_mem hmem)
      · exact absurd hlength (Nat.not_lt.2 hle)
      · exact .inr hrespells
  · exact .inl rfl

open ConditionPiece

/-- What an update of params does to their conditions. Reading loses none of the text. Conditions that are not outdated
are kept, in their order, and each of the kept ones is written on its own: all these stand in the new params. A kept
condition is left as it was, or its property is tested, with the value up to a further colon, among the alternatives
that stand for it; but for values that are spelled for the vendor of their own property. -/
theorem update_keeps (table : CapabilityTable) (selection : Selection) (options : Options) (params : Text) :
    let x := Prefixer.compile table selection options
    let outdated := isOutdated x.cleaner.get params
    let read := normalize (ofText params)
    let kept := dropAlternatives outdated false read
    (∃ n, renderAll read = params ++ List.replicate n ')') ∧
    ((conditions read).filter fun c => !outdated c).Sublist (conditions kept) ∧
    (∃ out, update x params = renderAll out ∧
      conditions out = (conditions kept).flatMap (written (alternatives x.aware.get)) ∧
      ∀ c ∈ conditions out, '(' :: c ++ [')'] <:+: update x params) ∧
    ∀ prop value : Text, ':' ∉ prop → prop ++ ':' :: value ∈ conditions kept →
      written (alternatives x.aware.get) (prop ++ ':' :: value) = [prop ++ ':' :: value] ∨
        ofDeclaration (prop.trim, Text.trim (value.takeWhile (· != ':'))) ∈
          written (alternatives x.aware.get) (prop ++ ':' :: value) ∨
        x.aware.get.Respells prop.trim := by
  intro x outdated read kept
  refine ⟨?_, filter_sublist_dropAlternatives outdated false read, ?_, fun prop value hprop _ => mem_written hprop value⟩
  · exact ⟨_, (renderAll_normalize _).trans (renderAll_ofText params)⟩
  · refine ⟨unwrap (addAlternatives (alternatives x.aware.get) kept), rfl, ?_, fun c hc => infix_renderAll _ hc⟩
    rw [conditions_unwrap, conditions_addAlternatives]

/-- A property that one browser has under a prefix, which understands `@supports`. -/
def maskTable : CapabilityTable where
  features :=
    [{ name := "css-masks", names := ["mask"], support := [⟨⟨"chrome", "30"⟩, "-webkit-", none⟩],
       props := none, mistakes := [], selector := false }]
  featureQueries := [⟨"chrome", "30"⟩]

/-- That browser. -/
def maskSelection : Selection where
  agents := default
  targets := [⟨"chrome", "30"⟩]
  vendors := ["-webkit-"]

theorem update_keeps_mask : ofDeclaration ("mask", "none") ∈
    written (alternatives (Prefixer.compile maskTable maskSelection {}).aware.get) "mask:none" := by
  have hkeeps := (update_keeps maskTable maskSelection {} "(mask:none)").2.2.2 "mask" "none" (by decide)
    (by decide +kernel)
  obtain ⟨hseveral, hnone⟩ : written (alternatives (Prefixer.compile maskTable maskSelection {}).aware.get) "mask:none" ≠
      [("mask:none" : Text)] ∧ ((Prefixer.compile maskTable maskSelection {}).aware.get.valuesFor "mask").isEmpty = true := by
    decide +kernel
  refine (hkeeps.resolve_left hseveral).resolve_right fun ⟨⟨v, hv, _⟩, _⟩ => ?_
  rw [List.isEmpty_iff] at hnone
  have hno : v ∈ (Prefixer.compile maskTable maskSelection {}).aware.get.valuesFor "mask" := hv
  rw [hnone] at hno
  cases hno

end Supports

end VendorCss
