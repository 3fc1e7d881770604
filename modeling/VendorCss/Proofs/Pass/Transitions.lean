import VendorCss.Proofs.Component.CommaLists
import VendorCss.Proofs.Pass.Addition
import VendorCss.Proofs.Sheet.Mapping

/-!
# Lists of transitions

When prefixed properties are added to a list of transitions, the list is printed anew. Its entries are read back in
their order, and after them the copies with prefixed names (`Pass.addTransitions_entries`): no entry is lost, split, or
joined with another. This is so for comma lists (`Text.IsCommaList`) and for rules that name properties by identifiers
(`Rules.NamesPlainly`).

An entry of the author has its comma with it, but for the last one, and so have the copies. An entry without a comma
borrows the first comma of the list. Both are the same piece of the list, an entry and the comma after it
(`Transition.Prints`).
-/

namespace VendorCss

open Component

/-- The properties with variants, and their prefixed names, are identifiers. -/
def Rules.NamesPlainly (r : Rules) : Prop :=
  ∀ v ∈ r.properties, ∀ planned ∈ v.prefixes,
    Token.isIdent v.name = true ∧ Token.isIdent (PropertyName.prefixed v.name planned) = true

namespace Transition

variable {sep c d : Component} {g e : Entry} {es : List Entry} {p : Entry × Component} {ps : List (Entry × Component)}
  {old new value : Text}

/-! ## Entries with and without commas -/

/-- An entry with its comma, or an entry that borrows one. -/
def Covers (sep : Component) (e : Entry) (p : Entry × Component) : Prop := e = p.1 ++ [p.2] ∨ e = p.1 ∧ p.2 = sep

theorem covers_cutAtCommas (sep : Component) (cs : List Component) :
    List.Forall₂ (Covers sep) (cutAtCommas cs) (pieces sep cs) := by
  induction cs with
  | nil => exact .cons (.inr ⟨rfl, rfl⟩) .nil
  | cons c cs ih =>
    rw [cutAtCommas, pieces]
    split
    · exact .cons (.inl rfl) ih
    · generalize cutAtCommas cs = es, pieces sep cs = ps at ih
      cases ih with
      | nil => exact .cons (.inr ⟨rfl, rfl⟩) .nil
      | cons hcovers hrest =>
        refine .cons ?_ hrest
        rcases hcovers with rfl | ⟨rfl, rfl⟩
        · exact .inl rfl
        · exact .inr ⟨rfl, rfl⟩

theorem flatten_cutAtCommas (cs : List Component) : (cutAtCommas cs).flatten = cs := by
  induction cs with
  | nil => rfl
  | cons c cs ih =>
    rw [cutAtCommas]
    split
    · rw [List.flatten_cons, ih, List.singleton_append]
    · split
      · rename_i hnil
        rw [hnil] at ih
        rw [← ih]
        rfl
      · rename_i e es heq
        rw [heq, List.flatten_cons] at ih
        rw [List.flatten_cons, List.cons_append, ih]

/-- The comma after an entry is not part of what it says. -/
theorem propertyOf_concat (hg : g ≠ []) (hc : c.isWord = false) : propertyOf (g ++ [c]) = propertyOf g := by
  obtain ⟨d, g, rfl⟩ := List.exists_cons_of_ne_nil hg
  simp [propertyOf, List.find?_append, hc]

theorem rename_concat (hc : c.isWord = false) (old new : Text) (g : Entry) :
    rename old new (g ++ [c]) = rename old new g ++ [c] := by
  induction g with
  | nil => simp [rename, hc]
  | cons d g ih =>
    rw [List.cons_append, rename, rename]
    split
    · rfl
    · rw [ih, List.cons_append]

/-- The first word that is the name is replaced, if there is one. -/
theorem rename_cases (old new : Text) (g : Entry) : (word old ∉ g ∧ rename old new g = g) ∨
    ∃ fs gs, word old ∉ fs ∧ g = fs ++ word old :: gs ∧ rename old new g = fs ++ word new :: gs := by
  induction g with
  | nil => exact .inl ⟨List.not_mem_nil, rfl⟩
  | cons c g ih =>
    rw [rename]
    split
    · rename_i h
      cases c with
      | word t =>
        obtain rfl : t = old := of_decide_eq_true (Bool.and_eq_true_iff.1 h).2
        exact .inr ⟨[], g, List.not_mem_nil, rfl, rfl⟩
      | _ => simp [isWord] at h
    · rename_i h
      have hc : word old ≠ c := by
        rintro rfl
        exact h (Bool.and_eq_true_iff.2 ⟨rfl, decide_eq_true rfl⟩)
      rcases ih with ⟨hmem, heq⟩ | ⟨fs, gs, hmem, rfl, heq⟩
      · exact .inl ⟨List.not_mem_cons_of_ne_of_not_mem hc hmem, by rw [heq]⟩
      · exact .inr ⟨c :: fs, gs, List.not_mem_cons_of_ne_of_not_mem hc hmem, rfl, by rw [heq, List.cons_append]⟩

/-! ## The copies -/

/-- A planned prefix gives no copy: the rule is for other vendors, the name would be the transform of Internet Explorer,
flexbox is left alone, or the name is listed already. -/
def isLeftOut (r : Rules) (vendors : Option (List Text)) (names : List Text) (name planned : Text) : Bool :=
  (vendors.any fun vs => vs.all fun v => !Text.contains planned v) ||
    PropertyName.prefixed name planned = "-ms-transform" || leavesAlone r.options name planned ||
    names.contains (PropertyName.prefixed name planned)

/-- The copies of entries: for each entry and each planned prefix of its property that is not left out, the entry with
the prefixed name. -/
def copies (r : Rules) (vendors : Option (List Text)) (es : List Entry) : List Entry :=
  es.flatMap fun e =>
    let planned := ((r.property? (propertyOf e)).map PropertyVariants.prefixes).getD []
    (planned.filter fun p => !isLeftOut r vendors (es.map propertyOf) (propertyOf e) p).map fun p =>
      rename (propertyOf e) (PropertyName.prefixed (propertyOf e) p) e

theorem prefixedNames_eq (r : Rules) (vendors : Option (List Text)) (names : List Text) (name : Text) :
    prefixedNames r vendors names name =
      ((((r.property? name).map PropertyVariants.prefixes).getD []).filter fun p =>
        !isLeftOut r vendors names name p).map (PropertyName.prefixed name) := by
  rw [prefixedNames]
  simp only [List.filter_map, List.filter_filter]
  refine congrArg _ (List.filter_congr fun p _ => ?_)
  have hscope : (vendors.all fun vs => vs.any (Text.contains p)) =
      !vendors.any fun vs => vs.all fun v => !Text.contains p v := by
    cases vendors with
    | none => rfl
    | some vs => exact List.any_eq_not_all_not
  rw [isLeftOut, hscope, Function.comp_apply, decide_not, Bool.not_or, Bool.not_or, Bool.not_or]
  ac_rfl

theorem additions_eq (r : Rules) (vendors : Option (List Text)) (es : List Entry) :
    additions r vendors es = copies r vendors es := by
  simp only [additions, copies, prefixedNames_eq, List.map_map]
  rfl

/-- The additions to entries with commas. -/
def addedPieces (r : Rules) (vendors : Option (List Text)) (ps : List (Entry × Component)) : List (Entry × Component) :=
  ps.flatMap fun p => (prefixedNames r vendors (ps.map fun p => propertyOf p.1) (propertyOf p.1)).map fun new =>
    (rename (propertyOf p.1) new p.1, p.2)

theorem map_fst_addedPieces (r : Rules) (vendors : Option (List Text)) (ps : List (Entry × Component)) :
    (addedPieces r vendors ps).map Prod.fst = additions r vendors (ps.map Prod.fst) := by
  simp only [addedPieces, additions, List.map_flatMap, List.flatMap_map, List.map_map]
  rfl

/-- An entry to print, with its comma or without. -/
structure Prints (sep : Component) (e : Entry) (p : Entry × Component) : Prop where
  piece : IsPiece p
  covers : Covers sep e p

namespace Prints

variable {sep : Component} {e : Entry} {p : Entry × Component}

theorem ne_nil (h : Prints sep e p) : e ≠ [] := by
  rcases h.covers with rfl | ⟨rfl, -⟩
  · exact List.concat_ne_nil _ _
  · exact h.piece.entry.ne

theorem isWord_comma (h : Prints sep e p) : p.2.isWord = false := by
  obtain ⟨_, _, heq, -⟩ := h.piece.comma
  rw [heq]
  rfl

theorem propertyOf_eq (h : Prints sep e p) : propertyOf e = propertyOf p.1 := by
  rcases h.covers with rfl | ⟨rfl, -⟩
  · exact propertyOf_concat h.piece.entry.ne h.isWord_comma
  · rfl

/-- An entry without a comma borrows one. -/
theorem closed_eq (h : Prints sep e p) : closed sep e = p.1 ++ [p.2] := by
  obtain ⟨before, after, hcomma, -⟩ := h.piece.comma
  rcases h.covers with rfl | ⟨rfl, rfl⟩
  · rw [closed, List.getLast?_concat, hcomma]
    rfl
  · rw [closed, if_neg]
    rw [List.getLast?_eq_some_getLast h.piece.entry.ne, Option.any_some]
    exact Bool.eq_false_iff.1 (isAnyDiv_of_isFirm (h.piece.entry.last _ (List.getLast?_eq_some_getLast _)))

/-- A copy of an entry with another name has the comma of the entry. -/
theorem renamed (h : Prints sep e p) {old new : Text} (hold : Token.isIdent old = true)
    (hnew : Token.isIdent new = true) : Prints sep (rename old new e) (rename old new p.1, p.2) where
  piece := by
    obtain ⟨g, c⟩ := p
    rcases rename_cases old new g with ⟨-, heq⟩ | ⟨fs, gs, -, rfl, heq⟩
    · rw [heq]
      exact h.piece
    · rw [heq]
      obtain ⟨before, after, hcomma, hbefore, hafter, xs, x, hstands⟩ := h.piece.comma
      have hstands' := hstands.renamed h.piece.entry.chain hold hnew
      exact ⟨h.piece.entry.renamed new, before, after, hcomma, hbefore, hafter, hstands'.imp fun xs' h => ⟨x, h⟩⟩
  covers := by
    rcases h.covers with rfl | ⟨rfl, hsep⟩
    · exact .inl (rename_concat h.isWord_comma old new p.1)
    · exact .inr ⟨rfl, hsep⟩

end Prints

theorem isIdent_of_mem_prefixedNames {r : Rules} (hr : r.NamesPlainly) {vendors : Option (List Text)}
    {names : List Text} {name new : Text} (hnew : new ∈ prefixedNames r vendors names name) :
    Token.isIdent name = true ∧ Token.isIdent new = true := by
  obtain ⟨hmem, -⟩ := List.mem_filter.1 hnew
  obtain ⟨planned, hplanned, rfl⟩ := List.mem_map.1 hmem
  have hplanned := List.mem_of_mem_filter (List.mem_of_mem_filter hplanned)
  cases hv : r.property? name with
  | none =>
    rw [hv] at hplanned
    cases hplanned
  | some v =>
    rw [hv] at hplanned
    have hfound : r.properties.find? (fun v => v.name == name) = some v := hv
    have hname := List.find?_some hfound
    exact eq_of_beq (α := Text) hname ▸ hr v (List.mem_of_find?_eq_some hfound) planned hplanned

theorem isPiece_of_prints (h : List.Forall₂ (Prints sep) es ps) : ∀ p ∈ ps, IsPiece p := by
  induction h with
  | nil => exact fun _ hp => (List.not_mem_nil hp).elim
  | cons hp _ ih => exact List.forall_mem_cons.2 ⟨hp.piece, ih⟩

/-- The entries of a value are its pieces. -/
theorem prints_entries (h : ∀ p ∈ pieces sep (ofText value), IsPiece p) :
    List.Forall₂ (Prints sep) (entries value) (pieces sep (ofText value)) := by
  have hcovers := covers_cutAtCommas sep (ofText value)
  rw [entries]
  generalize cutAtCommas (ofText value) = es, pieces sep (ofText value) = ps at h hcovers
  induction hcovers with
  | nil => exact .nil
  | cons hcovers _ ih =>
    rw [List.forall_mem_cons] at h
    have hprints : Prints sep _ _ := ⟨h.1, hcovers⟩
    rw [List.filter_cons_of_pos (by simp [hprints.ne_nil])]
    exact .cons hprints (ih h.2)

theorem prints_additions {r : Rules} (hr : r.NamesPlainly) (vendors : Option (List Text))
    (h : List.Forall₂ (Prints sep) es ps) :
    List.Forall₂ (Prints sep) (additions r vendors es) (addedPieces r vendors ps) := by
  have hnames : es.map propertyOf = ps.map fun p => propertyOf p.1 := by
    rw [← List.forall₂_eq_eq_eq, List.forall₂_map_left_iff, List.forall₂_map_right_iff]
    exact h.imp fun _ _ => Prints.propertyOf_eq
  rw [additions, addedPieces, hnames]
  refine List.rel_flatMap h fun e p hp => ?_
  rw [hp.propertyOf_eq, List.forall₂_map_left_iff, List.forall₂_map_right_iff, List.forall₂_same]
  intro new hnew
  obtain ⟨hold, hnew⟩ := isIdent_of_mem_prefixedNames hr hnew
  exact hp.renamed hold hnew

theorem withoutOuterDivs_concat (hc : c.isAnyDiv = false) (hd : d.isAnyDiv = true) (cs : List Component) :
    withoutOuterDivs (c :: cs ++ [d]) = c :: cs := by
  have hhead : ((c :: cs ++ [d]).head?).any isAnyDiv = false := hc
  have hlast : ((c :: cs ++ [d]).getLast?).any isAnyDiv = true := by
    rw [List.getLast?_concat]
    exact hd
  rw [withoutOuterDivs, hhead, if_neg Bool.false_ne_true, hlast, if_pos rfl, List.dropLast_concat]

/-- What is printed of entries is the list of them. -/
theorem render_eq (hsep : separator es = sep) (h : List.Forall₂ (Prints sep) es ps) :
    render es = renderAll (joined ps) := by
  have hclosed : es.map (closed sep) = ps.map fun p => p.1 ++ [p.2] := by
    rw [← List.forall₂_eq_eq_eq, List.forall₂_map_left_iff, List.forall₂_map_right_iff]
    exact h.imp fun _ _ => Prints.closed_eq
  have hpieces := isPiece_of_prints h
  rw [render, hsep, hclosed]
  rcases List.eq_nil_or_concat ps with rfl | ⟨ps, ⟨g, c⟩, rfl⟩
  · rfl
  rw [List.concat_eq_append] at hpieces ⊢
  obtain ⟨d, ds, hjoined, hfirm⟩ := joined_eq_cons (by simp) hpieces
  obtain ⟨_, _, rfl, -⟩ := (hpieces (g, c) (by simp)).comma
  rw [← List.flatMap_def, flatMap_concat, hjoined, withoutOuterDivs_concat (isAnyDiv_of_isFirm hfirm) rfl]

/-- The separator of entries is a comma with nothing but white space around it. -/
theorem exists_separator (h : ∀ e ∈ es, ∀ c ∈ e, c.isDiv "," = true → c.IsSpelled) :
    ∃ before after, separator es = div "," before after ∧ (∀ c ∈ before, Token.isSpace c = true) ∧
      ∀ c ∈ after, Token.isSpace c = true := by
  rw [separator]
  cases hfound : es.flatten.find? (·.isDiv ",") with
  | none => exact ⟨[], [' '], rfl, by decide, by decide⟩
  | some c =>
    obtain ⟨e, he, hc⟩ := List.mem_flatten.1 (List.mem_of_find?_eq_some hfound)
    have hsign := List.find?_some hfound
    cases h e he c hc hsign with
    | div sign hbefore hafter => exact ⟨_, _, by rw [Option.getD_some, eq_of_beq (α := Text) hsign], hbefore, hafter⟩
    | _ => cases hsign

theorem mem_rename {old new : Text} {g : Entry} (h : c ∈ rename old new g) : c ∈ g ∨ c = word new := by
  rcases rename_cases old new g with ⟨-, heq⟩ | ⟨fs, gs, -, rfl, heq⟩
  · exact .inl (heq ▸ h)
  · rw [heq] at h
    simp only [List.mem_append, List.mem_cons] at h ⊢
    tauto

/-- The entries of a list and the copies of them, as they are printed and read back. -/
theorem readsBack_render {r : Rules} (hr : r.NamesPlainly) (vendors : Option (List Text))
    (hvalue : value.IsCommaList) : List.Forall₂ ReadsBack
      (commaGroups (ofText value) ++ additions r vendors (commaGroups (ofText value)))
      (commaGroups (ofText (render (entries value ++ additions r vendors (entries value))))) := by
  have hmem : ∀ e ∈ entries value, ∀ c ∈ e, c ∈ ofText value := fun e he c hc =>
    flatten_cutAtCommas (ofText value) ▸ List.mem_flatten.2 ⟨e, List.mem_of_mem_filter he, hc⟩
  have hspelled : ∀ e ∈ entries value ++ additions r vendors (entries value), ∀ c ∈ e, c.isDiv "," = true →
      c.IsSpelled := by
    intro e he c hc hsign
    refine forall_isSpelled_ofText value c ?_
    rcases List.mem_append.1 he with he | he
    · exact hmem e he c hc
    · obtain ⟨e', he', he⟩ := List.mem_flatMap.1 he
      obtain ⟨new, -, rfl⟩ := List.mem_map.1 he
      rcases mem_rename hc with hc | rfl
      · exact hmem e' he' c hc
      · cases hsign
  obtain ⟨before, after, hsep, hbefore, hafter⟩ := exists_separator hspelled
  have hold := prints_entries (hvalue.isPiece hbefore hafter)
  have hall : List.Forall₂ (Prints (div "," before after)) (entries value ++ additions r vendors (entries value)) _ :=
    List.rel_append hold (prints_additions hr vendors hold)
  obtain ⟨ds, hds, -, hback⟩ := exists_reads_joined (by simp [pieces_ne_nil]) (isPiece_of_prints hall)
  rw [List.map_append, map_fst_addedPieces, map_fst_pieces] at hback
  rw [render_eq hsep hall, hds.ofText_eq]
  exact hback

end Transition

/-! ## The declaration -/

namespace Pass

open Transition

variable {p : Pass} {decl : Nat} {d : Declaration}

/-- The declaration is there, in a sheet with numbers. -/
structure Has (p : Pass) (decl : Nat) (d : Declaration) : Prop where
  numbered : p.sheet.IsNumbered
  declaration : p.sheet.declaration? decl = some d

namespace Has

/-- A copy before the declaration is none of it. -/
theorem cloneBefore (h : p.Has decl d) (edit : Node → Node) : (p.edit fun s => s.cloneBefore decl edit).Has decl d where
  numbered := h.numbered.cloneBefore decl edit
  declaration := by
    obtain ⟨n, hn, hdecl⟩ := Option.bind_eq_some_iff.1 h.declaration
    have hrel := (Sheet.grows_cloneBefore (R := Eq) (fun _ => rfl) p.sheet decl edit).node?_rel
      (h.numbered.lt_of_node? hn)
    rw [hn] at hrel
    change (p.sheet.cloneBefore decl edit).declaration? decl = some d
    rw [Sheet.declaration?]
    generalize (p.sheet.cloneBefore decl edit).node? decl = n' at hrel ⊢
    cases hrel with
    | some heq => rw [← heq, Option.bind_some, hdecl]

theorem insertTransition (h : p.Has decl d) (prop value : Text) : (p.insertTransition decl prop value).Has decl d := by
  unfold Pass.insertTransition
  split
  · exact h
  · exact h.cloneBefore _

theorem insertOther (h : p.Has decl d) (es : List Entry) (prop planned : Text) :
    (insertOther es prop decl p planned).Has decl d := by
  unfold Pass.insertOther
  split
  · exact h
  · exact h.insertTransition _ _

theorem foldl_insertOther (h : p.Has decl d) (es : List Entry) (prop : Text) (planned : List Text) :
    (planned.foldl (Pass.insertOther es prop decl) p).Has decl d := by
  induction planned generalizing p with
  | nil => exact h
  | cons v planned ih => exact ih (h.insertOther es prop v)

theorem warnAssociated (h : p.Has decl d) : (p.warnAssociated decl).Has decl d := by
  have hsheet := (p.warnAssociated_learns decl).sheet
  exact ⟨hsheet ▸ h.numbered, hsheet ▸ h.declaration⟩

theorem setValue (h : p.Has decl d) (value : Text) :
    (p.sheet.setValue decl value).declaration? decl = some { d with value } := by
  obtain ⟨n, hn, hdecl⟩ := Option.bind_eq_some_iff.1 h.declaration
  rw [Sheet.setValue, Sheet.modifyDeclaration, Sheet.declaration?, Sheet.node?_modify, hn, Option.map_some,
    Option.bind_some]
  unfold Node.declaration? at hdecl
  split at hdecl
  · rename_i hcontent
    obtain rfl := Option.some.inj hdecl
    simp only [Node.mapDeclaration, hcontent, Node.declaration?]
  · cases hdecl

theorem ite {c : Prop} [Decidable c] {q : Pass} (hp : c → p.Has decl d) (hq : ¬c → q.Has decl d) :
    (if c then p else q).Has decl d := by
  split
  · exact hp ‹_›
  · exact hq ‹_›

/-- At the end the declaration stays as it is, or it gets the value. -/
theorem rewritten (h : p.Has decl d) (text : Text) (c : Bool) :
    ∃ value, (if c = true then p else (p.warnAssociated decl).edit fun s =>
      (s.cloneBefore decl fun n => n).setValue decl text).sheet.declaration? decl = some { d with value } ∧
        (value ≠ d.value → value = text) := by
  split
  · exact ⟨d.value, h.declaration, fun hne => absurd rfl hne⟩
  · exact ⟨text, (h.warnAssociated.cloneBefore fun n => n).setValue text, fun _ => rfl⟩

end Has

/-- The list of transitions is the only thing that changes in its declaration, and it becomes the entries that the
author wrote and those that are added. -/
theorem addTransitions_declaration (h : p.Has decl d) :
    ∃ value, (p.addTransitions decl).sheet.declaration? decl = some { d with value } ∧ (value ≠ d.value →
      value = render (entries d.value ++ additions p.rules (p.ruleVendors? decl) (entries d.value))) := by
  unfold addTransitions
  rw [h.declaration]
  dsimp only
  split
  · exact ⟨d.value, h.declaration, fun hne => absurd rfl hne⟩
  generalize hes : entries d.value ++ _ = es
  generalize (p.ruleVendors? decl).getD _ = planned
  -- the copies, one vendor after the other
  let webkit := render (forVendorAlone "-webkit-" es)
  let p₁ := if planned.contains "-webkit-".toList then p.insertTransition decl ("-webkit-" ++ d.prop) webkit else p
  let p₂ := p₁.insertTransition decl d.prop webkit
  let p₃ :=
    if planned.contains "-o-".toList then
      p₂.insertTransition decl ("-o-" ++ d.prop) (render (forVendorAlone "-o-" es))
    else p₂
  let p₄ := planned.foldl (insertOther es d.prop decl) p₃
  have h₁ : p₁.Has decl d := .ite (fun _ => h.insertTransition _ _) fun _ => h
  have h₂ : p₂.Has decl d := h₁.insertTransition _ _
  have h₃ : p₃.Has decl d := .ite (fun _ => h₂.insertTransition _ _) fun _ => h₂
  have h₄ : p₄.Has decl d := h₃.foldl_insertOther es d.prop planned
  exact h₄.rewritten (render es) _

/-- **The list of transitions, read back.** If the value of a declaration is a comma list and becomes another value, the
entries of that are the old ones in their order, and after them the copies with prefixed names. -/
theorem addTransitions_entries (hs : p.sheet.IsNumbered) (hrules : p.rules.NamesPlainly)
    (hd : p.sheet.declaration? decl = some d) (hvalue : d.value.IsCommaList) :
    ∃ value, (p.addTransitions decl).sheet.declaration? decl = some { d with value } ∧ (value ≠ d.value →
      List.Forall₂ ReadsBack
        (commaGroups (ofText d.value) ++ copies p.rules (p.ruleVendors? decl) (commaGroups (ofText d.value)))
        (commaGroups (ofText value))) := by
  obtain ⟨value, hdecl, hnew⟩ := addTransitions_declaration ⟨hs, hd⟩
  refine ⟨value, hdecl, fun hne => ?_⟩
  rw [hnew hne, ← additions_eq]
  exact readsBack_render hrules _ hvalue

/-- A pass with a prefix for one property, over a rule with a list that names the property after a duration. -/
def filterPass : Pass where
  rules :=
    { (default : Rules) with properties := [{ name := "filter", prefixes := ["-webkit-"], dialect := .filter }] }
  sheet := Sheet.parse "a\x7btransition:color 1s ,2s filter ease\x7d"

theorem addTransitions_entries_filter :
    (filterPass.addTransitions 2).sheet.declaration? 2 =
        some { prop := "transition", value := "color 1s ,2s filter ease ,2s -webkit-filter ease" } ∧
      List.Forall₂ ReadsBack
        (commaGroups (ofText "color 1s ,2s filter ease") ++
          copies filterPass.rules (filterPass.ruleVendors? 2) (commaGroups (ofText "color 1s ,2s filter ease")))
        (commaGroups (ofText "color 1s ,2s filter ease ,2s -webkit-filter ease")) := by
  have hrules : filterPass.rules.NamesPlainly := by
    unfold Rules.NamesPlainly
    decide +kernel
  have hd : filterPass.sheet.declaration? 2 =
      some { prop := "transition", value := "color 1s ,2s filter ease" } := by decide +kernel
  have hvalue : Text.IsCommaList "color 1s ,2s filter ease" :=
    ⟨by decide +kernel, ⟨by decide +kernel, by decide +kernel, by decide +kernel⟩, by decide +kernel⟩
  have hnew : (filterPass.addTransitions 2).sheet.declaration? 2 =
      some { prop := "transition", value := "color 1s ,2s filter ease ,2s -webkit-filter ease" } := by
    decide +kernel
  obtain ⟨value, hvalue', hback⟩ := addTransitions_entries (Sheet.isNumbered_parse _) hrules hd hvalue
  obtain rfl := congrArg Declaration.value (Option.some.inj (hnew.symm.trans hvalue'))
  exact ⟨hnew, hback (by decide +kernel)⟩

end Pass

end VendorCss
