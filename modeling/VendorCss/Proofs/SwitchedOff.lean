import VendorCss.Prefixing
import VendorCss.Proofs.Pass.Learning
import VendorCss.Proofs.Sheet.Mapping
import VendorCss.Proofs.Sheet.Numbering

/-!
# Sheets that are switched off

Where a comment directly in the root switches the prefixer off and no other one steers it back, every node counts as
switched off: a pass finds nothing else out (`Pass.Idle`), so each of its steps that asks leaves the sheet as it is.
One step does not ask, the removal of outdated resolution queries. So a run over such a sheet changes the params of
`@media` rules that lose a query, and nothing else (`Prefixer.run_switchedOff`).
-/

namespace VendorCss

/-- A comment directly in the root switches the prefixer off, none switches it on, and none makes it ignore a node. -/
@[mk_iff]
structure Sheet.IsSwitchedOff (s : Sheet) : Prop where
  switch : ∃ i ∈ s.children rootId, ∃ t, s.comment? i = some t ∧ Control.isSwitch t = true
  off : ∀ i t, s.comment? i = some t → Control.isSwitch t = true → Control.switchesOn t = false
  ignores : ∀ i t, s.comment? i = some t → Control.ignoresNext t = false

/-- The at-rule without the outdated queries that are taken away from it, whether it is switched off or not. -/
def Rules.withoutQueries (r : Rules) (a : AtRule) : AtRule :=
  if r.removesAtRule a.name then a
  else if a.name = "media" && a.params.contains "-resolution" then
    match r.outdatedResolution with
    | some vendors => { a with params := Resolution.dropQueries vendors a.params }
    | none => a
  else a

namespace Node

theorem comment?_mapAtRule (edit : AtRule → AtRule) (n : Node) : (n.mapAtRule edit).comment? = n.comment? := by
  obtain ⟨content, raws, source⟩ := n
  cases content <;> rfl

theorem mapAtRule_eq_self_iff {edit : AtRule → AtRule} {n : Node} :
    n.mapAtRule edit = n ↔ ∀ a, n.atRule? = some a → edit a = a := by
  obtain ⟨content, raws, source⟩ := n
  cases content <;> simp [mapAtRule, atRule?]

end Node

namespace Sheet

variable {s : Sheet} {is : List Nat} {edit : Node → Node} {id : Nat}

/-- An at-rule that is listed is one. -/
theorem IsNumbered.exists_atRule? (hs : s.IsNumbered) {i : Nat} (h : i ∈ s.atRules id) : ∃ a, s.atRule? i = some a := by
  obtain ⟨⟨j, n⟩, hmem, rfl⟩ := List.mem_map.1 h
  obtain ⟨hkids, hatRule⟩ := List.mem_filter.1 hmem
  obtain ⟨a, ha⟩ := Option.isSome_iff_exists.1 hatRule
  exact ⟨a, by rw [atRule?, hs.node?_eq ((s.nodes_kids_sublist id).mem hkids), Option.bind_some, ha]⟩

/-- Changing at-rules changes nothing only where each of them stays as it is. -/
theorem IsNumbered.mapAt_atRules_eq_self_iff (hs : s.IsNumbered) (edit : AtRule → AtRule) :
    s.mapAt is (Node.mapAtRule edit) = s ↔ ∀ i ∈ is, ∀ a, s.atRule? i = some a → edit a = a := by
  simp only [mapAt_eq_self_iff, Node.mapAtRule_eq_self_iff]
  constructor
  · intro h i hi a ha
    obtain ⟨n, hn, hna⟩ := Option.bind_eq_some_iff.1 ha
    exact h (i, n) (mem_nodes_of_node? hn) hi a hna
  · rintro h ⟨i, n⟩ hx hi a ha
    exact h i hi a (by rw [atRule?, hs.node?_eq hx, Option.bind_some, ha])

/-! ## The root above every node -/

/-- All nodes stand in one tree, that of the root. -/
def IsRooted (s : Sheet) : Prop := ∃ root kids, s.runs = [.tree rootId root kids]

theorem isRooted_parse (t : Text) : (parse t).IsRooted := by
  let r := (tokens t).foldl SheetReader.step .start
  exact ⟨(SheetReader.closeAll r.next r.frame r.outer).1.node, (SheetReader.closeAll r.next r.frame r.outer).1.kids, rfl⟩

/-- Going up from a node below the root ends at the root. -/
theorem getLast?_ancestors (hs : s.IsNumbered) (hroot : s.IsRooted) (hid : id ∈ s.descendants rootId) :
    (s.ancestors id).getLast? = some rootId := by
  obtain ⟨root, kids, hruns⟩ := hroot
  have hkids : s.kids rootId = kids := by
    simp [Sheet.kids, find?, hruns, Forest.tree, Forest.find?]
  rw [descendants, hkids] at hid
  have hnodup : (Forest.tree rootId root kids).ids.Nodup := hs.nodup_of_mem_runs (by simp [hruns])
  have hne : rootId ≠ id := by
    rintro rfl
    simp [Forest.tree, Forest.ids, hid] at hnodup
  obtain ⟨above, habove⟩ := Option.isSome_iff_exists.1 (Forest.ancestors?_isSome hid)
  simp [ancestors, hruns, Forest.tree, Forest.ancestors?, hne, habove]

theorem descendantsWhere_subset (s : Sheet) (id : Nat) (keep : Node → Bool) :
    s.descendantsWhere id keep ⊆ s.descendants id := by
  rw [descendants, ← Forest.map_fst_nodes]
  exact List.map_subset _ List.filter_sublist.subset

/-- A sheet is switched off, and every node below the root stands under it. -/
structure IsAsleep (s : Sheet) : Prop extends s.IsSwitchedOff where
  numbered : s.IsNumbered
  up : ∀ id ∈ s.descendants rootId, (s.ancestors id).getLast? = some rootId

/-- Edits that leave comments alone do not wake a sheet. -/
theorem IsAsleep.mapAt (hs : s.IsAsleep) (hedit : ∀ n, (edit n).comment? = n.comment?) :
    (s.mapAt is edit).IsAsleep := by
  have hcomment : ∀ i, (s.mapAt is edit).comment? i = s.comment? i := by
    intro i
    rw [comment?, comment?, node?_mapAt]
    cases s.node? i with
    | none => rfl
    | some n =>
      simp only [Option.map_some, Option.bind_some]
      split
      · exact hedit n
      · rfl
  constructor
  · simpa only [isSwitchedOff_iff, children_mapAt, hcomment] using (isSwitchedOff_iff s).1 hs.toIsSwitchedOff
  · exact hs.numbered.mapAt is edit
  · simpa only [descendants_mapAt, ancestors_mapAt] using hs.up

end Sheet

namespace Pass

variable {s : Sheet} {r : Rules} {p : Pass} {id : Nat} {α : Type}

/-! ## Nothing else is found out -/

/-- A pass over a sheet has found every node that it asked about to be switched off, and none by a comment before it. -/
structure Idle (s : Sheet) (r : Rules) (p : Pass) : Prop where
  sheet : p.sheet = s
  rules : p.rules = r
  ignored : p.memory.ignored = []
  disabled : ∀ x ∈ p.memory.disabled, x.2 = true

theorem idle_of_agrees {q : Pass} (hp : Idle s r p) (h : p.Agrees q) (hignored : q.memory.ignored = p.memory.ignored)
    (hdisabled : q.memory.disabled = p.memory.disabled) : Idle s r q where
  sheet := h.sheet.trans hp.sheet
  rules := h.rules.trans hp.rules
  ignored := hignored.trans hp.ignored
  disabled := by
    rw [hdisabled]
    exact hp.disabled

theorem Idle.foldl_warn (hp : Idle s r p) (later : List Nat) (message : Text) :
    Idle s r (later.foldl (fun p i => p.warn i message) p) :=
  idle_of_agrees hp (Learns.foldl (fun p i => p.warn_learns i message) later p).toAgrees
    (by rw [memory_foldl_warn]) (by rw [memory_foldl_warn])

theorem Idle.learn (hp : Idle s r p) (id : Nat) : Idle s r (p.learnDisabled id true) where
  sheet := hp.sheet
  rules := hp.rules
  ignored := hp.ignored
  disabled := List.forall_mem_cons.2 ⟨rfl, hp.disabled⟩

theorem isIgnored_eq_false (hs : s.IsSwitchedOff) (id : Nat) : isIgnored s id = false := by
  rw [isIgnored]
  cases hprev : (s.prev? id).bind s.comment? with
  | none => rfl
  | some t =>
    obtain ⟨i, -, ht⟩ := Option.bind_eq_some_iff.1 hprev
    exact hs.ignores i t ht

/-- A comment that switches, if there is one in a block, switches off. -/
theorem switchesOn_of_switchIn (hs : s.IsSwitchedOff) {t : Text} {later : List Nat}
    (h : switchIn s id Control.isSwitch = (some t, later)) : Control.switchesOn t = false := by
  obtain ⟨⟨i, t'⟩, hhead, rfl⟩ := Option.map_eq_some_iff.1 (congrArg Prod.fst h)
  obtain ⟨j, -, hj⟩ := List.mem_filterMap.1 (List.mem_of_mem_head? hhead)
  obtain ⟨u, hu, hif⟩ := Option.bind_eq_some_iff.1 hj
  split at hif
  · rename_i hswitch
    cases hif
    exact hs.off _ _ hu hswitch
  · cases hif

theorem switchIn_root (hs : s.IsSwitchedOff) {later : List Nat} :
    switchIn s Sheet.rootId Control.isSwitch ≠ (none, later) := by
  intro h
  obtain ⟨i, hi, t, ht, hswitch⟩ := hs.switch
  have hnone := Option.map_eq_none_iff.1 (congrArg Prod.fst h)
  rw [List.head?_eq_none_iff, List.filterMap_eq_nil_iff] at hnone
  simpa [ht, hswitch] using hnone i hi

/-- Every node of a chain that ends at the root is switched off. -/
theorem Idle.disabledAlong (hp : Idle s r p) (hs : s.IsSwitchedOff) {chain : List Nat}
    (hchain : chain.getLast? = some Sheet.rootId) :
    (disabledAlong chain p).1 = true ∧ Idle s r (disabledAlong chain p).2 := by
  induction chain generalizing p with
  | nil => cases hchain
  | cons id above ih =>
    have hignored : isIgnored p.sheet id = false := by
      rw [hp.sheet]
      exact isIgnored_eq_false hs id
    rw [Pass.disabledAlong]
    split
    · rename_i known hknown
      exact ⟨hp.disabled _ (Facts.mem_of_get? hknown), hp⟩
    rw [hignored, Bool.and_false, if_neg Bool.false_ne_true]
    cases hswitch : switchIn p.sheet id Control.isSwitch with
    | mk switch later =>
      rw [hp.sheet] at hswitch
      have hwarned := hp.foldl_warn later secondSwitch
      cases switch with
      | some t =>
        simp only [switchesOn_of_switchIn hs hswitch, Bool.not_false]
        exact ⟨trivial, hwarned.learn id⟩
      | none =>
        cases above with
        | nil =>
          obtain rfl : id = Sheet.rootId := Option.some.inj hchain
          exact absurd hswitch (switchIn_root hs)
        | cons parent above =>
          obtain ⟨hvalue, hidle⟩ := ih hwarned hchain
          simp only [hvalue, hidle.ignored, List.contains_nil, Bool.not_false, Bool.and_self]
          exact ⟨trivial, hidle.learn id⟩

theorem Idle.gridModeAlong (hp : Idle s r p) (chain : List Nat) : Idle s r (gridModeAlong chain p).2 := by
  induction chain generalizing p with
  | nil => exact hp
  | cons id above ih =>
    rw [Pass.gridModeAlong]
    split
    · exact hp
    · have hwarned := hp.foldl_warn (switchIn p.sheet id Control.isGridSwitch).2 secondGridSwitch
      have hlearn : ∀ {q : Pass} (mode : GridMode), Idle s r q → Idle s r (q.learnGrid id mode) := fun _ hq =>
        ⟨hq.sheet, hq.rules, hq.ignored, hq.disabled⟩
      dsimp only
      refine hlearn _ ?_
      split
      · exact hwarned
      · exact hwarned
      · exact ih hwarned

theorem Idle.gridMode (hp : Idle s r p) (id : Nat) : Idle s r (p.gridMode id).2 := hp.gridModeAlong _

/-! ## Steps that ask -/

theorem Idle.foldl (hp : Idle s r p) (f : Pass → α → Pass) {xs : List α}
    (hf : ∀ {p x}, x ∈ xs → Idle s r p → Idle s r (f p x)) : Idle s r (xs.foldl f p) := by
  induction xs generalizing p with
  | nil => exact hp
  | cons x xs ih => exact ih (hf List.mem_cons_self hp) fun hx => hf (List.mem_cons_of_mem x hx)

theorem Idle.foldlWhere (hp : Idle s r p) (f : Pass → Nat → Pass)
    (hf : ∀ {p i}, i ∈ s.descendants Sheet.rootId → Idle s r p → Idle s r (f p i)) (keep : Node → Bool) :
    Idle s r ((p.sheet.descendantsWhere Sheet.rootId keep).foldl f p) := by
  rw [hp.sheet]
  exact hp.foldl f fun hi => hf (s.descendantsWhere_subset _ _ hi)

variable (hs : s.IsAsleep) (hid : id ∈ s.descendants Sheet.rootId)

include hs hid

theorem Idle.disabled_eq (hp : Idle s r p) : (p.disabled id).1 = true ∧ Idle s r (p.disabled id).2 := by
  refine hp.disabledAlong hs.toIsSwitchedOff ?_
  rw [hp.sheet, List.getLast?_cons, hs.up id hid]
  rfl

theorem Idle.skipsDeclaration (hp : Idle s r p) :
    (p.skipsDeclaration id).1 = true ∧ Idle s r (p.skipsDeclaration id).2 := by
  unfold Pass.skipsDeclaration
  split
  · exact hp.disabled_eq hs hid
  · have hgrid := hp.gridMode id
    dsimp only
    split
    · exact ⟨rfl, hgrid⟩
    · exact hgrid.disabled_eq hs hid

theorem Idle.skipsValue (hp : Idle s r p) : (p.skipsValue id).1 = true ∧ Idle s r (p.skipsValue id).2 := by
  unfold Pass.skipsValue
  split
  · exact hp.disabled_eq hs hid
  · have hgrid := hp.gridMode id
    dsimp only
    split
    · exact ⟨rfl, hgrid⟩
    · exact hgrid.disabled_eq hs hid

theorem Idle.addToAtRule (hp : Idle s r p) (x : Prefixer) : Idle s r (addToAtRule x p id) := by
  obtain ⟨hoff, hidle⟩ := hp.disabled_eq hs hid
  unfold Pass.addToAtRule
  split
  · exact hp
  · simp only [hoff, if_pos]
    split
    · exact hidle
    split
    · split
      · exact hidle
      · exact hp
    split
    · exact hidle
    · exact hp

theorem Idle.addToRule (hp : Idle s r p) : Idle s r (addToRule p id) := by
  obtain ⟨hoff, hidle⟩ := hp.disabled_eq hs hid
  unfold Pass.addToRule
  simpa only [hoff, if_pos] using hidle

theorem Idle.addToDeclaration (hp : Idle s r p) (grids : Bool) : Idle s r (addToDeclaration grids p id) := by
  obtain ⟨hskip, hidle⟩ := hp.skipsDeclaration hs hid
  unfold Pass.addToDeclaration
  dsimp only
  split
  · exact hidle
  · simpa only [hskip, if_pos] using hidle

theorem Idle.addToValue (hp : Idle s r p) : Idle s r (addToValue p id) := by
  obtain ⟨hskip, hidle⟩ := hp.skipsValue hs hid
  unfold Pass.addToValue
  dsimp only
  split
  · exact hidle
  · simpa only [hskip, if_pos] using hidle

theorem Idle.cleanRule (hp : Idle s r p) (o : OutdatedSelector) : Idle s r (cleanRule o p id) := by
  obtain ⟨hoff, hidle⟩ := hp.disabled_eq hs hid
  unfold Pass.cleanRule
  split
  · simpa only [hoff, if_pos] using hidle
  · exact hp

theorem Idle.cleanDeclaration (hp : Idle s r p) : Idle s r (cleanDeclaration p id) := by
  obtain ⟨hoff, hidle⟩ := hp.disabled_eq hs hid
  unfold Pass.cleanDeclaration
  simpa only [hoff, if_pos] using hidle

omit hid

/-- No item is placed, so nothing waits for a place. -/
theorem Idle.placeItems (hp : Idle s r p) (groups : List Grid.TemplateGroup) {decls : List Nat}
    (hdecls : decls ⊆ s.descendants Sheet.rootId) :
    Idle s r (placeItems groups decls p []).1 ∧ (placeItems groups decls p []).2 = [] := by
  induction decls generalizing p with
  | nil => exact ⟨hp, rfl⟩
  | cons decl decls ih =>
    obtain ⟨hdecl, hdecls⟩ := List.cons_subset.1 hdecls
    obtain ⟨hoff, hidle⟩ := hp.disabled_eq hs hdecl
    rw [Pass.placeItems]
    split
    · exact ih hp hdecls
    · simpa only [hoff, if_pos] using ih hidle hdecls

theorem Idle.insertAreas (hp : Idle s r p) : Idle s r p.insertAreas := by
  unfold Pass.insertAreas
  dsimp only
  split
  · exact hp
  · have hdecls : p.sheet.declarations Sheet.rootId ⊆ s.descendants Sheet.rootId := by
      rw [hp.sheet]
      exact s.descendantsWhere_subset _ _
    obtain ⟨hidle, hfound⟩ := hp.placeItems hs p.sheet.templateGroups hdecls
    rw [hfound]
    exact ⟨hidle.sheet, hidle.rules, hidle.ignored, hidle.disabled⟩

theorem Idle.addMissing (hp : Idle s r p) (x : Prefixer) : Idle s r (p.addMissing x) := by
  unfold Pass.addMissing
  dsimp only
  generalize heq₁ : List.foldl (Pass.addToAtRule x) p _ = p₁
  have h₁ : Idle s r p₁ :=
    heq₁ ▸ hp.foldlWhere (Pass.addToAtRule x) (fun hi hp => hp.addToAtRule hs hi x) Node.isAtRule
  generalize heq₂ : List.foldl Pass.addToRule p₁ _ = p₂
  have h₂ : Idle s r p₂ := heq₂ ▸ h₁.foldlWhere Pass.addToRule (fun hi hp => hp.addToRule hs hi) Node.isRule
  have h₃ := h₂.gridMode Sheet.rootId
  generalize p₂.gridMode Sheet.rootId = found at h₃
  obtain ⟨mode, p₃⟩ := found
  generalize heq₄ : List.foldl (Pass.addToDeclaration _) p₃ _ = p₄
  have h₄ : Idle s r p₄ := heq₄ ▸ h₃.foldlWhere (Pass.addToDeclaration _)
    (fun hi hp => hp.addToDeclaration hs hi _) Node.isDeclaration
  have hvalues {p : Pass} (hp : Idle s r p) :=
    hp.foldlWhere Pass.addToValue (fun hi hp => hp.addToValue hs hi) Node.isDeclaration
  dsimp only
  split
  · exact hvalues (h₄.insertAreas hs)
  · exact hvalues h₄

omit hs

/-! ## The step that does not ask -/

/-- Two edits of at-rules that agree on one at-rule change it alike. -/
theorem modify_atRule_congr {a : AtRule} (hnumbered : s.IsNumbered) (ha : s.atRule? id = some a)
    {edit : AtRule → AtRule} (edit' : AtRule → AtRule) (h : edit a = edit' a) :
    s.modify id (Node.mapAtRule edit) = s.modify id (Node.mapAtRule edit') := by
  refine Sheet.modify_congr hnumbered fun n hn => ?_
  rw [Sheet.atRule?, hn, Option.bind_some] at ha
  obtain ⟨content, raws, source⟩ := n
  cases content with
  | atRule a' =>
    obtain rfl : a' = a := Option.some.inj ha
    simp only [Node.mapAtRule, h]
  | root | rule | declaration | comment => cases ha

/-- An at-rule loses its outdated queries, and nothing else happens. -/
theorem Idle.cleanAtRule {a : AtRule} (hp : Idle s r p) (hs : s.IsAsleep) (hid : id ∈ s.descendants Sheet.rootId) (ha : s.atRule? id = some a) :
    Idle (s.modify id (Node.mapAtRule r.withoutQueries)) r (p.cleanAtRule id) := by
  have hsame (h : r.withoutQueries a = a) : s.modify id (Node.mapAtRule r.withoutQueries) = s := by
    rw [modify_atRule_congr hs.numbered ha (fun a => a) h]
    refine Sheet.modify_eq_self hs.numbered fun n _ => ?_
    obtain ⟨content, raws, source⟩ := n
    cases content <;> rfl
  unfold Pass.cleanAtRule
  rw [hp.sheet, hp.rules, ha]
  dsimp only
  split
  · rename_i hremoves
    obtain ⟨hoff, hidle⟩ := hp.disabled_eq hs hid
    rw [hsame (by rw [Rules.withoutQueries, if_pos hremoves])]
    simpa only [hoff, if_pos] using hidle
  rename_i hremoves
  split
  · rename_i hmedia
    have hqueries : r.withoutQueries a = match r.outdatedResolution with
        | some vendors => { a with params := Resolution.dropQueries vendors a.params }
        | none => a := by
      rw [Rules.withoutQueries, if_neg hremoves, if_pos hmedia]
    split
    · rename_i vendors hvendors
      rw [hvendors] at hqueries
      have hsheet : s.modify id (Node.mapAtRule r.withoutQueries) =
          s.setParams id (Resolution.dropQueries vendors a.params) := modify_atRule_congr hs.numbered ha _ hqueries
      have hpass : p.dropResolutions vendors id =
          p.edit fun s => s.setParams id (Resolution.dropQueries vendors a.params) := by
        rw [dropResolutions, editParams, hp.sheet, ha]
      rw [hsheet, hpass]
      refine ⟨?_, hp.rules, hp.ignored, hp.disabled⟩
      rw [edit, withSheet, hp.sheet]
    · rename_i hvendors
      rw [hvendors] at hqueries
      rw [hsame hqueries]
      exact hp
  · rename_i hmedia
    rw [hsame (by rw [Rules.withoutQueries, if_neg hremoves, if_neg hmedia])]
    exact hp

/-- At-rules lose their outdated queries one after the other. -/
theorem Idle.foldl_cleanAtRule (hs : s.IsAsleep) {is done : List Nat} (his : is.Nodup) (hdone : ∀ i ∈ is, i ∉ done)
    (hatRules : ∀ i ∈ is, i ∈ s.atRules Sheet.rootId)
    (hp : Idle (s.mapAt done (Node.mapAtRule r.withoutQueries)) r p) :
    Idle (s.mapAt (is.reverse ++ done) (Node.mapAtRule r.withoutQueries)) r (is.foldl Pass.cleanAtRule p) := by
  induction is generalizing p done with
  | nil => exact hp
  | cons i is ih =>
    obtain ⟨hi, his⟩ := List.nodup_cons.1 his
    obtain ⟨hidone, hdone⟩ := List.forall_mem_cons.1 hdone
    obtain ⟨hiatRule, hatRules⟩ := List.forall_mem_cons.1 hatRules
    obtain ⟨a, ha⟩ := hs.numbered.exists_atRule? hiatRule
    have hdescendant : i ∈ (s.mapAt done (Node.mapAtRule r.withoutQueries)).descendants Sheet.rootId := by
      rw [Sheet.descendants_mapAt]
      exact s.descendantsWhere_subset _ _ hiatRule
    have ha' : (s.mapAt done (Node.mapAtRule r.withoutQueries)).atRule? i = some a := by
      simpa only [Sheet.atRule?, Sheet.node?_mapAt, if_neg hidone, Option.map_id'] using ha
    have hstep := hp.cleanAtRule (hs.mapAt (Node.comment?_mapAtRule _)) hdescendant ha'
    rw [Sheet.modify_mapAt hs.numbered hidone] at hstep
    have hrest := ih his (fun j hj => List.not_mem_cons_of_ne_of_not_mem (ne_of_mem_of_not_mem hj hi) (hdone j hj)) hatRules hstep
    rwa [List.reverse_cons, List.append_assoc, List.singleton_append]

theorem Idle.removeOutdated (hp : Idle s r p) (hs : s.IsAsleep) :
    Idle (s.mapAt (s.atRules Sheet.rootId) (Node.mapAtRule r.withoutQueries)) r p.removeOutdated := by
  let s' := s.mapAt (s.atRules Sheet.rootId) (Node.mapAtRule r.withoutQueries)
  have hs' : s'.IsAsleep := hs.mapAt (Node.comment?_mapAtRule _)
  unfold Pass.removeOutdated
  dsimp only
  generalize heq₁ : List.foldl Pass.cleanAtRule p _ = p₁
  have h₁ : Idle s' r p₁ := by
    have hstart : Idle (s.mapAt [] (Node.mapAtRule r.withoutQueries)) r p := by rwa [Sheet.mapAt_nil]
    have hall := Idle.foldl_cleanAtRule hs (hs.numbered.nodup_descendantsWhere Sheet.rootId Node.isAtRule)
      (fun _ _ => List.not_mem_nil) (fun _ hi => hi) hstart
    have hsheet : s.mapAt ((s.atRules Sheet.rootId).reverse ++ []) (Node.mapAtRule r.withoutQueries) = s' :=
      Sheet.mapAt_congr fun j _ => by rw [List.append_nil, List.mem_reverse]
    rw [← heq₁, hp.sheet, ← hsheet]
    exact hall
  generalize heq₂ : List.foldl Pass.cleanRules p₁ _ = p₂
  have h₂ : Idle s' r p₂ := heq₂ ▸ h₁.foldl Pass.cleanRules fun {_ o} _ hp =>
    hp.foldlWhere (Pass.cleanRule o) (fun hi hp => hp.cleanRule hs' hi o) Node.isRule
  exact h₂.foldlWhere Pass.cleanDeclaration (fun hi hp => hp.cleanDeclaration hs' hi) Node.isDeclaration

end Pass

namespace Prefixer

theorem start_idle (x : Prefixer) (s : Sheet) : Pass.Idle s x.rules (x.start s) := by
  unfold start
  dsimp only
  split
  · exact ⟨rfl, rfl, rfl, fun _ h => nomatch h⟩
  · exact ⟨rfl, rfl, rfl, fun _ h => nomatch h⟩

/-- A sheet that is asleep loses its outdated resolution queries, if anything is to be removed. -/
theorem run_asleep (x : Prefixer) {s : Sheet} (hs : s.IsAsleep) : (x.run s).sheet =
    if x.rules.options.remove then s.mapAt (s.atRules Sheet.rootId) (Node.mapAtRule x.rules.withoutQueries) else s := by
  let p := if x.rules.options.remove then (x.start s).removeOutdated else x.start s
  let s' := if x.rules.options.remove then s.mapAt (s.atRules Sheet.rootId) (Node.mapAtRule x.rules.withoutQueries) else s
  have hp : s'.IsAsleep ∧ Pass.Idle s' x.rules p := by
    have hstart := start_idle x s
    by_cases hremove : x.rules.options.remove = true
    · simp only [s', p, if_pos hremove]
      exact ⟨hs.mapAt (Node.comment?_mapAtRule _), hstart.removeOutdated hs⟩
    · simp only [s', p, if_neg hremove]
      exact ⟨hs, hstart⟩
  have hrun : x.run s = if x.rules.options.add then p.addMissing x else p := rfl
  rw [hrun]
  split
  · exact (hp.2.addMissing hp.1 x).sheet
  · exact hp.2.sheet

/-- A sheet that is switched off loses its outdated resolution queries, if anything is to be removed, and is left as it is
otherwise. So it is the same after a run exactly where no `@media` rule loses a query. -/
theorem run_switchedOff (x : Prefixer) (css : Text) (h : (Sheet.parse css).IsSwitchedOff) :
    let s := Sheet.parse css
    ((x.run s).sheet =
      if x.rules.options.remove then s.mapAt (s.atRules Sheet.rootId) (Node.mapAtRule x.rules.withoutQueries) else s) ∧
    ((x.run s).sheet = s ↔ (x.rules.options.remove = true →
      ∀ i ∈ s.atRules Sheet.rootId, ∀ a, s.atRule? i = some a → x.rules.withoutQueries a = a)) := by
  have hasleep : (Sheet.parse css).IsAsleep := ⟨h, Sheet.isNumbered_parse css, fun _ hid =>
    Sheet.getLast?_ancestors (Sheet.isNumbered_parse css) (Sheet.isRooted_parse css) hid⟩
  generalize Sheet.parse css = s at hasleep
  dsimp only
  have hsheet := run_asleep x hasleep
  refine ⟨hsheet, ?_⟩
  rw [hsheet]
  split
  · rename_i hremove
    rw [hasleep.numbered.mapAt_atRules_eq_self_iff, imp_iff_right hremove]
  · rename_i hremove
    exact iff_of_true rfl fun h => absurd h hremove

/-- A table of resolutions, which one version of a browser has under a prefix. -/
def resolutionTable : CapabilityTable where
  features :=
    [{ name := "resolution", names := ["@resolution"], support := [⟨⟨"chrome", "20"⟩, "-webkit-", none⟩],
       props := none, mistakes := [], selector := false }]
  featureQueries := []

/-- A later version of that browser. -/
def laterSelection : Selection where
  agents := default
  targets := [⟨"chrome", "131"⟩]
  vendors := ["-webkit-"]

/-- A media query with its prefixed spelling. -/
def offMedia : Text :=
  "/* autoprefixer: off */@media (-webkit-min-device-pixel-ratio:2),(min-resolution:2dppx)\x7ba\x7bb:c\x7d\x7d"

/-- The prefixed query goes, though the sheet is switched off. -/
theorem run_switchedOff_resolution :
    (Sheet.parse offMedia).IsSwitchedOff ∧
      ((compile resolutionTable laterSelection {}).run (Sheet.parse offMedia)).sheet ≠ Sheet.parse offMedia := by
  let s := Sheet.parse offMedia
  let a : AtRule := ⟨"media", "(-webkit-min-device-pixel-ratio:2),(min-resolution:2dppx)", true⟩
  obtain ⟨hcomments, hswitch, hfirst, hlisted, hatRule⟩ : (∀ x ∈ s.nodes, ∀ t, x.2.comment? = some t →
      Control.switchesOn t = false ∧ Control.ignoresNext t = false) ∧ s.comment? 1 = some " autoprefixer: off " ∧
        1 ∈ s.children Sheet.rootId ∧ 2 ∈ s.atRules Sheet.rootId ∧ s.atRule? 2 = some a := by decide +kernel
  have hcomment : ∀ i t, s.comment? i = some t →
      Control.switchesOn t = false ∧ Control.ignoresNext t = false := by
    intro i t ht
    obtain ⟨n, hn, ht⟩ := Option.bind_eq_some_iff.1 ht
    exact hcomments _ (Sheet.mem_nodes_of_node? hn) t ht
  have hoff : s.IsSwitchedOff := {
    switch := ⟨1, hfirst, " autoprefixer: off ", hswitch, by decide +kernel⟩
    off := fun i t ht _ => (hcomment i t ht).1
    ignores := fun i t ht => (hcomment i t ht).2 }
  have hqueries : (compile resolutionTable laterSelection {}).rules.withoutQueries a ≠ a := by decide +kernel
  refine ⟨hoff, fun h => hqueries ?_⟩
  exact (run_switchedOff _ offMedia hoff).2.1 h rfl 2 hlisted a hatRule

end Prefixer

end VendorCss
