import VendorCss.Proofs.Pass.Copies
import VendorCss.Proofs.Sheet.Neighbours
import VendorCss.Proofs.Sheet.Standing

/-!
# Which copies a plain declaration gets

A planned prefix is missing from a declaration if its scope allows it, its value does not speak to another vendor,
no member of its group has the prefixed property, and nothing beside it tells the same (`PropertyVariants.missing`).
Where a vendor spells a property as its prefix before the name, the missing prefixes get a copy each, in the order of
the plan, and nothing else changes but the white space before the declaration (`PropertyVariants.process_plain`).

Whether a prefix is missing is asked again before each copy is written, and the copies written so far are among what is
looked at then. A copy is a member of the group and not the plain one that ends it, so it hides no member farther above;
and it answers the question for its own prefix only. So what is missing for the other prefixes is what was missing at
the start (`Pass.Copied`), and once all copies are there nothing is missing.
-/

namespace VendorCss

/-! ## Copies -/

/-- The second node is the first one with a planned prefix before its property, and any white space before it. -/
def Node.IsCopyFor (planned : Text) (n m : Node) : Prop :=
  ∃ before, m = (n.mapDeclaration fun d => { d with prop := planned ++ d.prop }).withBefore before

variable {s : Sheet} {p q q' : Pass} {rule decl : Nat} {n m : Node} {d e : Declaration} {v : PropertyVariants}
variable {written prefixes : List Text} {planned : Text}

theorem Node.IsCopyFor.declaration?_eq (h : IsCopyFor planned n m) (hd : n.declaration? = some d) :
    m.declaration? = some { d with prop := planned ++ d.prop } := by
  obtain ⟨before, rfl⟩ := h
  obtain ⟨content, raws, source⟩ := n
  cases content with
  | declaration d' =>
    obtain rfl : d' = d := Option.some.inj hd
    rfl
  | root | rule _ | comment _ | atRule _ => cases hd

/-! ## Beside a declaration -/

namespace Sheet

open Pass

/-- The declarations below a node are those among its children. -/
theorem IsNumbered.childDeclarationsOf_eq (hs : s.IsNumbered) (id : Nat) :
    s.childDeclarationsOf id = declarationsAmong s (s.children id) := by
  rw [childDeclarationsOf, declarationsAmong, children, ← Forest.map_fst_topNodes, List.filterMap_map]
  refine List.filterMap_congr fun x hx => ?_
  have hnode : s.node? x.1 = some x.2 :=
    hs.node?_eq ((s.nodes_kids_sublist id).mem (Forest.topNodes_subset_nodes _ hx))
  rw [Function.comp_apply, declaration?, hnode, Option.bind_some]

/-- The declarations below a rule are those before one of them, that one and those after it. -/
theorem Stands.childDeclarationsOf_eq (h : s.Stands rule decl d) : s.childDeclarationsOf rule =
    (declarationsAmong s (s.prevSiblings decl)).reverse ++ (decl, d) :: declarationsAmong s (s.nextSiblings decl) := by
  have hsiblings := h.numbered.siblings_of_parent? h.parent?
  have hmem : decl ∈ s.siblings decl := by
    rw [hsiblings]
    exact h.numbered.mem_children.2 h.parent?
  obtain ⟨before, after, hcut, -, hprev, hnext⟩ := exists_cut hmem
  rw [h.numbered.childDeclarationsOf_eq, ← hsiblings, hcut, hprev, hnext]
  unfold declarationsAmong
  rw [List.filterMap_append, List.filterMap_cons, h.declaration?, List.filterMap_reverse, List.reverse_reverse]
  rfl

theorem declarationsAmong_insertBefore (hs : s.IsNumbered) (id : Nat) (m : Node) {is : List Nat}
    (his : ∀ i ∈ is, i ∈ s.ids) : declarationsAmong (s.insertBefore id m) is = declarationsAmong s is := by
  refine List.filterMap_congr fun i hi => ?_
  rw [declaration?, declaration?, node?_insertBefore (hs.lt_next i (his i hi))]

theorem Stands.declaration?_of_node? (h : s.Stands rule decl d) (hn : s.node? decl = some n) :
    n.declaration? = some d := by
  obtain ⟨n', hn', hd⟩ := Option.bind_eq_some_iff.1 h.declaration?
  obtain rfl := Option.some.inj (hn.symm.trans hn')
  exact hd

theorem Stands.insertBefore (h : s.Stands rule decl d) (id : Nat) (m : Node) :
    (s.insertBefore id m).Stands rule decl d :=
  h.splice (s.isFresh_tree m) (.before id)

theorem declarationsAmong_prevSiblings_insertBefore (hs : s.IsNumbered) (hn : s.node? decl = some n)
    (hm : m.declaration? = some e) :
    declarationsAmong (s.insertBefore decl m) ((s.insertBefore decl m).prevSiblings decl) =
      (s.next, e) :: declarationsAmong s (s.prevSiblings decl) := by
  have hnew : (s.insertBefore decl m).declaration? s.next = some e := by
    rw [declaration?, node?_insertBefore_next hs hn]
    exact hm
  rw [prevSiblings_insertBefore hs hn, declarationsAmong, List.filterMap_cons, hnew, ← declarationsAmong,
    declarationsAmong_insertBefore hs decl m fun i => mem_ids_of_mem_prevSiblings]
  rfl

theorem declarationsAmong_nextSiblings_insertBefore (hs : s.IsNumbered) (hn : s.node? decl = some n) (m : Node) :
    declarationsAmong (s.insertBefore decl m) ((s.insertBefore decl m).nextSiblings decl) =
      declarationsAmong s (s.nextSiblings decl) := by
  rw [nextSiblings_insertBefore hs hn, declarationsAmong_insertBefore hs decl m fun i => mem_ids_of_mem_nextSiblings]

theorem declaration?_setBefore (hs : s.IsNumbered) (id : Nat) (before : Text) (i : Nat) :
    (s.setBefore id before).declaration? i = s.declaration? i := by
  rw [declaration?, declaration?, node?_setBefore hs]
  cases s.node? i with
  | none => rfl
  | some n =>
    rw [Option.map_some, Option.bind_some, Option.bind_some]
    split <;> rfl

end Sheet

namespace Pass

/-! ## What is missing -/

/-- Some declaration beside a declaration has its property with a planned prefix, and its value. -/
def hasCopy (p : Pass) (decl : Nat) (d : Declaration) (planned : Text) : Bool :=
  p.someSibling decl fun e => e.prop == planned ++ d.prop && e.value == d.value

/-- A planned prefix may be written for a declaration, as far as its value, its group and its neighbours tell. -/
def misses (p : Pass) (decl : Nat) (d : Declaration) (planned : Text) : Bool :=
  !Vendor.speaksToOther d.value planned && !p.groupHas decl (planned ++ d.prop) && !p.hasCopy decl d planned

theorem groupHas_eq (hd : p.sheet.declaration? decl = some d) (prop : Text) : p.groupHas decl prop =
    ((membersAbove p.rules (PropertyName.standard d.prop)
        (declarationsAmong p.sheet (p.sheet.prevSiblings decl))).any (fun (_, e) => e.prop == prop) ||
      (membersBelow p.rules (PropertyName.standard d.prop)
        (declarationsAmong p.sheet (p.sheet.nextSiblings decl))).any fun (_, e) => e.prop == prop) := by
  rw [groupHas, groupAbove, groupBelow, hd]

theorem someSibling_eq (h : p.sheet.Stands rule decl d) (test : Declaration → Bool) : p.someSibling decl test =
    ((declarationsAmong p.sheet (p.sheet.prevSiblings decl)).any (fun (_, e) => test e) ||
      (test d || (declarationsAmong p.sheet (p.sheet.nextSiblings decl)).any fun (_, e) => test e)) := by
  rw [someSibling, h.parent?, Option.any_some, Sheet.someDeclaration, h.childDeclarationsOf_eq, List.any_append,
    List.any_reverse, List.any_cons]

/-- A copy put before the declaration joins its group, and hides no member of it. -/
theorem groupHas_insertBefore (h : p.sheet.Stands rule decl d) (hn : p.sheet.node? decl = some n)
    (hunprefixed : Vendor.ofName d.prop = []) (hv : Vendor.IsVendor planned) (hm : Node.IsCopyFor planned n m)
    (hrules : q.rules = p.rules) (hsheet : q.sheet = p.sheet.insertBefore decl m) (prop : Text) :
    q.groupHas decl prop = (planned ++ d.prop == prop || p.groupHas decl prop) := by
  have he := hm.declaration?_eq (h.declaration?_of_node? hn)
  have hq : q.sheet.declaration? decl = some d := by
    rw [hsheet]
    exact (h.insertBefore decl m).declaration?
  have hplain : isPlain p.rules (PropertyName.standard d.prop) { d with prop := planned ++ d.prop } = false := by
    rw [isPlain, beq_eq_false_iff_ne.2 (PropertyName.append_ne_standard hv hunprefixed), Bool.false_and]
  rw [groupHas_eq hq, groupHas_eq h.declaration?, hrules, hsheet,
    Sheet.declarationsAmong_prevSiblings_insertBefore h.numbered hn he,
    Sheet.declarationsAmong_nextSiblings_insertBefore h.numbered hn m, membersAbove, hplain,
    PropertyName.standard_append hv hunprefixed, bne_self_eq_false, Bool.or_self, if_neg Bool.false_ne_true,
    List.any_cons, Bool.or_assoc]

theorem someSibling_insertBefore (h : p.sheet.Stands rule decl d) (hn : p.sheet.node? decl = some n)
    (hm : m.declaration? = some e) (hsheet : q.sheet = p.sheet.insertBefore decl m) (test : Declaration → Bool) :
    q.someSibling decl test = (test e || p.someSibling decl test) := by
  have hq : q.sheet.Stands rule decl d := by
    rw [hsheet]
    exact h.insertBefore decl m
  rw [someSibling_eq hq, someSibling_eq h, hsheet, Sheet.declarationsAmong_prevSiblings_insertBefore h.numbered hn hm,
    Sheet.declarationsAmong_nextSiblings_insertBefore h.numbered hn m, List.any_cons]
  exact Bool.or_assoc _ _ _

/-- White space before any node has no part in what is missing. -/
theorem misses_setBefore (h : p.sheet.Stands rule decl d) (hrules : q.rules = p.rules) {id : Nat} {before : Text}
    (hsheet : q.sheet = p.sheet.setBefore id before) (planned : Text) :
    q.misses decl d planned = p.misses decl d planned := by
  have hq : q.sheet.Stands rule decl d := by
    rw [hsheet]
    exact h.setBefore id before
  have hsiblings := Sheet.siblings_setBefore h.numbered id before decl
  have hprev : q.sheet.prevSiblings decl = p.sheet.prevSiblings decl := by
    rw [hsheet, Sheet.prevSiblings, hsiblings, Sheet.prevSiblings]
  have hnext : q.sheet.nextSiblings decl = p.sheet.nextSiblings decl := by
    rw [hsheet, Sheet.nextSiblings, hsiblings, Sheet.nextSiblings]
  have hamong : ∀ is, declarationsAmong q.sheet is = declarationsAmong p.sheet is := fun is =>
    List.filterMap_congr fun i _ => by rw [hsheet, Sheet.declaration?_setBefore h.numbered]
  rw [misses, misses, hasCopy, hasCopy, groupHas_eq hq.declaration?, groupHas_eq h.declaration?, someSibling_eq hq,
    someSibling_eq h, hrules, hprev, hnext, hamong, hamong]

/-! ## Writing copies -/

theorem append_beq_append (s t u : Text) : (s ++ u == t ++ u) = (s == t) := by
  rw [Bool.eq_iff_iff, beq_iff_eq, beq_iff_eq, List.append_left_inj]

theorem contains_concat (written : List Text) (planned other : Text) :
    (written ++ [planned]).contains other = (written.contains other || planned == other) := by
  rw [List.contains_append, List.contains_cons, List.contains_nil, Bool.or_false, Bool.beq_comm]

/-- A step puts a copy for a planned prefix before a declaration, and learns at most how wide prefixes are. -/
structure WritesCopy (decl : Nat) (n : Node) (planned : Text) (p q : Pass) : Prop where
  rules : q.rules = p.rules
  diagnostics : q.diagnostics = p.diagnostics
  memory : ∃ widest, q.memory = { p.memory with widest }
  sheet : ∃ m, Node.IsCopyFor planned n m ∧ q.sheet = p.sheet.insertBefore decl m

/-- The second pass is the first one with copies of a declaration for some prefixes, in their order. -/
structure Copied (p : Pass) (rule decl : Nat) (n : Node) (d : Declaration) (written : List Text) (q : Pass) : Prop where
  rules : q.rules = p.rules
  diagnostics : q.diagnostics = p.diagnostics
  /-- The scope of the declaration was asked for, and how wide prefixes are. -/
  memory : ∃ widest, q.memory = { (p.scope decl).2.memory with widest }
  sheet : ∃ copies, List.Forall₂ (Node.IsCopyFor · n) written copies ∧ q.sheet = p.sheet.front decl copies
  stands : q.sheet.Stands rule decl d
  node : q.sheet.node? decl = some n
  lt_next : decl < p.sheet.next
  /-- What was there before is still there. -/
  next_le : p.sheet.next ≤ q.sheet.next
  nodes : ∀ i < p.sheet.next, q.sheet.node? i = p.sheet.node? i
  ancestors : q.sheet.ancestors decl = p.sheet.ancestors decl
  /-- Only the prefixes written are found where they were not before. -/
  groupHas : ∀ planned, q.groupHas decl (planned ++ d.prop) =
    (written.contains planned || p.groupHas decl (planned ++ d.prop))
  hasCopy : ∀ planned, q.hasCopy decl d planned = (written.contains planned || p.hasCopy decl d planned)

namespace Copied

theorem misses_eq (h : Copied p rule decl n d written q) (planned : Text) :
    q.misses decl d planned = (p.misses decl d planned && !written.contains planned) := by
  rw [misses, misses, h.groupHas, h.hasCopy]
  cases written.contains planned <;> simp

/-- One more copy. -/
theorem step (h : Copied p rule decl n d written q) (hunprefixed : Vendor.ofName d.prop = [])
    (hv : Vendor.IsVendor planned) (hwrites : WritesCopy decl n planned q q') :
    Copied p rule decl n d (written ++ [planned]) q' := by
  obtain ⟨m, hm, hsheet⟩ := hwrites.sheet
  obtain ⟨copies, hcopies, heq⟩ := h.sheet
  have he := hm.declaration?_eq (h.stands.declaration?_of_node? h.node)
  have hlt := h.stands.numbered.lt_of_node? h.node
  exact {
    rules := hwrites.rules.trans h.rules
    diagnostics := hwrites.diagnostics.trans h.diagnostics
    memory := by
      obtain ⟨_, hmemory⟩ := h.memory
      obtain ⟨widest, hwidest⟩ := hwrites.memory
      exact ⟨widest, by rw [hwidest, hmemory]⟩
    sheet := ⟨copies ++ [m], List.rel_append hcopies (.cons hm .nil), by
      rw [hsheet, heq, Sheet.insertBefore_front h.lt_next]⟩
    stands := by
      rw [hsheet]
      exact h.stands.insertBefore decl m
    node := by rw [hsheet, Sheet.node?_insertBefore hlt, h.node]
    lt_next := h.lt_next
    next_le := by
      rw [hsheet]
      exact Nat.le_succ_of_le h.next_le
    nodes := fun i hi => by rw [hsheet, Sheet.node?_insertBefore (Nat.lt_of_lt_of_le hi h.next_le), h.nodes i hi]
    ancestors := by rw [hsheet, Sheet.ancestors_insertBefore h.stands.numbered h.node, h.ancestors]
    groupHas := fun other => by
      rw [groupHas_insertBefore h.stands h.node hunprefixed hv hm hwrites.rules hsheet, h.groupHas, append_beq_append,
        contains_concat, Bool.or_left_comm, Bool.or_assoc]
    hasCopy := fun other => by
      rw [Pass.hasCopy, someSibling_insertBefore h.stands h.node he hsheet, append_beq_append, beq_self_eq_true,
        Bool.and_true, ← Pass.hasCopy, h.hasCopy, contains_concat, Bool.or_left_comm, Bool.or_assoc] }

/-- Where nothing is written yet. -/
theorem start (h : p.sheet.Stands rule decl d) (hn : p.sheet.node? decl = some n) (hrules : q.rules = p.rules)
    (hdiagnostics : q.diagnostics = p.diagnostics) (hmemory : q.memory = (p.scope decl).2.memory)
    (hsheet : q.sheet = p.sheet) : Copied p rule decl n d [] q where
  rules := hrules
  diagnostics := hdiagnostics
  memory := ⟨_, hmemory⟩
  sheet := ⟨[], .nil, by rw [hsheet, Sheet.front_nil]⟩
  stands := by rwa [hsheet]
  node := by rwa [hsheet]
  lt_next := h.numbered.lt_of_node? hn
  next_le := by rw [hsheet]
  nodes i _ := by rw [hsheet]
  ancestors := by rw [hsheet]
  groupHas planned := by
    rw [Pass.groupHas, Pass.groupHas, groupAbove, groupAbove, groupBelow, groupBelow, hrules, hsheet, List.contains_nil,
      Bool.false_or]
  hasCopy planned := by
    rw [Pass.hasCopy, Pass.hasCopy, someSibling, someSibling, hsheet, List.contains_nil, Bool.false_or]

end Copied

/-- Asking for the indentation of a copy tells the pass how wide prefixes are, and changes nothing else. -/
theorem indentation_eq (p : Pass) (decl : Nat) (planned : Text) (prefixes : List Text) :
    ∃ widest, (p.indentation decl planned prefixes).2 = { p with memory := { p.memory with widest } } := by
  unfold indentation Pass.widest
  cases p.memory.widest.get? decl with
  | some n => exact ⟨p.memory.widest, rfl⟩
  | none => exact ⟨_, rfl⟩

theorem someDeclaration_eq (h : p.sheet.Stands rule decl d) (planned : Text) :
    (p.sheet.someDeclaration rule fun e => e.prop == planned ++ d.prop && e.value == d.value) =
      p.hasCopy decl d planned := by
  rw [hasCopy, someSibling, h.parent?, Option.any_some]

theorem insertCopy_of_hasCopy (h : p.sheet.Stands rule decl d) (hn : p.sheet.node? decl = some n)
    (hcopy : p.hasCopy decl d planned = true) (prefixes : List Text) :
    p.insertCopy .plain decl planned prefixes = (false, p) := by
  rw [insertCopy, hn, h.declaration?, Option.bind_some, spell?_plain, h.parent?]
  dsimp only
  rw [someDeclaration_eq h, hcopy, if_pos rfl]

theorem insertCopy_writes (h : p.sheet.Stands rule decl d) (hn : p.sheet.node? decl = some n)
    (hcopy : p.hasCopy decl d planned = false) (prefixes : List Text) :
    (p.insertCopy .plain decl planned prefixes).1 = true ∧
      WritesCopy decl n planned p (p.insertCopy .plain decl planned prefixes).2 := by
  have hself : (n.mapDeclaration fun _ => { d with prop := planned ++ d.prop }) =
      n.mapDeclaration fun d => { d with prop := planned ++ d.prop } := by
    have hd := h.declaration?_of_node? hn
    unfold Node.declaration? at hd
    unfold Node.mapDeclaration
    split at hd
    · rw [Option.some.inj hd]
    · cases hd
  rw [insertCopy, hn, h.declaration?, Option.bind_some, spell?_plain, h.parent?]
  dsimp only
  rw [someDeclaration_eq h, hcopy, if_neg Bool.false_ne_true, hself]
  cases p.needsCascade decl with
  | true =>
    obtain ⟨widest, hwidest⟩ := p.indentation_eq decl planned prefixes
    rw [if_pos rfl, hwidest]
    exact ⟨rfl, rfl, rfl, ⟨widest, rfl⟩, _, ⟨_, rfl⟩, rfl⟩
  | false =>
    rw [if_neg Bool.false_ne_true]
    exact ⟨rfl, rfl, rfl, ⟨p.memory.widest, rfl⟩, _, ⟨(n.mapDeclaration _).raws.before, rfl⟩, rfl⟩

/-! ## Scopes -/

/-- The scope of a node is told by what is known, by the rules and by the nodes up to the root. -/
theorem scopeAlong_congr {chain : List Nat} (hrules : q.rules = p.rules) (hmemory : q.memory.scope = p.memory.scope)
    (hchain : ∀ i ∈ chain, (q.sheet.node? i).map ownScope = (p.sheet.node? i).map ownScope) :
    (scopeAlong chain q).1 = (scopeAlong chain p).1 := by
  induction chain with
  | nil => rfl
  | cons i above ih =>
    have habove := ih fun j hj => hchain j (.tail _ hj)
    obtain ⟨facts, hp, -⟩ := scopeAlong_learns above p
    obtain ⟨facts', hq, -⟩ := scopeAlong_learns above q
    rw [scopeAlong, scopeAlong, hmemory, hchain i List.mem_cons_self]
    split
    · rfl
    · cases (p.sheet.node? i).map ownScope with
      | none => rfl
      | some own =>
        cases own with
        | none =>
          dsimp only
          rw [habove, hp, hq]
          exact congrArg (fun r : Rules => Option.filter (r.selection.vendors.contains ·) _) hrules
        | some own => exact congrArg (fun r : Rules => Option.filter (r.selection.vendors.contains ·) own) hrules

/-- What stands above a node and what it says itself tell its scope. -/
theorem scope_congr {id : Nat} (hs : p.sheet.IsNumbered) (hid : id < p.sheet.next) (hrules : q.rules = p.rules)
    (hmemory : q.memory.scope = p.memory.scope) (hchain : q.sheet.ancestors id = p.sheet.ancestors id)
    (hnodes : ∀ i < p.sheet.next, (q.sheet.node? i).map ownScope = (p.sheet.node? i).map ownScope) :
    (q.scope id).1 = (p.scope id).1 := by
  rw [scope, scope, hchain]
  refine scopeAlong_congr hrules hmemory fun i hi => hnodes i ?_
  rcases List.mem_cons.1 hi with rfl | hi
  · exact hid
  · exact hs.lt_next i (Sheet.mem_ids_of_mem_ancestors hi)

/-- A new pass over the sheet of a pass, with its rules. -/
def fresh (p : Pass) : Pass := { rules := p.rules, sheet := p.sheet }

/-! ## The declaration itself -/

/-- After its copies are written, a declaration may have other white space before it. -/
theorem alignWithCopies_eq (hs : p.sheet.IsNumbered) (hn : p.sheet.node? decl = some n) (prefixes : List Text) :
    ∃ before widest, p.alignWithCopies decl prefixes =
      { p with memory := { p.memory with widest }, sheet := p.sheet.setBefore decl before } := by
  rw [alignWithCopies]
  split
  · obtain ⟨widest, hwidest⟩ := (p.restoreIndentation decl).indentation_eq decl [] prefixes
    dsimp only
    rw [hwidest]
    refine ⟨((p.restoreIndentation decl).indentation decl [] prefixes).1, widest, ?_⟩
    dsimp only [edit, withSheet, restoreIndentation]
    rw [Sheet.setBefore_setBefore]
  · refine ⟨n.raws.before, p.memory.widest, ?_⟩
    rw [Sheet.setBefore_before hs hn]

end Pass

/-! ## All planned prefixes -/

namespace PropertyVariants

open Pass

theorem addVariant_eq (hplain : v.dialect = .plain) (h : p.sheet.Stands rule decl d) (planned : Text)
    (prefixes : List Text) : v.addVariant p decl planned prefixes =
      if Vendor.speaksToOther d.value planned || p.groupHas decl (planned ++ d.prop) then (false, p)
      else p.insertCopy .plain decl planned prefixes := by
  have hprefixed : PropertyDialect.prefixed .plain d.prop planned = planned ++ d.prop := rfl
  rw [addVariant, h.declaration?, hplain]
  dsimp only
  rw [hprefixed, insertFor_plain]

theorem addVariant_of_not_misses (hplain : v.dialect = .plain) (h : p.sheet.Stands rule decl d)
    (hn : p.sheet.node? decl = some n) (hmisses : p.misses decl d planned = false) (prefixes : List Text) :
    v.addVariant p decl planned prefixes = (false, p) := by
  rw [addVariant_eq hplain h]
  split
  · rfl
  · rename_i hnone
    rw [misses, ← Bool.not_or, Bool.eq_false_iff.2 hnone] at hmisses
    exact insertCopy_of_hasCopy h hn (by simpa using hmisses) prefixes

theorem addVariant_writes (hplain : v.dialect = .plain) (h : p.sheet.Stands rule decl d)
    (hn : p.sheet.node? decl = some n) (hmisses : p.misses decl d planned = true) (prefixes : List Text) :
    (v.addVariant p decl planned prefixes).1 = true ∧
      WritesCopy decl n planned p (v.addVariant p decl planned prefixes).2 := by
  rw [misses, ← Bool.not_or, Bool.and_eq_true, Bool.not_eq_true', Bool.not_eq_true'] at hmisses
  rw [addVariant_eq hplain h, hmisses.1, if_neg Bool.false_ne_true]
  exact insertCopy_writes h hn hmisses.2 prefixes

/-- The prefixes that get a copy are those that were missing at the start. -/
theorem addVariants_plain (hplain : v.dialect = .plain) (hunprefixed : Vendor.ofName d.prop = [])
    (hvendors : ∀ x ∈ prefixes, Vendor.IsVendor x) (hnodup : prefixes.Nodup) (hnew : ∀ x ∈ prefixes, x ∉ written)
    (h : Copied p rule decl n d written q) :
    (v.addVariants decl prefixes written q).1 = written ++ prefixes.filter (p.misses decl d) ∧
      Copied p rule decl n d (written ++ prefixes.filter (p.misses decl d))
        (v.addVariants decl prefixes written q).2 := by
  induction prefixes generalizing written q with
  | nil =>
    rw [List.filter_nil, List.append_nil]
    exact ⟨rfl, h⟩
  | cons planned prefixes ih =>
    have hrest : ∀ x ∈ prefixes, Vendor.IsVendor x := fun x hx => hvendors x (.tail _ hx)
    obtain ⟨hplanned, hnodup⟩ := List.nodup_cons.1 hnodup
    have hfresh : written.contains planned = false := by
      simpa using hnew planned List.mem_cons_self
    have hmisses := h.misses_eq planned
    rw [hfresh, Bool.not_false, Bool.and_true] at hmisses
    rw [addVariants]
    cases hmissing : q.misses decl d planned with
    | false =>
      rw [hmissing] at hmisses
      rw [addVariant_of_not_misses hplain h.stands h.node hmissing, List.filter_cons_of_neg (by simp [← hmisses])]
      exact ih hrest hnodup (fun x hx => hnew x (.tail _ hx)) h
    | true =>
      rw [hmissing] at hmisses
      obtain ⟨hadded, hwrites⟩ := addVariant_writes hplain h.stands h.node hmissing (written ++ [planned])
      have hstep := h.step hunprefixed (hvendors planned List.mem_cons_self) hwrites
      have hnew' : ∀ x ∈ prefixes, x ∉ written ++ [planned] := by
        intro x hx hmem
        rcases List.mem_append.1 hmem with hmem | hmem
        · exact hnew x (.tail _ hx) hmem
        · exact hplanned (List.mem_singleton.1 hmem ▸ hx)
      obtain ⟨hwritten, hcopied⟩ := ih hrest hnodup hnew' hstep
      rw [List.append_assoc] at hwritten hcopied
      rw [List.filter_cons_of_pos hmisses.symm]
      dsimp only
      rw [hadded, if_pos rfl]
      exact ⟨hwritten, hcopied⟩

/-- A declaration in a rule has a property that a prefix can be written before. -/
theorem accepts_plain (hplain : v.dialect = .plain) (h : p.sheet.Stands rule decl d) :
    v.accepts p.sheet decl = true := by
  rw [accepts, h.declaration?, h.parent?, hplain]
  rfl

/-- The planned prefixes that a declaration has no copy for, as far as the tree tells. -/
def missing (v : PropertyVariants) (p : Pass) (decl : Nat) (d : Declaration) : List Text :=
  (v.prefixes.filter (inScope (p.fresh.scope decl).1)).filter (p.misses decl d)

/-- A whole run writes the copies that were missing, and then moves the declaration if there are any. -/
theorem process_copied (hplain : v.dialect = .plain) (hunprefixed : Vendor.ofName d.prop = [])
    (hvendors : ∀ x ∈ v.prefixes, Vendor.IsVendor x) (hnodup : v.prefixes.Nodup) (h : p.sheet.Stands rule decl d)
    (hn : p.sheet.node? decl = some n) (hscope : (p.scope decl).1 = (p.fresh.scope decl).1) :
    ∃ q before, Copied p rule decl n d (v.missing p decl d) q ∧ (v.process p decl).rules = p.rules ∧
      (v.process p decl).diagnostics = p.diagnostics ∧
      (∃ widest, (v.process p decl).memory = { (p.scope decl).2.memory with widest }) ∧
      (v.process p decl).sheet = q.sheet.setBefore decl before ∧
      (v.missing p decl d = [] → (v.process p decl).sheet = p.sheet) := by
  obtain ⟨facts, hfacts, -⟩ := p.scope_learns decl
  have hstart : Copied p rule decl n d [] (p.withScopes facts) := .start h hn rfl rfl (by rw [hfacts]) rfl
  have hsub : (v.prefixes.filter (inScope (p.fresh.scope decl).1)).Sublist v.prefixes := List.filter_sublist
  obtain ⟨hwritten, hcopied⟩ := addVariants_plain hplain hunprefixed (fun x hx => hvendors x (hsub.mem hx))
    (hnodup.sublist hsub) (fun x _ => List.not_mem_nil) hstart
  rw [List.nil_append, ← missing] at hwritten hcopied
  rw [process, accepts_plain hplain h, if_pos rfl]
  dsimp only
  rw [hfacts, hscope, hwritten]
  cases hmissing : v.missing p decl d with
  | nil =>
    rw [hmissing] at hcopied
    obtain ⟨copies, hcopies, hsheet⟩ := hcopied.sheet
    cases hcopies
    rw [Sheet.front_nil] at hsheet
    have hmemory := hcopied.memory
    rw [hfacts] at hmemory
    refine ⟨_, n.raws.before, hcopied, hcopied.rules, hcopied.diagnostics, hmemory, ?_, fun _ => hsheet⟩
    rw [Sheet.setBefore_before hcopied.stands.numbered hcopied.node]
    rfl
  | cons first rest =>
    rw [hmissing] at hcopied
    rw [List.isEmpty_cons, if_neg Bool.false_ne_true]
    obtain ⟨before, widest, heq⟩ := alignWithCopies_eq hcopied.stands.numbered hcopied.node (first :: rest)
    obtain ⟨_, hmemory⟩ := hcopied.memory
    rw [hfacts] at hmemory
    rw [heq]
    exact ⟨_, before, hcopied, hcopied.rules, hcopied.diagnostics, ⟨widest, by rw [hmemory]⟩, rfl,
      fun hnil => absurd hnil (List.cons_ne_nil _ _)⟩

/-- Once the copies are there, nothing is missing. -/
theorem missing_of_copied (h : Copied p rule decl n d (v.missing p decl d) q) {before : Text}
    (hrules : q'.rules = p.rules) (hsheet : q'.sheet = q.sheet.setBefore decl before) (hp : p.sheet.IsNumbered) :
    v.missing q' decl d = [] := by
  have hs := h.stands.numbered
  have hchain : q'.sheet.ancestors decl = p.sheet.ancestors decl := by
    rw [hsheet, Sheet.ancestors_setBefore hs, h.ancestors]
  have hscope : (q'.fresh.scope decl).1 = (p.fresh.scope decl).1 := by
    refine scope_congr (p := p.fresh) hp h.lt_next hrules rfl hchain fun i hi => ?_
    have hnode : q'.sheet.node? i = (p.sheet.node? i).map fun n => if i = decl then n.withBefore before else n := by
      rw [hsheet, Sheet.node?_setBefore hs, h.nodes i hi]
    show (q'.sheet.node? i).map ownScope = (p.sheet.node? i).map ownScope
    rw [hnode, Option.map_map]
    congr 1
    funext n
    rw [Function.comp_apply]
    split <;> rfl
  rw [missing, hscope, List.filter_eq_nil_iff]
  intro planned hplanned hmisses
  rw [misses_setBefore h.stands (hrules.trans h.rules.symm) hsheet, h.misses_eq, Bool.and_eq_true] at hmisses
  have hwritten : planned ∈ v.missing p decl d := List.mem_filter.2 ⟨hplanned, hmisses.1⟩
  simp [hwritten] at hmisses

/-- A declaration of an unprefixed property gets a copy for each planned prefix that is missing from it, directly before
it and in the order of the plan, as long as what the pass remembers of scopes is true of the tree. Nothing else changes
but the white space before the declaration, and a new run over the sheet changes nothing. -/
theorem process_plain (hplain : v.dialect = .plain) (hvendors : ∀ x ∈ v.prefixes, Vendor.IsVendor x)
    (hnodup : v.prefixes.Nodup) (h : p.sheet.Stands rule decl d) (hunprefixed : Vendor.ofName d.prop = [])
    (hscope : (p.scope decl).1 = (p.fresh.scope decl).1) :
    (∃ n copies before, p.sheet.node? decl = some n ∧
        List.Forall₂ (Node.IsCopyFor · n) (v.missing p decl d) copies ∧
        (v.process p decl).sheet = (p.sheet.front decl copies).setBefore decl before) ∧
      (v.missing p decl d = [] → (v.process p decl).sheet = p.sheet) ∧
      (v.process p decl).rules = p.rules ∧ (v.process p decl).diagnostics = p.diagnostics ∧
      (v.process (v.process p decl).fresh decl).sheet = (v.process p decl).sheet ∧
      (v.process (v.process p decl).fresh decl).diagnostics = [] := by
  obtain ⟨n, hn, -⟩ := Option.bind_eq_some_iff.1 h.declaration?
  obtain ⟨q, before, hcopied, hrules, hdiagnostics, -, hsheet, hnone⟩ :=
    process_copied hplain hunprefixed hvendors hnodup h hn hscope
  obtain ⟨copies, hcopies, hfront⟩ := hcopied.sheet
  -- the second run is one over a sheet from which nothing is missing
  have hstands : (v.process p decl).fresh.sheet.Stands rule decl d := by
    rw [fresh, hsheet]
    exact hcopied.stands.setBefore decl before
  obtain ⟨n', hn', -⟩ := Option.bind_eq_some_iff.1 hstands.declaration?
  have hdone : v.missing (v.process p decl).fresh decl d = [] := missing_of_copied hcopied hrules hsheet h.numbered
  obtain ⟨-, -, -, -, hdiagnostics', -, -, hagain⟩ :=
    process_copied hplain hunprefixed hvendors hnodup hstands hn' rfl
  refine ⟨⟨n, copies, before, hn, hcopies, ?_⟩, hnone, hrules, hdiagnostics, hagain hdone, hdiagnostics'⟩
  rw [hsheet, hfront]

/-- A rule for one vendor only, with an indented declaration. -/
def tabSizePass : Pass where
  rules :=
    { (default : Rules) with
      selection := { agents := default, targets := [], vendors := ["-moz-", "-o-"] }
      options := {} }
  sheet := .ofRoot .root
    (.tree 1 (.rule "a:-moz-placeholder") (.tree 2 ((Node.declaration "tab-size" "4").withBefore "\n  ") .nil)) 3

/-- Prefixes of two vendors are planned. -/
def tabSizeVariants : PropertyVariants := { name := "tab-size", prefixes := ["-moz-", "-o-"], dialect := .plain }

/-- The one that may be written there is written, once. -/
theorem process_plain_tabSize :
    tabSizeVariants.missing tabSizePass 2 { prop := "tab-size", value := "4" } = ["-moz-"] ∧
      (∃ n copies before, tabSizePass.sheet.node? 2 = some n ∧ List.Forall₂ (Node.IsCopyFor · n)
          (tabSizeVariants.missing tabSizePass 2 { prop := "tab-size", value := "4" }) copies ∧
        (tabSizeVariants.process tabSizePass 2).sheet = (tabSizePass.sheet.front 2 copies).setBefore 2 before) ∧
      (tabSizeVariants.process (tabSizeVariants.process tabSizePass 2).fresh 2).sheet =
        (tabSizeVariants.process tabSizePass 2).sheet := by
  have hstands : tabSizePass.sheet.Stands 1 2 { prop := "tab-size", value := "4" } :=
    ⟨⟨by decide, by decide⟩, by decide +kernel⟩
  have hvendors : ∀ x ∈ tabSizeVariants.prefixes, Vendor.IsVendor x := by
    intro x hx
    refine Vendor.isVendor_of_known ?_
    revert x
    decide
  obtain ⟨hcopies, -, -, -, hagain, -⟩ :=
    process_plain rfl hvendors (by decide) hstands (by decide) rfl
  exact ⟨by decide +kernel, hcopies, hagain⟩

end PropertyVariants

end VendorCss
