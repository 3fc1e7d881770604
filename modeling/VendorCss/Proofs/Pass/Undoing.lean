import VendorCss.Proofs.FlexNames
import VendorCss.Proofs.Pass.Copies

/-!
# Copies written and taken away again

A pass that calls the copies of a declaration outdated takes them away one by one, and moves the rest of the family back
each time. The indentation of a family rises from its first member to the declaration (`IsStaircase`); a step takes the
first member away and lowers the others by the first difference that it meets, which leaves a rising family that starts
where the declaration was (`cleanDeclaration_first`). So when all copies are gone the declaration is where it was, and
the sheet is the one from before (`cleanDeclaration_process`).
-/

namespace VendorCss

variable {F : Focus} {decl next k : Nat} {n : Node} {d : Declaration} {r : Rules} {p q : Pass}
variable {ms done todo : List Member} {m : Member}

/-! ## Rising indentation -/

/-- The member further out by some spaces. -/
def Member.lower (w : Nat) (m : Member) : Member := { m with pad := m.pad - w }

/-- The first member is where the declaration was, and none is further out than one before it. Without a line before the
declaration all of them are where it was. -/
structure IsStaircase (base : Text) (ms : List Member) : Prop where
  first : ∀ m ∈ ms.head?, m.pad = 0
  rising : ms.Pairwise fun m m' => m.pad ≤ m'.pad
  flat : '\n' ∉ base → ∀ m ∈ ms, m.pad = 0

namespace Member

variable {width : Nat} {vendors : List Text}

theorem exists_of_mem_copies (h : m ∈ copies next width vendors) :
    ∃ v ∈ vendors, m.vendor = v ∧ m.pad = width - v.byteLength := by
  induction vendors generalizing next with
  | nil => cases h
  | cons v vs ih =>
    rcases List.mem_cons.1 h with rfl | h
    · exact ⟨v, List.mem_cons_self, rfl, rfl⟩
    · obtain ⟨u, hu, hpad⟩ := ih h
      exact ⟨u, .tail _ hu, hpad⟩

/-- Shorter vendors are further in. -/
theorem pairwise_copies (h : vendors.Pairwise fun v v' => v'.byteLength ≤ v.byteLength) :
    (copies next width vendors).Pairwise fun m m' => m.pad ≤ m'.pad := by
  induction vendors generalizing next with
  | nil => exact .nil
  | cons v vs ih =>
    obtain ⟨hv, hvs⟩ := List.pairwise_cons.1 h
    refine List.pairwise_cons.2 ⟨fun m hm => ?_, ih hvs⟩
    obtain ⟨u, hu, -, hpad⟩ := exists_of_mem_copies hm
    rw [hpad]
    exact Nat.sub_le_sub_left (hv u hu) width

end Member

namespace IsStaircase

/-- Without its first member a staircase is one again, if it is lowered far enough. -/
theorem tail_lower {base : Text} (h : IsStaircase base (m :: ms)) {w : Nat} (hw : ∀ m' ∈ ms.head?, m'.pad ≤ w) :
    IsStaircase base (ms.map (Member.lower w)) where
  first := by
    intro m' hm'
    rw [List.head?_map] at hm'
    obtain ⟨a, ha, rfl⟩ := Option.map_eq_some_iff.1 hm'
    exact Nat.sub_eq_zero_of_le (hw a ha)
  rising := (List.pairwise_cons.1 h.rising).2.map _ fun a b hab => Nat.sub_le_sub_right hab w
  flat := by
    intro hbase m' hm'
    obtain ⟨a, ha, rfl⟩ := List.mem_map.1 hm'
    rw [Member.lower, h.flat hbase a (.tail _ ha), Nat.zero_sub]

/-- A family whose vendors are written longest first is a staircase. -/
theorem family {written : List Text} (hsorted : written.Pairwise fun v v' => v'.byteLength ≤ v.byteLength) :
    IsStaircase n.raws.before (Pass.family r n decl next written (Pass.width r n written)) := by
  refine ⟨fun m hm => ?_, ?_, fun hbase m hm => ?_⟩
  · rw [Pass.family, Pass.width] at hm
    cases written with
    | nil =>
      obtain rfl := Option.some.inj hm
      simp
    | cons v vs =>
      obtain rfl := Option.some.inj hm
      by_cases hcascade : Pass.cascades r n = true <;> simp [hcascade]
  · rw [Pass.family, List.pairwise_append]
    refine ⟨Member.pairwise_copies hsorted, List.pairwise_singleton _ _, fun m hm m' hm' => ?_⟩
    obtain ⟨v, -, -, hpad⟩ := Member.exists_of_mem_copies hm
    rw [List.mem_singleton.1 hm', hpad]
    exact Nat.sub_le _ _
  · have hline : Text.contains n.raws.before "\n" = false := by
      rw [Bool.eq_false_iff]
      intro hcontains
      exact hbase ((Text.contains_iff.1 hcontains).subset (List.mem_singleton.2 rfl))
    have hcascade : Pass.cascades r n = false := by rw [Pass.cascades, hline, Bool.and_false]
    rw [Pass.family, Pass.width, hcascade, if_neg Bool.false_ne_true] at hm
    rcases List.mem_append.1 hm with hm | hm
    · obtain ⟨v, -, -, hpad⟩ := Member.exists_of_mem_copies hm
      rw [hpad, Nat.zero_sub]
    · rw [List.mem_singleton.1 hm]

end IsStaircase

/-! ## Moving members back -/

namespace Member

/-- Fitting into a gap is a matter of the numbers. -/
theorem fits_congr {ms' : List Member} (hids : ms'.map Member.id = ms.map Member.id)
    (h : F.Fits (leaves n d ms)) : F.Fits (leaves n d ms') := by
  constructor
  · rw [map_fst_leaves, hids, ← map_fst_leaves (n := n) (d := d)]
    exact h.nodup
  · rw [map_fst_leaves, hids, ← map_fst_leaves (n := n) (d := d)]
    exact h.notMem

theorem map_id_lower (w : Nat) (ms : List Member) : (ms.map (lower w)).map Member.id = ms.map Member.id := by
  rw [List.map_map]
  rfl

/-- What is taken from the last line of a member are spaces. -/
theorem withLastLine_lower (base : Text) {pad w : Nat} (hw : w ≤ pad) :
    Pass.withLastLine (base ++ List.replicate pad ' ') ((Pass.lastLine base ++ List.replicate pad ' ').take
      ((Pass.lastLine base ++ List.replicate pad ' ').length - w)) = base ++ List.replicate (pad - w) ' ' := by
  have htake : (Pass.lastLine base ++ List.replicate pad ' ').take
      ((Pass.lastLine base ++ List.replicate pad ' ').length - w) =
        Pass.lastLine base ++ List.replicate (pad - w) ' ' := by
    rw [List.length_append, List.length_replicate, Nat.add_sub_assoc hw, List.take_append, List.take_of_length_le (by omega),
      List.take_replicate]
    congr 2
    omega
  rw [htake, Pass.withLastLine_append base (Pass.notMem_replicate pad)]

end Member

namespace Pass

/-- A member in the middle is moved back. -/
theorem setBefore_lower (h : F.Fits (Member.leaves n d (done ++ m :: todo))) {w : Nat} (hw : w ≤ m.pad) :
    (F.leaves (Member.leaves n d (done ++ m :: todo)) k).setBefore m.id
        (withLastLine (n.raws.before ++ List.replicate m.pad ' ')
          ((lastLine n.raws.before ++ List.replicate m.pad ' ').take
            ((lastLine n.raws.before ++ List.replicate m.pad ' ').length - w))) =
      F.leaves (Member.leaves n d ((done ++ [m.lower w]) ++ todo)) k := by
  rw [Member.withLastLine_lower n.raws.before hw, Member.setBefore_eq h, List.append_assoc]
  rfl

/-- Once the width is known, all members further in are moved back by it. -/
theorem shiftBack_some (w : Nat) (hw : 0 < w) (htodo : ∀ m ∈ todo, w ≤ m.pad)
    (h : F.Fits (Member.leaves n d (done ++ todo))) :
    shiftBack (lastLine n.raws.before).length (todo.map Member.id) (some w)
        (F.leaves (Member.leaves n d (done ++ todo)) k) =
      F.leaves (Member.leaves n d (done ++ todo.map (Member.lower w))) k := by
  induction todo generalizing done with
  | nil => rfl
  | cons m todo ih =>
    have hpad := htodo m List.mem_cons_self
    have hbefore := Member.before_eq (k := k) h (List.mem_append_right done (List.mem_cons_self (a := m)))
    have hfits : F.Fits (Member.leaves n d ((done ++ [m.lower w]) ++ todo)) := by
      refine Member.fits_congr ?_ h
      simp [Member.lower]
    have hlong : ¬(lastLine n.raws.before ++ List.replicate m.pad ' ').length ≤ (lastLine n.raws.before).length := by
      rw [List.length_append, List.length_replicate]
      omega
    rw [List.map_cons, shiftBack]
    dsimp only
    rw [hbefore, lastLine_append _ (notMem_replicate _), if_neg hlong, Option.getD_some, setBefore_lower h hpad,
      ih (fun m' hm' => htodo m' (.tail _ hm')) hfits]
    simp

/-- Members are moved back by as much as the first one that is further in. -/
theorem shiftBack_none (hrising : todo.Pairwise fun m m' => m.pad ≤ m'.pad)
    (h : F.Fits (Member.leaves n d (done ++ todo))) :
    ∃ w, (∀ m ∈ todo.head?, m.pad ≤ w) ∧
      shiftBack (lastLine n.raws.before).length (todo.map Member.id) none
          (F.leaves (Member.leaves n d (done ++ todo)) k) =
        F.leaves (Member.leaves n d (done ++ todo.map (Member.lower w))) k := by
  induction todo generalizing done with
  | nil => exact ⟨0, fun m hm => absurd hm (Option.not_mem_none m), rfl⟩
  | cons m todo ih =>
    obtain ⟨hfirst, hrest⟩ := List.pairwise_cons.1 hrising
    have hbefore := Member.before_eq (k := k) h (List.mem_append_right done (List.mem_cons_self (a := m)))
    rw [List.map_cons, shiftBack]
    dsimp only
    rw [hbefore, lastLine_append _ (notMem_replicate _)]
    have hlength : (lastLine n.raws.before ++ List.replicate m.pad ' ').length =
        (lastLine n.raws.before).length + m.pad := by
      rw [List.length_append, List.length_replicate]
    cases Nat.eq_zero_or_pos m.pad with
    | inl hzero =>
      have hsplit : done ++ m :: todo = (done ++ [m]) ++ todo := List.append_cons done m todo
      rw [hsplit] at h
      obtain ⟨w, -, heq⟩ := ih hrest h
      have hsame : m.lower w = m := by
        rw [Member.lower, hzero, Nat.zero_sub, ← hzero]
      refine ⟨w, fun m' hm' => ?_, ?_⟩
      · obtain rfl := Option.some.inj hm'
        omega
      · rw [if_pos (by omega), hsplit, heq, List.map_cons, hsame, ← List.append_cons]
    | inr hpos =>
      have hfits : F.Fits (Member.leaves n d ((done ++ [m.lower m.pad]) ++ todo)) := by
        refine Member.fits_congr ?_ h
        simp [Member.lower]
      have hwidth : (lastLine n.raws.before ++ List.replicate m.pad ' ').length - (lastLine n.raws.before).length =
          m.pad := by
        omega
      refine ⟨m.pad, fun m' hm' => ?_, ?_⟩
      · obtain rfl := Option.some.inj hm'
        exact le_rfl
      · rw [if_neg (by omega), Option.getD_none, hwidth, setBefore_lower h le_rfl,
          shiftBack_some m.pad hpos hfirst hfits]
        simp

end Pass

/-! ## Switched off -/

namespace Facts

variable {α : Type} {i j : Nat}

theorem get?_cons_self (facts : Facts α) (i : Nat) (a : α) : Facts.get? ((i, a) :: facts) i = some a := by
  simp [get?]

theorem get?_cons_of_ne (facts : Facts α) (a : α) (h : j ≠ i) : Facts.get? ((i, a) :: facts) j = facts.get? j := by
  rw [get?, List.find?_cons_of_neg (by simpa using Ne.symm h)]
  rfl

end Facts

namespace Pass

variable {path : List Nat} {i j : Nat}

/-- A node is switched off by those above it, closest first. -/
def inherited (path : List Nat) (p : Pass) : Bool :=
  match path with
  | [] => false
  | parent :: _ => (disabledAlong path p).1 && !(disabledAlong path p).2.memory.ignored.contains parent

/-- A node without children or facts is switched off by the comment before it or by what stands above. -/
theorem disabledAlong_leaf (hfact : p.memory.disabled.get? i = none) (hchildren : p.sheet.children i = []) :
    disabledAlong (i :: path) p =
      if !path.isEmpty && isIgnored p.sheet i then
        (true, { p.learnDisabled i true with
          memory := { (p.learnDisabled i true).memory with ignored := i :: p.memory.ignored } })
      else (inherited path p, (disabledAlong path p).2.learnDisabled i (inherited path p)) := by
  have hswitch : switchIn p.sheet i Control.isSwitch = (none, []) := by
    rw [switchIn, hchildren]
    rfl
  rw [disabledAlong, hfact, hswitch]
  cases path <;> rfl

/-- What was found out about a node is remembered. -/
theorem get?_disabledAlong (i : Nat) (path : List Nat) (p : Pass) :
    (disabledAlong (i :: path) p).2.memory.disabled.get? i = some (disabledAlong (i :: path) p).1 := by
  rw [disabledAlong]
  split
  · rename_i known hknown
    exact hknown
  · split
    · exact Facts.get?_cons_self _ _ _
    · exact Facts.get?_cons_self _ _ _

/-- Nothing is found out about other nodes. -/
theorem get?_disabledAlong_of_notMem (hj : j ∉ path) (p : Pass) :
    (disabledAlong path p).2.memory.disabled.get? j = p.memory.disabled.get? j := by
  induction path generalizing p with
  | nil => rfl
  | cons i above ih =>
    obtain ⟨hi, habove⟩ := not_or.1 (mt List.mem_cons.2 hj)
    rw [disabledAlong]
    split
    · rfl
    · split
      · exact Facts.get?_cons_of_ne _ _ hi
      · dsimp only
        refine (Facts.get?_cons_of_ne _ _ hi).trans ?_
        have hwarn := congrArg (fun m : Memory => m.disabled.get? j)
          (memory_foldl_warn (switchIn p.sheet i Control.isSwitch).2 secondSwitch p)
        split
        · exact hwarn
        · exact hwarn
        · exact (ih habove _).trans hwarn

/-- Whether a node is switched off is told by the comments before and in the nodes above it. -/
theorem disabledAlong_congr (hmemory : p.memory = q.memory)
    (hpath : ∀ i ∈ path, isIgnored p.sheet i = isIgnored q.sheet i ∧
      (switchIn p.sheet i Control.isSwitch).1 = (switchIn q.sheet i Control.isSwitch).1) :
    (disabledAlong path p).1 = (disabledAlong path q).1 ∧
      (disabledAlong path p).2.memory = (disabledAlong path q).2.memory := by
  induction path generalizing p q with
  | nil => exact ⟨rfl, hmemory⟩
  | cons i above ih =>
    obtain ⟨hignored, hswitch⟩ := hpath i List.mem_cons_self
    rw [disabledAlong, disabledAlong, hmemory, hignored]
    -- the comments in a node may be others, as long as the first switch says the same
    generalize switchIn p.sheet i Control.isSwitch = found at hswitch
    generalize switchIn q.sheet i Control.isSwitch = found' at hswitch
    obtain ⟨switch, later⟩ := found
    obtain ⟨switch', later'⟩ := found'
    obtain rfl : switch = switch' := hswitch
    split
    · exact ⟨rfl, hmemory⟩
    · split
      · refine ⟨rfl, ?_⟩
        simp only [learnDisabled, hmemory]
      · have hwarned : (later.foldl (fun p i => p.warn i secondSwitch) p).memory =
            (later'.foldl (fun p i => p.warn i secondSwitch) q).memory := by
          rw [memory_foldl_warn, memory_foldl_warn, hmemory]
        have habove := ih hwarned fun j hj => by
          rw [sheet_foldl_warn, sheet_foldl_warn]
          exact hpath j (.tail _ hj)
        dsimp only
        split
        · exact ⟨rfl, by simp only [learnDisabled, hwarned]⟩
        · exact ⟨rfl, by simp only [learnDisabled, hwarned]⟩
        · rw [habove.1, habove.2]
          exact ⟨rfl, by simp only [learnDisabled, habove.2]⟩

/-! ## The nodes above the gap -/

variable {xs ys : List (Nat × Node)} {a b : Nat}

theorem node?_around (hxs : F.Fits xs) (hys : F.Fits ys) (hj : j ∈ F.ids) :
    (F.leaves xs a).node? j = (F.leaves ys b).node? j := by
  refine Focus.node?_sheet (fun hmem => ?_) fun hmem => ?_
  · rw [Forest.ids_row] at hmem
    exact hxs.notMem j hmem hj
  · rw [Forest.ids_row] at hmem
    exact hys.notMem j hmem hj

theorem isIgnored_path (hnodup : F.ids.Nodup) (hxs : F.Fits xs) (hys : F.Fits ys) (hi : i ∈ F.context.path) :
    isIgnored (F.leaves xs a) i = isIgnored (F.leaves ys b) i := by
  obtain ⟨run, hrun, hsiblings⟩ := Focus.siblings_path hnodup hi
  have hprev : ∀ g next, (F.sheet g next).prev? i = (run.takeWhile (· != i)).getLast? := by
    intro g next
    rw [Sheet.prev?, hsiblings g next]
  rw [isIgnored, isIgnored, Focus.leaves, Focus.leaves, hprev, hprev]
  cases hlast : (run.takeWhile (· != i)).getLast? with
  | none => rfl
  | some j =>
    have hj : j ∈ F.ids := hrun j ((List.takeWhile_prefix _).subset (List.mem_of_getLast? hlast))
    have hnode := node?_around (a := a) (b := b) hxs hys hj
    rw [Focus.leaves, Focus.leaves] at hnode
    rw [Option.bind_some, Option.bind_some, Sheet.comment?, Sheet.comment?, hnode]

/-- Declarations are no comments. -/
theorem switchIn_path (hnodup : F.ids.Nodup) (hxs : F.Fits xs) (hys : F.Fits ys)
    (hdx : ∀ x ∈ xs, x.2.comment? = none) (hdy : ∀ y ∈ ys, y.2.comment? = none) (hi : i ∈ F.context.path)
    (test : Text → Bool) : switchIn (F.leaves xs a) i test = switchIn (F.leaves ys b) i test := by
  obtain ⟨before, after, hmem, hchildren⟩ := Focus.children_path hnodup hi
  let found (s : Sheet) (i : Nat) : Option (Nat × Text) :=
    (s.comment? i).bind fun t => if test t then some (i, t) else none
  have haround : ∀ js : List Nat, (∀ j ∈ js, j ∈ before ++ after) →
      js.filterMap (found (F.leaves xs a)) = js.filterMap (found (F.leaves ys b)) := by
    intro js hjs
    refine List.filterMap_congr fun j hj => ?_
    have hnode := node?_around (a := a) (b := b) hxs hys (hmem j (hjs j hj))
    simp only [found, Sheet.comment?, hnode]
  have hgap : ∀ {zs : List (Nat × Node)} {c : Nat}, F.Fits zs → (∀ z ∈ zs, z.2.comment? = none) →
      (zs.map Prod.fst).filterMap (found (F.leaves zs c)) = [] := by
    intro zs c hzs hdz
    rw [List.filterMap_eq_nil_iff]
    intro j hj
    obtain ⟨⟨j', m⟩, hz, rfl⟩ := List.mem_map.1 hj
    simp only [found, Sheet.comment?, Focus.node?_leaves hzs hz, Option.bind_some, hdz _ hz, Option.bind_none]
  have hbefore := haround before fun j hj => List.mem_append_left _ hj
  have hafter := haround after fun j hj => List.mem_append_right _ hj
  have hall : ((F.leaves xs a).children i).filterMap (found (F.leaves xs a)) =
      ((F.leaves ys b).children i).filterMap (found (F.leaves ys b)) := by
    rcases hchildren with hchildren | hchildren
    · rw [Focus.leaves, Focus.leaves, hchildren, hchildren, List.filterMap_append, List.filterMap_append]
      exact congrArg₂ _ hbefore hafter
    · have hx := hchildren (.row xs) a
      have hy := hchildren (.row ys) b
      rw [Forest.tops_row] at hx hy
      rw [Focus.leaves, Focus.leaves, hx, hy]
      simp only [List.filterMap_append]
      rw [← Focus.leaves, ← Focus.leaves, hgap hxs hdx, hgap hys hdy, hbefore, hafter]
  unfold switchIn
  exact congrArg (fun found : List (Nat × Text) => (found.head?.map Prod.snd, found.tail.map Prod.fst)) hall

/-- Before the first leaf stands what stands before the gap. -/
theorem isIgnored_first {m m' : Node} (hxs : F.Fits ((i, m) :: xs)) (hys : F.Fits ((j, m') :: ys)) :
    isIgnored (F.leaves ((i, m) :: xs) a) i = isIgnored (F.leaves ((j, m') :: ys) b) j := by
  rw [isIgnored, isIgnored, Focus.prev?_leaves hxs, Focus.prev?_leaves hys]
  cases hlast : F.context.left.tops.getLast? with
  | none => rfl
  | some l =>
    have hmem := Forest.Context.mem_ids_of_mem_left (Forest.mem_ids_of_mem_tops (List.mem_of_getLast? hlast))
    have hl : l ∈ F.ids := List.mem_append_right _ (List.mem_append_left _ hmem)
    have hnode := node?_around (a := a) (b := b) hxs hys hl
    rw [Option.bind_some, Option.bind_some, Sheet.comment?, Sheet.comment?, hnode]

/-- What stands above a leaf has been asked about, and nothing else but the leaf. -/
theorem inherited_of_memory {value : Bool} (hmemory : q.memory = ((disabledAlong path p).2.learnDisabled i value).memory)
    (hi : i ∉ path) : inherited path q = inherited path p := by
  cases path with
  | nil => rfl
  | cons parent above =>
    obtain ⟨hparent, -⟩ := not_or.1 (mt List.mem_cons.2 hi)
    have hfact : q.memory.disabled.get? parent = some (disabledAlong (parent :: above) p).1 := by
      rw [hmemory, ← get?_disabledAlong parent above p]
      exact Facts.get?_cons_of_ne _ _ (Ne.symm hparent)
    have hknown : disabledAlong (parent :: above) q = ((disabledAlong (parent :: above) p).1, q) := by
      rw [disabledAlong, hfact]
    rw [inherited, inherited, hknown, hmemory]
    rfl

end Pass

/-! ## The group of a copy -/

/-- A gap where a declaration of a plain property stands with no member of its group above it, not switched off by the
comment before it. -/
structure Focus.Presents (F : Focus) (decl next : Nat) (n : Node) (d : Declaration) (r : Rules) : Prop
    extends F.Holds decl next n d where
  plain : PropertyDialect.ofName d.prop = .plain
  unprefixed : Vendor.ofName d.prop = []
  value : r.selection.holdsVendor d.value = false
  above : Pass.membersAbove r (PropertyName.standard d.prop)
    (Pass.declarationsAmong (F.leaves [(decl, n)] next) F.context.left.tops.reverse) = []
  notIgnored : (!F.context.path.isEmpty && Pass.isIgnored (F.leaves [(decl, n)] next) decl) = false

/-- A copy for a vendor whose name of the property is outdated. -/
structure Member.IsOutdated (r : Rules) (d : Declaration) (m : Member) : Prop where
  vendor : Vendor.IsVendor m.vendor
  removes : r.removes (m.vendor ++ d.prop) = true
  notRoot : m.id ≠ Sheet.rootId

/-- What a member says. -/
def Member.declaration (d : Declaration) (m : Member) : Declaration := { d with prop := m.vendor ++ d.prop }

/-- What members say, by their numbers. -/
def Member.declarations (d : Declaration) (ms : List Member) : List (Nat × Declaration) :=
  ms.map fun m => (m.id, m.declaration d)

namespace Focus.Presents

variable {pad : Nat}

theorem standard_self (h : F.Presents decl next n d r) : PropertyName.standard d.prop = d.prop := by
  refine PropertyName.standard_of_plain h.plain ?_
  rw [Vendor.unprefixed, h.unprefixed]
  rfl

theorem standard_member (h : F.Presents decl next n d r) (hm : m.IsOutdated r d) :
    PropertyName.standard (m.vendor ++ d.prop) = d.prop :=
  PropertyName.standard_of_plain h.plain (Vendor.unprefixed_append hm.vendor d.prop)

theorem isPlain_member (hm : m.IsOutdated r d) : Pass.isPlain r d.prop (m.declaration d) = false := by
  have hne : ¬(m.vendor ++ d.prop = d.prop) := fun h => hm.vendor.ne_nil (List.append_left_eq_self.1 h)
  rw [Pass.isPlain, Member.declaration, beq_eq_false_iff_ne.2 hne, Bool.false_and]

/-- A group goes down to the declaration. -/
theorem membersBelow_eq (h : F.Presents decl next n d r) (hms : ∀ m ∈ ms, m.IsOutdated r d)
    (rest : List (Nat × Declaration)) :
    Pass.membersBelow r d.prop (Member.declarations d (ms ++ [⟨decl, [], pad⟩]) ++ rest) =
      Member.declarations d (ms ++ [⟨decl, [], pad⟩]) := by
  induction ms with
  | nil =>
    have hplain : Pass.isPlain r d.prop d = true := by
      rw [Pass.isPlain, h.value, beq_self_eq_true]
      rfl
    simp only [Member.declarations, List.nil_append, List.map_cons, List.map_nil, List.cons_append, Pass.membersBelow,
      Member.declaration, h.standard_self, hplain]
    simp
  | cons m ms ih =>
    have hm := hms m List.mem_cons_self
    have hstandard : PropertyName.standard (m.declaration d).prop = d.prop := h.standard_member hm
    have hrest := ih fun m' hm' => hms m' (.tail _ hm')
    rw [Member.declarations] at hrest
    rw [Member.declarations, List.cons_append, List.map_cons, List.cons_append, Pass.membersBelow, hstandard,
      isPlain_member hm, hrest]
    simp

end Focus.Presents

/-! ## Taking copies away -/

namespace Pass

/-- A pass over a sheet with a family in the gap. -/
structure Shows (F : Focus) (n : Node) (d : Declaration) (r : Rules) (k : Nat) (ms : List Member) (p : Pass) : Prop where
  rules : p.rules = r
  sheet : p.sheet = F.leaves (Member.leaves n d ms) k
  fits : F.Fits (Member.leaves n d ms)

namespace Shows

variable {pad : Nat}

theorem declaration?_eq (h : Shows F n d r k ms p) (hm : m ∈ ms) :
    p.sheet.declaration? m.id = some (m.declaration d) := by
  rw [h.sheet]
  exact Member.declaration?_eq h.fits hm

theorem before_eq (h : Shows F n d r k ms p) (hm : m ∈ ms) :
    p.sheet.before m.id = n.raws.before ++ List.replicate m.pad ' ' := by
  rw [h.sheet]
  exact Member.before_eq h.fits hm

theorem declarationsAmong_eq (h : Shows F n d r k ms p) {ms' : List Member} (hsub : ms' ⊆ ms) :
    declarationsAmong p.sheet (ms'.map Member.id) = Member.declarations d ms' := by
  induction ms' with
  | nil => rfl
  | cons m ms' ih =>
    obtain ⟨hm, hsub⟩ := List.cons_subset.1 hsub
    rw [List.map_cons, declarationsAmong, List.filterMap_cons, h.declaration?_eq hm, ← declarationsAmong, ih hsub]
    rfl

theorem groupAbove_first (h : Shows F n d r k (m :: ms) p) (hF : F.Presents decl next n d r)
    (hm : m.IsOutdated r d) : p.groupAbove m.id = [] := by
  have hfits := h.fits
  have hfits₀ : F.Fits [(decl, n)] := ⟨List.nodup_singleton _, by simpa using hF.notMem⟩
  have hleft : declarationsAmong p.sheet F.context.left.tops.reverse =
      declarationsAmong (F.leaves [(decl, n)] next) F.context.left.tops.reverse := by
    rw [h.sheet]
    refine declarationsAmong_left hfits hfits₀ fun j hj => ?_
    have hmem := Forest.Context.mem_ids_of_mem_left (Forest.mem_ids_of_mem_tops (List.mem_reverse.1 hj))
    exact List.mem_append_right _ (List.mem_append_left _ hmem)
  have hprev : p.sheet.prevSiblings m.id = F.context.left.tops.reverse := by
    have hcut : F.Fits ([] ++ (m.id, m.node n d) :: Member.leaves n d ms) := hfits
    rw [h.sheet]
    exact Focus.prevSiblings_leaves hcut
  have hstandard : PropertyName.standard (m.declaration d).prop = d.prop := hF.standard_member hm
  have habove := hF.above
  rw [hF.standard_self] at habove
  rw [groupAbove, h.declaration?_eq List.mem_cons_self]
  dsimp only
  rw [hstandard, hprev, hleft, h.rules, habove]

theorem groupBelow_first (h : Shows F n d r k (m :: (ms ++ [⟨decl, [], pad⟩])) p) (hF : F.Presents decl next n d r)
    (hms : ∀ m' ∈ m :: ms, m'.IsOutdated r d) :
    p.groupBelow m.id = Member.declarations d (ms ++ [⟨decl, [], pad⟩]) := by
  have hm := hms m List.mem_cons_self
  have hnext : p.sheet.nextSiblings m.id =
      (ms ++ [⟨decl, [], pad⟩] : List Member).map Member.id ++ F.context.right.tops := by
    have hcut : F.Fits ([] ++ (m.id, m.node n d) :: Member.leaves n d (ms ++ [⟨decl, [], pad⟩])) := h.fits
    rw [h.sheet, ← Member.map_fst_leaves (n := n) (d := d)]
    exact Focus.nextSiblings_leaves hcut
  have hstandard : PropertyName.standard (m.declaration d).prop = d.prop := hF.standard_member hm
  rw [groupBelow, h.declaration?_eq List.mem_cons_self]
  dsimp only
  rw [hstandard, hnext, declarationsAmong, List.filterMap_append, ← declarationsAmong, h.rules,
    h.declarationsAmong_eq (List.subset_cons_self m _)]
  exact hF.membersBelow_eq (fun m' hm' => hms m' (.tail _ hm')) _

/-- The group of a copy goes on with the declaration. -/
theorem goesOnWith_first (h : Shows F n d r k (m :: (ms ++ [⟨decl, [], pad⟩])) p) (hF : F.Presents decl next n d r)
    (hms : ∀ m' ∈ m :: ms, m'.IsOutdated r d) : p.goesOnWith m.id d.prop = true := by
  rw [goesOnWith, h.groupBelow_first hF hms, Bool.or_eq_true]
  refine .inr (List.any_eq_true.2 ⟨(decl, d), ?_, ?_⟩)
  · exact List.mem_map.2 ⟨⟨decl, [], pad⟩, by simp, rfl⟩
  · exact beq_iff_eq.2 (PropertyName.normalize_of_plain hF.plain)

/-- The members below the first one are moved back by the first difference, if there is a line before them. -/
theorem reduceIndentation_first (h : Shows F n d r k (m :: (ms ++ [⟨decl, [], pad⟩])) p)
    (hF : F.Presents decl next n d r) (hms : ∀ m' ∈ m :: ms, m'.IsOutdated r d)
    (hstairs : IsStaircase n.raws.before (m :: (ms ++ [⟨decl, [], pad⟩]))) :
    ∃ w s, (∀ m' ∈ (ms ++ [⟨decl, [], pad⟩] : List Member).head?, m'.pad ≤ w) ∧
      (if Text.contains (p.sheet.before m.id) "\n" then p.reduceIndentation m.id else p) = p.withSheet s ∧
      s = F.leaves (Member.leaves n d (m :: (ms ++ [⟨decl, [], pad⟩] : List Member).map (Member.lower w))) k := by
  have hpad : m.pad = 0 := hstairs.first m rfl
  have hbefore : p.sheet.before m.id = n.raws.before := by
    rw [h.before_eq List.mem_cons_self, hpad]
    exact List.append_nil _
  rw [hbefore]
  by_cases hline : Text.contains n.raws.before "\n" = true
  · have hfits : F.Fits (Member.leaves n d ([m] ++ (ms ++ [⟨decl, [], pad⟩]))) := h.fits
    obtain ⟨w, hw, hshift⟩ := shiftBack_none (k := k) (List.pairwise_cons.1 hstairs.rising).2 hfits
    refine ⟨w, _, hw, ?_, hshift⟩
    have hids : (Member.declarations d (ms ++ [⟨decl, [], pad⟩])).map Prod.fst =
        (ms ++ [⟨decl, [], pad⟩] : List Member).map Member.id := by
      rw [Member.declarations, List.map_map]
      rfl
    rw [if_pos hline, reduceIndentation, h.groupAbove_first hF (hms m List.mem_cons_self), if_pos List.isEmpty_nil,
      h.groupBelow_first hF hms, hids, hbefore, edit, h.sheet]
    rfl
  · have hflat : '\n' ∉ n.raws.before := by
      intro hmem
      obtain ⟨before, after, hsplit⟩ := List.append_of_mem hmem
      exact hline (Text.contains_iff.2 ⟨before, after, by rw [hsplit]; simp⟩)
    have hsame : (ms ++ [⟨decl, [], pad⟩] : List Member).map (Member.lower 0) = ms ++ [⟨decl, [], pad⟩] :=
      (List.map_congr_left fun _ _ => rfl).trans (List.map_id _)
    refine ⟨0, p.sheet, fun m' hm' => ?_, ?_, ?_⟩
    · exact (hstairs.flat hflat m' (.tail _ (List.mem_of_mem_head? hm'))).le
    · rw [if_neg hline]
      rfl
    · rw [hsame, h.sheet]

/-- The first copy goes. -/
theorem cleanProperty_first (h : Shows F n d r k (m :: (ms ++ [⟨decl, [], pad⟩])) p) (hF : F.Presents decl next n d r)
    (hms : ∀ m' ∈ m :: ms, m'.IsOutdated r d)
    (hstairs : IsStaircase n.raws.before (m :: (ms ++ [⟨decl, [], pad⟩]))) :
    ∃ w, (∀ m' ∈ (ms ++ [⟨decl, [], pad⟩] : List Member).head?, m'.pad ≤ w) ∧
      p.cleanProperty m.id (m.declaration d) = (true, p.withSheet
        (F.leaves (Member.leaves n d ((ms ++ [⟨decl, [], pad⟩] : List Member).map (Member.lower w))) k)) := by
  have hm := hms m List.mem_cons_self
  have hprop : ∀ name : Text, (m.declaration d).prop = name → PropertyDialect.ofName (Vendor.unprefixed name) = .plain := by
    rintro name rfl
    rw [Member.declaration, Vendor.unprefixed_append hm.vendor d.prop]
    exact hF.plain
  have hremoves : p.rules.removes (m.declaration d).prop = true := by
    rw [h.rules]
    exact hm.removes
  have horient : (m.declaration d).prop ≠ "-webkit-box-orient" := fun heq => absurd (hprop _ heq) (by decide)
  have hclip : (m.declaration d).prop ≠ "-webkit-background-clip" := fun heq => absurd (hprop _ heq) (by decide)
  have hstandard : PropertyName.standard (m.declaration d).prop = d.prop := hF.standard_member hm
  obtain ⟨w, s, hw, hreduce, hs⟩ := h.reduceIndentation_first hF hms hstairs
  have hremove : s.remove m.id =
      F.leaves (Member.leaves n d ((ms ++ [⟨decl, [], pad⟩] : List Member).map (Member.lower w))) k := by
    rw [hs, Member.leaves_cons]
    refine Focus.remove_leaves hF.filled ?_ hm.notRoot (by simp [Member.leaves])
    rw [← Member.leaves_cons]
    refine Member.fits_congr ?_ h.fits
    rw [List.map_cons, List.map_cons, Member.map_id_lower]
  refine ⟨w, hw, ?_⟩
  unfold cleanProperty
  rw [hremoves, hstandard, h.goesOnWith_first hF hms]
  simp only [horient, hasNoStandardForm, hclip, decide_false, Bool.false_and, Bool.not_true, Bool.not_false,
    Bool.true_and, Bool.false_eq_true, ↓reduceIte, hreduce]
  rw [← hremove]
  rfl

end Shows

/-- A pass that has taken some copies away: it knows nothing about what is left of the family, but that nothing above
switches it off. -/
structure Undoing (F : Focus) (n : Node) (d : Declaration) (r : Rules) (k : Nat) (ms : List Member) (p : Pass) : Prop
    extends Shows F n d r k ms p where
  fresh : ∀ m ∈ ms, p.memory.disabled.get? m.id = none
  notInherited : inherited F.context.path p = false

namespace Undoing

variable {pad : Nat}

/-- The first copy is not switched off. -/
theorem disabled_first (h : Undoing F n d r k (m :: ms) p) (hF : F.Presents decl next n d r) :
    p.disabled m.id = (false, (disabledAlong F.context.path p).2.learnDisabled m.id false) := by
  have hfits : F.Fits ((m.id, m.node n d) :: Member.leaves n d ms) := h.fits
  have hfits₀ : F.Fits [(decl, n)] := ⟨List.nodup_singleton _, by simpa using hF.notMem⟩
  have hancestors : p.sheet.ancestors m.id = F.context.path := by
    rw [h.sheet]
    exact Focus.ancestors_leaves hfits (List.mem_cons_self)
  have hchildren : p.sheet.children m.id = [] := by
    have hfind := Forest.find?_row hfits.nodup List.mem_cons_self
    rw [Sheet.children, Sheet.kids, h.sheet, Focus.leaves,
      Focus.find?_sheet (hfits.notMem m.id List.mem_cons_self), Member.leaves_cons, hfind]
    rfl
  have hignored : (!F.context.path.isEmpty && isIgnored p.sheet m.id) = false := by
    rw [h.sheet, Member.leaves_cons, isIgnored_first (b := next) hfits hfits₀]
    exact hF.notIgnored
  rw [disabled, hancestors, disabledAlong_leaf (h.fresh m List.mem_cons_self) hchildren, hignored, h.notInherited,
    if_neg Bool.false_ne_true]

/-- A step takes the first copy away, and leaves a family that starts where the declaration was. -/
theorem cleanDeclaration_first (h : Undoing F n d r k (m :: (ms ++ [⟨decl, [], pad⟩])) p)
    (hF : F.Presents decl next n d r) (hms : ∀ m' ∈ m :: ms, m'.IsOutdated r d)
    (hstairs : IsStaircase n.raws.before (m :: (ms ++ [⟨decl, [], pad⟩]))) :
    ∃ w, IsStaircase n.raws.before ((ms ++ [⟨decl, [], pad⟩] : List Member).map (Member.lower w)) ∧
      Undoing F n d r k ((ms ++ [⟨decl, [], pad⟩] : List Member).map (Member.lower w)) (p.cleanDeclaration m.id) := by
  have hlearns := disabledAlong_learns F.context.path p
  let q : Pass := (disabledAlong F.context.path p).2.learnDisabled m.id false
  have hq : Shows F n d r k (m :: (ms ++ [⟨decl, [], pad⟩])) q :=
    ⟨hlearns.rules.trans h.rules, hlearns.sheet.trans h.sheet, h.fits⟩
  obtain ⟨w, hw, hclean⟩ := hq.cleanProperty_first hF hms hstairs
  have hlist : Transition.properties.contains (m.declaration d).prop = false := by
    have hhead : (m.declaration d).prop.head? = some '-' := by
      rw [Member.declaration, List.head?_append_of_ne_nil _ (hms m List.mem_cons_self).vendor.ne_nil]
      exact (hms m List.mem_cons_self).vendor.head?_eq
    rw [← Bool.not_eq_true, List.contains_iff_mem]
    intro hmem
    have hall : ∀ name ∈ Transition.properties, name.head? ≠ some '-' := by decide
    exact hall _ hmem hhead
  have hstep : p.cleanDeclaration m.id = q.withSheet
      (F.leaves (Member.leaves n d ((ms ++ [⟨decl, [], pad⟩] : List Member).map (Member.lower w))) k) := by
    have hsaid : q.sheet.declaration? m.id = some (m.declaration d) := hq.declaration?_eq List.mem_cons_self
    rw [cleanDeclaration, h.disabled_first hF]
    dsimp only
    rw [if_neg Bool.false_ne_true, hsaid]
    dsimp only
    rw [hlist, if_neg Bool.false_ne_true, hclean]
    rfl
  have hnotPath : ∀ m' ∈ m :: (ms ++ [⟨decl, [], pad⟩]), m'.id ∉ F.context.path := by
    intro m' hm' hmem
    refine h.fits.notMem m'.id ?_ ?_
    · rw [Member.map_fst_leaves]
      exact List.mem_map_of_mem hm'
    · exact List.mem_append_right _ (List.mem_append_left _ (Forest.Context.mem_ids_of_mem_path hmem))
  have hfits : F.Fits (Member.leaves n d ((ms ++ [⟨decl, [], pad⟩] : List Member).map (Member.lower w))) :=
    Member.fits_congr (Member.map_id_lower w _) (Focus.Fits.tail h.fits)
  refine ⟨w, hstairs.tail_lower hw, ?_⟩
  rw [hstep]
  refine ⟨⟨hq.rules, rfl, hfits⟩, fun m' hm' => ?_, ?_⟩
  · obtain ⟨a, ha, rfl⟩ := List.mem_map.1 hm'
    have hne : a.id ≠ m.id := by
      have hnodup := h.fits.nodup
      rw [Member.map_fst_leaves, List.map_cons, List.nodup_cons] at hnodup
      intro heq
      exact hnodup.1 (heq ▸ List.mem_map_of_mem ha)
    refine (Facts.get?_cons_of_ne _ _ hne).trans ?_
    rw [get?_disabledAlong_of_notMem (hnotPath a (.tail _ ha))]
    exact h.fresh a (.tail _ ha)
  · have hmemory : (q.withSheet (F.leaves (Member.leaves n d
        ((ms ++ [⟨decl, [], pad⟩] : List Member).map (Member.lower w))) k)).memory =
          ((disabledAlong F.context.path p).2.learnDisabled m.id false).memory := rfl
    exact (inherited_of_memory hmemory (hnotPath m List.mem_cons_self)).trans h.notInherited

/-- The run of steps over all copies. -/
theorem foldl_cleanDeclaration (hF : F.Presents decl next n d r) (hms : ∀ m ∈ ms, m.IsOutdated r d)
    (hstairs : IsStaircase n.raws.before (ms ++ [⟨decl, [], pad⟩]))
    (h : Undoing F n d r k (ms ++ [⟨decl, [], pad⟩]) p) :
    ((ms.map Member.id).foldl cleanDeclaration p).sheet = F.leaves [(decl, n)] k := by
  -- a step lowers the members left, so the induction is on their number
  induction hcount : ms.length generalizing ms pad p with
  | zero =>
    obtain rfl := List.eq_nil_of_length_eq_zero hcount
    have hpad : pad = 0 := hstairs.first ⟨decl, [], pad⟩ rfl
    have hleaves := h.sheet
    rw [hpad, List.nil_append, Member.leaves, List.map_singleton, Member.node_self hF.declaration] at hleaves
    exact hleaves
  | succ count ih =>
    cases ms with
    | nil => cases hcount
    | cons m ms =>
      have hlower : ∀ w, (ms ++ [⟨decl, [], pad⟩] : List Member).map (Member.lower w) =
          ms.map (Member.lower w) ++ [⟨decl, [], pad - w⟩] := fun w => List.map_append
      obtain ⟨w, hstairs', h'⟩ := h.cleanDeclaration_first hF hms hstairs
      rw [hlower] at hstairs' h'
      rw [List.map_cons, List.foldl_cons, ← Member.map_id_lower w ms]
      refine ih (fun m' hm' => ?_) hstairs' h' ?_
      · obtain ⟨a, ha, rfl⟩ := List.mem_map.1 hm'
        obtain ⟨hvendor, hremoves, hroot⟩ := hms a (.tail _ ha)
        exact ⟨hvendor, hremoves, hroot⟩
      · rw [List.length_map]
        exact Nat.succ.inj hcount

end Undoing

end Pass

/-! ## Undoing -/

/-- The numbers of the copies are those that were not given before. -/
theorem Focus.Holds.filter_ids (hF : F.Holds decl next n d) (width pad : Nat) (vendors : List Text) :
    (F.leaves (Member.leaves n d (Member.copies next width vendors ++ [⟨decl, [], pad⟩])) k).ids.filter
        (fun i => next ≤ i) = (Member.copies next width vendors).map Member.id := by
  obtain ⟨before, after, hids, hsheet⟩ := F.exists_ids_sheet
  have hlt := hF.lt_next
  rw [hids] at hlt
  have hold : ∀ is : List Nat, (∀ i ∈ is, i < next) → is.filter (fun i => next ≤ i) = [] := by
    intro is his
    rw [List.filter_eq_nil_iff]
    intro i hi
    simpa using his i hi
  have hnew : (List.range' next vendors.length).filter (fun i => next ≤ i) = List.range' next vendors.length := by
    rw [List.filter_eq_self]
    intro i hi
    simpa using (List.mem_range'_1.1 hi).1
  have hdecl : [decl].filter (fun i => next ≤ i) = [] := hold [decl] (by simpa using hF.decl_lt)
  rw [Focus.leaves, hsheet, Forest.ids_row, Member.map_fst_leaves, List.map_append, Member.ids_copies,
    List.filter_append, List.filter_append, List.filter_append, hnew,
    hold before fun i hi => hlt i (List.mem_append_left _ hi), hold after fun i hi => hlt i (List.mem_append_right _ hi)]
  simpa using hdecl

namespace Focus.Holds

theorem fits_single (hF : F.Holds decl next n d) : F.Fits [(decl, n)] :=
  ⟨List.nodup_singleton _, by simpa using hF.notMem⟩

/-- The group above the declaration is told by what stands before the gap. -/
theorem groupAbove_eq (hF : F.Holds decl next n d) (hsheet : p.sheet = F.leaves [(decl, n)] next) :
    p.groupAbove decl = Pass.membersAbove p.rules (PropertyName.standard d.prop)
      (Pass.declarationsAmong (F.leaves [(decl, n)] next) F.context.left.tops.reverse) := by
  have hcut : F.Fits ([] ++ (decl, n) :: []) := hF.fits_single
  have hprev : p.sheet.prevSiblings decl = F.context.left.tops.reverse := by
    rw [hsheet]
    exact Focus.prevSiblings_leaves hcut
  have hdeclaration : p.sheet.declaration? decl = some d := by
    rw [Sheet.declaration?, hsheet, Focus.node?_leaves hF.fits_single List.mem_cons_self]
    exact hF.declaration
  rw [Pass.groupAbove, hdeclaration]
  dsimp only
  rw [hprev, hsheet]

/-- A declaration that is not switched off is not so by a comment before it, nor by what stands above. -/
theorem of_not_disabled (hF : F.Holds decl next n d) (hsheet : p.sheet = F.leaves [(decl, n)] next)
    (hfact : p.memory.disabled.get? decl = none) (hoff : (p.disabled decl).1 = false) :
    (!F.context.path.isEmpty && Pass.isIgnored (F.leaves [(decl, n)] next) decl) = false ∧
      Pass.inherited F.context.path p = false := by
  have hfits := hF.fits_single
  have hancestors : p.sheet.ancestors decl = F.context.path := by
    rw [hsheet]
    exact Focus.ancestors_leaves hfits List.mem_cons_self
  have hchildren : p.sheet.children decl = [] := by
    rw [Sheet.children, Sheet.kids, hsheet, Focus.leaves, Focus.find?_sheet hF.notMem,
      Forest.find?_row hfits.nodup List.mem_cons_self]
    rfl
  rw [Pass.disabled, hancestors, Pass.disabledAlong_leaf hfact hchildren] at hoff
  cases hignored : (!F.context.path.isEmpty && Pass.isIgnored p.sheet decl) with
  | true =>
    rw [hignored, if_pos rfl] at hoff
    cases hoff
  | false =>
    rw [hignored, if_neg Bool.false_ne_true] at hoff
    rw [hsheet] at hignored
    exact ⟨hignored, hoff⟩

end Focus.Holds

/-- Members are declarations. -/
theorem Member.comment?_leaves {x : Nat × Node} (hx : x ∈ leaves n d ms) : x.2.comment? = none := by
  obtain ⟨m, -, rfl⟩ := List.mem_map.1 hx
  rfl

/-- What stands above the gap switches off a family as it does the declaration. -/
theorem Pass.inherited_congr (hF : F.Holds decl next n d) (hfits : F.Fits (Member.leaves n d ms))
    (hp : p.sheet = F.leaves [(decl, n)] next) (hq : q.sheet = F.leaves (Member.leaves n d ms) k)
    (hmemory : p.memory = q.memory) : inherited F.context.path q = inherited F.context.path p := by
  have hself : [(decl, n)] = Member.leaves n d [⟨decl, [], 0⟩] := by
    rw [Member.leaves, List.map_singleton, Member.node_self hF.declaration]
  have hpath : ∀ i ∈ F.context.path, isIgnored p.sheet i = isIgnored q.sheet i ∧
      (switchIn p.sheet i Control.isSwitch).1 = (switchIn q.sheet i Control.isSwitch).1 := by
    intro i hi
    rw [hp, hq]
    refine ⟨isIgnored_path hF.nodup hF.fits_single hfits hi, congrArg Prod.fst ?_⟩
    refine switchIn_path hF.nodup hF.fits_single hfits (fun x hx => ?_) (fun y hy => ?_) hi _
    · rw [hself] at hx
      exact Member.comment?_leaves hx
    · exact Member.comment?_leaves hy
  obtain ⟨hvalue, hlearned⟩ := disabledAlong_congr hmemory hpath
  unfold inherited
  split
  · rfl
  · rename_i hpath
    rw [hvalue, hlearned]

open Pass in
/-- Copies that are written for a plain declaration, and then called outdated by other rules, leave the tree as it was:
all nodes, with the white space before them. -/
theorem PropertyVariants.cleanDeclaration_process (v : PropertyVariants) (p : Pass) (Q : Rules)
    (hs : p.sheet.IsNumbered) (hruns : ∀ f ∈ p.sheet.runs, f.isNil = false)
    (hnode : p.sheet.find? decl = some (n, .nil)) (hd : n.declaration? = some d)
    (hplain : PropertyDialect.ofName d.prop = .plain) (hunprefixed : Vendor.ofName d.prop = [])
    (hvalue : Q.selection.holdsVendor d.value = false)
    (habove : ∀ rules ∈ [p.rules, Q], ({ p with rules } : Pass).groupAbove decl = [])
    (hoff : (({ rules := Q, sheet := p.sheet } : Pass).disabled decl).1 = false)
    (hwidest : p.memory.widest.get? decl = none)
    (hdialect : v.dialect = PropertyDialect.ofName d.prop) (hvendors : ∀ x ∈ v.prefixes, Vendor.IsVendor x)
    (hsorted : v.prefixes.Pairwise fun x y => y.byteLength ≤ x.byteLength)
    (hremoves : ∀ x ∈ v.prefixes, Q.removes (x ++ d.prop) = true) :
    let added := (v.process p decl).sheet
    let copies := added.ids.filter fun i => p.sheet.next ≤ i
    (copies.foldl cleanDeclaration { rules := Q, sheet := added }).sheet.runs = p.sheet.runs := by
  obtain ⟨F, hsheet, hnotMem, hnodup, hlt, hfilled⟩ := Sheet.exists_focus hs hnode
  have hdecl : decl < p.sheet.next := by
    refine hs.lt_of_node? (n := n) ?_
    rw [Sheet.node?, hnode]
    rfl
  have hleaves : p.sheet = F.leaves [(decl, n)] p.sheet.next := hsheet
  have hF : F.Holds decl p.sheet.next n d :=
    ⟨hd, hnotMem, hnodup, hlt, hdecl, fun f hf => hruns f (hfilled f hf)⟩
  -- both rules see no group above
  have hnone : ∀ rules ∈ [p.rules, Q], membersAbove rules (PropertyName.standard d.prop)
      (declarationsAmong (F.leaves [(decl, n)] p.sheet.next) F.context.left.tops.reverse) = [] := fun rules hrules =>
    (hF.groupAbove_eq (p := { p with rules }) hleaves).symm.trans (habove rules hrules)
  let plain : Pass := { rules := Q, sheet := p.sheet }
  obtain ⟨hnotIgnored, hinherited⟩ := hF.of_not_disabled (p := plain) hleaves rfl hoff
  have hpresents : F.Presents decl p.sheet.next n d Q :=
    ⟨hF, hplain, hunprefixed, hvalue, hnone Q (by simp), hnotIgnored⟩
  obtain ⟨written, hwritten, hadded⟩ := PropertyVariants.exists_process_sheet hF (hdialect.trans hplain) hvendors hleaves
    hwidest (hnone p.rules (by simp))
  have hfits := hF.fits le_rfl (width p.rules n written) (width p.rules n written) written
  let start : Pass := { rules := Q, sheet := (v.process p decl).sheet }
  have hundoing : Undoing F n d Q (p.sheet.next + written.length)
      (family p.rules n decl p.sheet.next written (width p.rules n written)) start :=
    ⟨⟨rfl, hadded, hfits⟩, fun _ _ => rfl,
      (inherited_congr (p := plain) (q := start) hF hfits hleaves hadded rfl).trans hinherited⟩
  have houtdated : ∀ m ∈ Member.copies p.sheet.next (width p.rules n written) written, m.IsOutdated Q d := by
    intro m hm
    obtain ⟨x, hx, hvendor, -⟩ := Member.exists_of_mem_copies hm
    have hid : m.id ∈ List.range' p.sheet.next written.length := by
      rw [← Member.ids_copies p.sheet.next (width p.rules n written)]
      exact List.mem_map_of_mem hm
    rw [List.mem_range'_1] at hid
    have hx' := hwritten.mem hx
    rw [← hvendor] at hx'
    refine ⟨hvendors _ hx', hremoves _ hx', ?_⟩
    rw [Sheet.rootId]
    omega
  have hstairs : IsStaircase n.raws.before
      (family p.rules n decl p.sheet.next written (width p.rules n written)) := .family (hsorted.sublist hwritten)
  have hend := hundoing.foldl_cleanDeclaration hpresents houtdated hstairs
  have hcopies : (v.process p decl).sheet.ids.filter (fun i => p.sheet.next ≤ i) =
      (Member.copies p.sheet.next (width p.rules n written) written).map Member.id := by
    rw [hadded]
    exact hF.filter_ids _ _ _
  dsimp only
  rw [hcopies]
  exact (congrArg Sheet.runs hend).trans (congrArg Sheet.runs hleaves).symm

/-- Rules that do nothing but call names outdated. -/
def Rules.outdating (names : List Text) : Rules :=
  { (default : Rules) with
    selection := { agents := default, targets := [], vendors := ["-webkit-", "-moz-"] }
    options := {}
    outdatedProperties := names }

/-- An indented declaration. -/
def hyphens : Node where
  content := .declaration { prop := "hyphens", value := "auto" }
  raws := { before := "\n  ", between := ": " }

/-- A rule with it. -/
def hyphensPass : Pass where
  rules := Rules.outdating []
  sheet := .ofRoot .root (.tree 1 (.rule "a") (.tree 2 hyphens .nil)) 3

/-- Two prefixes of different lengths. -/
def hyphensVariants : PropertyVariants := { name := "hyphens", prefixes := ["-webkit-", "-moz-"], dialect := .plain }

/-- Both vendors have a copy, and nothing is left of them. -/
theorem PropertyVariants.cleanDeclaration_process_hyphens :
    let added := (hyphensVariants.process hyphensPass 2).sheet
    let copies := added.ids.filter fun i => hyphensPass.sheet.next ≤ i
    copies = [3, 4] ∧ (copies.foldl Pass.cleanDeclaration
        { rules := Rules.outdating ["-webkit-hyphens", "-moz-hyphens"], sheet := added }).sheet.runs =
          hyphensPass.sheet.runs := by
  have hnumbered : hyphensPass.sheet.IsNumbered := ⟨by decide, by decide⟩
  have hnode : hyphensPass.sheet.find? 2 = some (hyphens, .nil) := rfl
  have hd : hyphens.declaration? = some { prop := "hyphens", value := "auto" } := rfl
  have habove : ∀ rules ∈ [hyphensPass.rules, Rules.outdating ["-webkit-hyphens", "-moz-hyphens"]],
      ({ hyphensPass with rules } : Pass).groupAbove 2 = [] := by
    intro rules _
    rfl
  have hvendors : ∀ x ∈ hyphensVariants.prefixes, Vendor.IsVendor x := by
    intro x hx
    refine Vendor.isVendor_of_known ?_
    revert x
    decide
  have hplain : PropertyDialect.ofName "hyphens" = .plain := by
    rw [PropertyDialect.ofName, PropertyDialect.names_eq_spelled]
    decide
  have hback := hyphensVariants.cleanDeclaration_process hyphensPass
    (Rules.outdating ["-webkit-hyphens", "-moz-hyphens"]) hnumbered (by decide) hnode hd hplain (by decide)
    (by decide +kernel) habove (by decide +kernel) rfl hplain.symm hvendors (by decide +kernel) (by decide +kernel)
  exact ⟨by decide +kernel, hback⟩

end VendorCss
