import VendorCss.Pass.Declaration
import VendorCss.Proofs.Pass.Removal
import VendorCss.Proofs.PlannedNames
import VendorCss.Proofs.Sheet.Focus

/-!
# The copies of a plain declaration

Where a declaration stands, its copies and the declaration itself are a run of leaves: the members of a family. They
differ from the declaration by a vendor before the property and by spaces at the end of the last line before it
(`Member.node`). Carrying out the variants of a property turns the one member that is there into such a family: each
copy is put before the declaration, with as many spaces as its vendor is shorter than the first one written, and the
declaration gets as many as an empty vendor needs (`exists_process_sheet`).
-/

namespace VendorCss

/-! ## The last line -/

namespace Text

/-- A text without separators makes the last piece longer. -/
theorem pieces_append (sep : Char) (s : Text) : ∃ init last, pieces sep s = init ++ [last] ∧
    ∀ t : Text, sep ∉ t → pieces sep (s ++ t) = init ++ [last ++ t] := by
  induction s with
  | nil =>
    refine ⟨[], [], rfl, fun t ht => piecesBy_of_forall fun c hc => ?_⟩
    rw [beq_eq_false_iff_ne]
    rintro rfl
    exact ht hc
  | cons c s ih =>
    obtain ⟨init, last, hs, happend⟩ := ih
    unfold pieces at hs happend ⊢
    simp only [List.cons_append, piecesBy]
    split
    · refine ⟨[] :: init, last, by rw [hs]; rfl, fun t ht => by rw [happend t ht]; rfl⟩
    · cases init with
      | nil => exact ⟨[], c :: last, by rw [hs]; rfl, fun t ht => by rw [happend t ht]; rfl⟩
      | cons first init => exact ⟨(c :: first) :: init, last, by rw [hs]; rfl, fun t ht => by rw [happend t ht]; rfl⟩

end Text

namespace Pass

variable {base t : Text}

theorem lastLine_append (base : Text) (ht : '\n' ∉ t) : lastLine (base ++ t) = lastLine base ++ t := by
  obtain ⟨init, last, hbase, happend⟩ := Text.pieces_append '\n' base
  rw [lastLine, lastLine, happend t ht, hbase]
  simp

/-- The last line ends with what a text without line ends was appended to it. -/
theorem withLastLine_append (base : Text) (ht : '\n' ∉ t) (u : Text) :
    withLastLine (base ++ t) (lastLine base ++ u) = base ++ u := by
  obtain ⟨init, last, hbase, happend⟩ := Text.pieces_append '\n' base
  have hlast : lastLine base = last := by
    rw [lastLine, hbase]
    simp
  have hjoin : Text.join ['\n'] (init ++ [last]) = base := by
    rw [← hbase]
    exact Text.join_pieces '\n' base
  rw [withLastLine, happend t ht, List.dropLast_concat, hlast, Text.join_concat, hjoin]

theorem notMem_replicate (k : Nat) : '\n' ∉ List.replicate k ' ' := by
  intro h
  exact absurd (List.eq_of_mem_replicate h) (by decide)

/-- No line is shorter than one that all others are as long as. -/
theorem shortest_eq_self {line : Text} {lines : List Text} (h : ∀ l ∈ lines, line.byteLength ≤ l.byteLength) :
    shortest line lines = line := by
  unfold shortest
  induction lines with
  | nil => rfl
  | cons l lines ih =>
    have hl : ¬l.byteLength < line.byteLength := Nat.not_lt.2 (h l List.mem_cons_self)
    rw [List.foldl_cons, if_neg hl]
    exact ih fun l' hl' => h l' (.tail _ hl')

end Pass

/-! ## Members -/

/-- A member of the family of a declaration: its number, its vendor, which is empty for the declaration itself, and how
many spaces it is further in than the declaration was. -/
structure Member where
  id : Nat
  vendor : Text
  pad : Nat

namespace Member

/-- The node of a member in the family of a declaration. -/
def node (n : Node) (d : Declaration) (m : Member) : Node :=
  { n with
    content := .declaration { d with prop := m.vendor ++ d.prop }
    raws := { n.raws with before := n.raws.before ++ List.replicate m.pad ' ' } }

/-- The members of a family as leaves. -/
def leaves (n : Node) (d : Declaration) (ms : List Member) : List (Nat × Node) := ms.map fun m => (m.id, m.node n d)

/-- The copies for vendors, numbered from `next` on, where `width` is the length of the longest vendor. -/
def copies (next width : Nat) : (vendors : List Text) → List Member
  | [] => []
  | v :: vs => ⟨next, v, width - v.byteLength⟩ :: copies (next + 1) width vs

variable {n : Node} {d : Declaration} {ms ms' : List Member} {m : Member}

theorem node_self (hd : n.declaration? = some d) (id : Nat) : Member.node n d ⟨id, [], 0⟩ = n := by
  obtain ⟨content, raws, source⟩ := n
  cases content with
  | declaration d' =>
    obtain rfl : d' = d := Option.some.inj hd
    simp [node]
  | root | rule _ | comment _ | atRule _ => cases hd

@[simp] theorem map_fst_leaves (ms : List Member) : (leaves n d ms).map Prod.fst = ms.map Member.id := by
  simp [leaves]

@[simp] theorem leaves_cons (m : Member) (ms : List Member) :
    leaves n d (m :: ms) = (m.id, m.node n d) :: leaves n d ms := rfl

@[simp] theorem leaves_append (ms ms' : List Member) : leaves n d (ms ++ ms') = leaves n d ms ++ leaves n d ms' :=
  List.map_append

theorem mem_leaves (h : m ∈ ms) : (m.id, m.node n d) ∈ leaves n d ms := List.mem_map_of_mem h

theorem ids_copies (next width : Nat) (vendors : List Text) :
    (copies next width vendors).map Member.id = List.range' next vendors.length := by
  induction vendors generalizing next with
  | nil => rfl
  | cons v vs ih => rw [copies, List.map_cons, ih, List.length_cons, List.range'_succ]

theorem copies_append (next width : Nat) (vendors : List Text) (v : Text) : copies next width (vendors ++ [v]) =
    copies next width vendors ++ [⟨next + vendors.length, v, width - v.byteLength⟩] := by
  induction vendors generalizing next with
  | nil => rfl
  | cons u vs ih =>
    rw [List.cons_append, copies, ih, copies, List.length_cons, List.cons_append]
    congr 4
    omega

end Member

/-- A gap in a sheet where a declaration stands, `next` being the first free number. -/
structure Focus.Holds (F : Focus) (decl next : Nat) (n : Node) (d : Declaration) : Prop where
  declaration : n.declaration? = some d
  notMem : decl ∉ F.ids
  nodup : F.ids.Nodup
  lt_next : ∀ i ∈ F.ids, i < next
  decl_lt : decl < next
  filled : F.IsFilled

variable {F : Focus} {decl next : Nat} {n : Node} {d : Declaration} {r : Rules} {p : Pass} {v : PropertyVariants}
variable {written prefixes : List Text} {planned : Text}

/-- Numbers not given before are different from all others. -/
theorem Focus.Holds.fits (hF : F.Holds decl next n d) {k : Nat} (hk : next ≤ k) (width pad : Nat) (vendors : List Text) :
    F.Fits (Member.leaves n d (Member.copies k width vendors ++ [⟨decl, [], pad⟩])) := by
  have hids : (Member.leaves n d (Member.copies k width vendors ++ [⟨decl, [], pad⟩])).map Prod.fst =
      List.range' k vendors.length ++ [decl] := by
    rw [Member.map_fst_leaves, List.map_append, Member.ids_copies]
    rfl
  have hdecl := hF.decl_lt
  constructor
  · rw [hids, List.nodup_append]
    refine ⟨List.nodup_range', List.nodup_singleton _, fun i hi j hj => ?_⟩
    rw [List.mem_range'_1] at hi
    rw [List.mem_singleton] at hj
    omega
  · intro i hi hmem
    rw [hids, List.mem_append, List.mem_range'_1, List.mem_singleton] at hi
    have hlt := hF.lt_next i hmem
    rcases hi with hi | rfl
    · omega
    · exact hF.notMem hmem

namespace Member

variable {ms ms' : List Member} {m : Member} {k : Nat}

theorem node?_eq (h : F.Fits (leaves n d ms)) (hm : m ∈ ms) :
    (F.leaves (leaves n d ms) k).node? m.id = some (m.node n d) :=
  Focus.node?_leaves h (mem_leaves hm)

theorem declaration?_eq (h : F.Fits (leaves n d ms)) (hm : m ∈ ms) :
    (F.leaves (leaves n d ms) k).declaration? m.id = some { d with prop := m.vendor ++ d.prop } := by
  rw [Sheet.declaration?, node?_eq h hm]
  rfl

theorem before_eq (h : F.Fits (leaves n d ms)) (hm : m ∈ ms) :
    (F.leaves (leaves n d ms) k).before m.id = n.raws.before ++ List.replicate m.pad ' ' := by
  rw [Sheet.before, Sheet.raws?, node?_eq h hm]
  rfl

/-- One member is moved. -/
theorem setBefore_eq (h : F.Fits (leaves n d (ms ++ m :: ms'))) (pad : Nat) :
    (F.leaves (leaves n d (ms ++ m :: ms')) k).setBefore m.id (n.raws.before ++ List.replicate pad ' ') =
      F.leaves (leaves n d (ms ++ { m with pad } :: ms')) k := by
  rw [leaves_append, leaves_cons] at h
  rw [leaves_append, leaves_cons, Sheet.setBefore, Sheet.modifyRaws, Focus.modify_leaves h, leaves_append, leaves_cons]
  rfl

end Member

namespace Pass

/-! ## Writing copies -/

/-- Copies of a declaration are indented, by the rules and the white space before it. -/
def cascades (r : Rules) (n : Node) : Bool := r.options.cascade && n.raws.before.contains "\n"

/-- The length that vendors are compared with: that of the first one written. -/
def width (r : Rules) (n : Node) (written : List Text) : Nat :=
  if cascades r n then (written.head?.map Text.byteLength).getD 0 else 0

theorem width_append (h : written ≠ []) (vendors : List Text) : width r n (written ++ vendors) = width r n written := by
  rw [width, List.head?_append_of_ne_nil _ h, width]

theorem copies_width_append (r : Rules) (n : Node) (written : List Text) (planned : Text) :
    Member.copies next (width r n (written ++ [planned])) (written ++ [planned]) =
      Member.copies next (width r n written) written ++
        [⟨next + written.length, planned, width r n (written ++ [planned]) - planned.byteLength⟩] := by
  rw [Member.copies_append]
  cases written with
  | nil => rfl
  | cons v vs => rw [width_append (List.cons_ne_nil v vs)]

theorem spell?_plain (d : Declaration) (planned : Text) :
    PropertyDialect.spell? .plain d planned = some { d with prop := planned ++ d.prop } := by
  simp [PropertyDialect.spell?, PropertyDialect.valueFor?, PropertyDialect.prefixed]

theorem insertFor_plain (p : Pass) (decl : Nat) (d : Declaration) (planned : Text) (prefixes : List Text) :
    p.insertFor .plain decl d planned prefixes = p.insertCopy .plain decl planned prefixes := by
  simp [insertFor, lacks]

/-- The family of a declaration while copies are written: the declaration is where it was. -/
def family (r : Rules) (n : Node) (decl next : Nat) (written : List Text) (pad : Nat) : List Member :=
  Member.copies next (width r n written) written ++ [⟨decl, [], pad⟩]

/-- A pass that has written copies for some vendors, and nothing else. -/
structure Wrote (F : Focus) (n : Node) (d : Declaration) (decl next : Nat) (r : Rules) (written : List Text)
    (p : Pass) : Prop where
  rules : p.rules = r
  sheet : p.sheet = F.leaves (Member.leaves n d (family r n decl next written 0)) (next + written.length)
  learned : cascades r n = true → p.memory.widest.get? decl = written.head?.map Text.byteLength

namespace Wrote

theorem node?_eq (h : Wrote F n d decl next r written p) (hF : F.Holds decl next n d) :
    p.sheet.node? decl = some n := by
  have hmem : (⟨decl, [], 0⟩ : Member) ∈ family r n decl next written 0 := by simp [family]
  have hleaf := Member.mem_leaves (n := n) (d := d) hmem
  rw [Member.node_self hF.declaration] at hleaf
  rw [h.sheet]
  exact Focus.node?_leaves (hF.fits le_rfl (width r n written) 0 written) hleaf

theorem declaration?_eq (h : Wrote F n d decl next r written p) (hF : F.Holds decl next n d) :
    p.sheet.declaration? decl = some d := by
  rw [Sheet.declaration?, h.node?_eq hF]
  exact hF.declaration

theorem before_eq (h : Wrote F n d decl next r written p) (hF : F.Holds decl next n d) :
    p.sheet.before decl = n.raws.before := by
  rw [Sheet.before, Sheet.raws?, h.node?_eq hF]
  rfl

theorem needsCascade_eq (h : Wrote F n d decl next r written p) (hF : F.Holds decl next n d) :
    p.needsCascade decl = cascades r n := by
  rw [needsCascade, Sheet.raws?, h.node?_eq hF, h.rules]
  rfl

/-- One more copy. -/
theorem insertBefore_eq (h : Wrote F n d decl next r written p) (hF : F.Holds decl next n d) (planned : Text) :
    p.sheet.insertBefore decl (Member.node n d
        ⟨next + written.length, planned, width r n (written ++ [planned]) - planned.byteLength⟩) =
      F.leaves (Member.leaves n d (family r n decl next (written ++ [planned]) 0))
        (next + (written ++ [planned]).length) := by
  have hleaves : ∀ ms pad, Member.leaves n d (ms ++ [⟨decl, [], pad⟩]) =
      Member.leaves n d ms ++ [(decl, Member.node n d ⟨decl, [], pad⟩)] := fun ms pad => Member.leaves_append ms _
  have hfits := hF.fits le_rfl (width r n written) 0 written
  rw [hleaves] at hfits
  rw [h.sheet, family, family, hleaves, hleaves, Focus.insertBefore_leaves hfits, copies_width_append,
    Member.leaves_append, List.length_append, List.append_assoc, Nat.add_assoc]
  rfl

/-- What was learned about the width is true of the vendors written and one more. -/
theorem widest_eq (h : Wrote F n d decl next r written p) (hcascade : cascades r n = true)
    (hv : Vendor.IsVendor planned) : (p.widest decl (written ++ [planned])).1 = width r n (written ++ [planned]) ∧
      (p.widest decl (written ++ [planned])).2.rules = p.rules ∧
      (p.widest decl (written ++ [planned])).2.sheet = p.sheet ∧
      (p.widest decl (written ++ [planned])).2.memory.widest.get? decl =
        (written ++ [planned]).head?.map Text.byteLength := by
  have hlearned := h.learned hcascade
  have hlength : vendorLength planned = planned.byteLength := by
    rw [vendorLength, Vendor.IsFor.vendorPart hv (.inl rfl)]
  unfold Pass.widest width
  rw [hlearned, if_pos hcascade]
  cases written with
  | nil => simp [hlength, Facts.get?]
  | cons first vs => simpa using hlearned

/-- A copy with a vendor before the property, if the declaration is indented. -/
theorem withBefore_eq (hF : F.Holds decl next n d) (id : Nat) (vendor : Text) (pad : Nat) :
    (n.mapDeclaration fun _ => { d with prop := vendor ++ d.prop }).withBefore
      (n.raws.before ++ List.replicate pad ' ') = Member.node n d ⟨id, vendor, pad⟩ := by
  have hd := hF.declaration
  obtain ⟨content, raws, source⟩ := n
  cases content with
  | declaration d' =>
    obtain rfl : d' = d := Option.some.inj hd
    rfl
  | root | rule _ | comment _ | atRule _ => cases hd

/-- A step writes nothing, or the next copy. -/
theorem insertCopy (h : Wrote F n d decl next r written p) (hF : F.Holds decl next n d) (hv : Vendor.IsVendor planned) :
    p.insertCopy .plain decl planned (written ++ [planned]) = (false, p) ∨
      (p.insertCopy .plain decl planned (written ++ [planned])).1 = true ∧
        Wrote F n d decl next r (written ++ [planned])
          (p.insertCopy .plain decl planned (written ++ [planned])).2 := by
  rw [Pass.insertCopy, h.node?_eq hF, h.declaration?_eq hF, Option.bind_some, spell?_plain, h.needsCascade_eq hF]
  cases p.sheet.parent? decl with
  | none => exact .inl rfl
  | some parent =>
    dsimp only
    split
    · exact .inl rfl
    · refine .inr ?_
      cases hcascade : cascades r n with
      | true =>
        obtain ⟨hwidth, hrules, hsheet, hlearned⟩ := h.widest_eq hcascade hv
        rw [if_pos rfl, indentation]
        refine ⟨rfl, hrules.trans h.rules, ?_, fun _ => hlearned⟩
        dsimp only [edit, withSheet]
        rw [hwidth, hsheet, h.before_eq hF, withBefore_eq hF, vendorLength, Vendor.IsFor.vendorPart hv (.inl rfl),
          h.insertBefore_eq hF]
      | false =>
        have hbefore : n.mapDeclaration (fun _ => { d with prop := planned ++ d.prop }) =
            Member.node n d ⟨next + written.length, planned, 0 - planned.byteLength⟩ := by
          rw [← withBefore_eq hF, Nat.zero_sub, List.replicate_zero, List.append_nil]
          obtain ⟨content, raws, source⟩ := n
          cases content <;> rfl
        have hinsert := h.insertBefore_eq hF planned
        rw [width, hcascade, if_neg Bool.false_ne_true] at hinsert
        rw [if_neg Bool.false_ne_true]
        refine ⟨rfl, h.rules, ?_, fun hcascade' => ?_⟩
        · dsimp only [edit, withSheet]
          rw [hbefore]
          exact hinsert
        · rw [hcascade] at hcascade'
          cases hcascade'

theorem addVariant (h : Wrote F n d decl next r written p) (hF : F.Holds decl next n d) (hplain : v.dialect = .plain)
    (hv : Vendor.IsVendor planned) :
    v.addVariant p decl planned (written ++ [planned]) = (false, p) ∨
      (v.addVariant p decl planned (written ++ [planned])).1 = true ∧
        Wrote F n d decl next r (written ++ [planned])
          (v.addVariant p decl planned (written ++ [planned])).2 := by
  rw [PropertyVariants.addVariant, h.declaration?_eq hF, hplain]
  dsimp only
  split
  · exact .inl rfl
  · rw [insertFor_plain]
    exact h.insertCopy hF hv

/-- The run of steps. -/
theorem addVariants (hF : F.Holds decl next n d) (hplain : v.dialect = .plain)
    (hv : ∀ x ∈ prefixes, Vendor.IsVendor x) (h : Wrote F n d decl next r written p) :
    ∃ more, more.Sublist prefixes ∧ (v.addVariants decl prefixes written p).1 = written ++ more ∧
      Wrote F n d decl next r (written ++ more) (v.addVariants decl prefixes written p).2 := by
  induction prefixes generalizing written p with
  | nil => exact ⟨[], .slnil, (List.append_nil _).symm, by rwa [List.append_nil]⟩
  | cons planned prefixes ih =>
    have hrest : ∀ x ∈ prefixes, Vendor.IsVendor x := fun x hx => hv x (.tail _ hx)
    rw [PropertyVariants.addVariants]
    rcases h.addVariant hF hplain (hv planned List.mem_cons_self) with heq | ⟨hadded, hstep⟩
    · rw [heq]
      obtain ⟨more, hsub, hwritten, hmore⟩ := ih hrest h
      exact ⟨more, hsub.cons planned, hwritten, hmore⟩
    · obtain ⟨more, hsub, hwritten, hmore⟩ := ih hrest hstep
      rw [List.append_assoc] at hwritten hmore
      dsimp only
      rw [hadded, if_pos rfl]
      exact ⟨planned :: more, hsub.cons_cons planned, hwritten, hmore⟩

end Wrote

/-! ## The declaration itself -/

theorem mem_membersAbove_append {standard : Text} {xs ys : List (Nat × Declaration)} {x : Nat × Declaration}
    (h : x ∈ membersAbove r standard (xs ++ ys)) : x ∈ xs ∨ x ∈ membersAbove r standard ys := by
  induction xs with
  | nil => exact .inr h
  | cons y xs ih =>
    rw [List.cons_append, membersAbove] at h
    split at h
    · cases h
    · rcases List.mem_cons.1 h with rfl | h
      · exact .inl List.mem_cons_self
      · exact (ih h).imp_left (.tail _)

/-- What stands around the gap is the same whatever leaves are in it. -/
theorem declarationsAmong_left {xs ys : List (Nat × Node)} {a b : Nat} (hxs : F.Fits xs) (hys : F.Fits ys)
    {ids : List Nat} (hids : ∀ i ∈ ids, i ∈ F.ids) :
    declarationsAmong (F.leaves xs a) ids = declarationsAmong (F.leaves ys b) ids := by
  refine List.filterMap_congr fun i hi => ?_
  have hnode : (F.leaves xs a).node? i = (F.leaves ys b).node? i := by
    refine Focus.node?_sheet (fun hmem => ?_) fun hmem => ?_
    · rw [Forest.ids_row] at hmem
      exact hxs.notMem i hmem (hids i hi)
    · rw [Forest.ids_row] at hmem
      exact hys.notMem i hmem (hids i hi)
  rw [Sheet.declaration?, Sheet.declaration?, hnode]

/-- A declaration without members above it has none but its copies once these are written. -/
theorem Wrote.mem_groupAbove (h : Wrote F n d decl next r written p) (hF : F.Holds decl next n d)
    (habove : membersAbove r (PropertyName.standard d.prop)
      (declarationsAmong (F.leaves [(decl, n)] next) F.context.left.tops.reverse) = [])
    {i : Nat} {e : Declaration} (hi : (i, e) ∈ p.groupAbove decl) :
    ∃ m ∈ Member.copies next (width r n written) written, m.id = i := by
  have hfits := hF.fits le_rfl (width r n written) 0 written
  have hfits₀ : F.Fits [(decl, n)] := ⟨List.nodup_singleton _, by simpa using hF.notMem⟩
  have hprev : p.sheet.prevSiblings decl =
      ((Member.copies next (width r n written) written).map Member.id).reverse ++ F.context.left.tops.reverse := by
    rw [Member.leaves_append, Member.leaves_cons] at hfits
    rw [h.sheet, family, Member.leaves_append, Member.leaves_cons, Focus.prevSiblings_leaves hfits,
      Member.map_fst_leaves]
  have hleft : declarationsAmong p.sheet F.context.left.tops.reverse =
      declarationsAmong (F.leaves [(decl, n)] next) F.context.left.tops.reverse := by
    rw [h.sheet]
    refine declarationsAmong_left hfits hfits₀ fun j hj => ?_
    have hmem := Forest.Context.mem_ids_of_mem_left (Forest.mem_ids_of_mem_tops (List.mem_reverse.1 hj))
    exact List.mem_append_right _ (List.mem_append_left _ hmem)
  unfold groupAbove at hi
  rw [h.declaration?_eq hF, hprev, h.rules] at hi
  dsimp only at hi
  rw [declarationsAmong, List.filterMap_append] at hi
  rcases mem_membersAbove_append hi with hi | hi
  · obtain ⟨j, hj, hdecl⟩ := List.mem_filterMap.1 hi
    obtain ⟨e', -, heq⟩ := Option.map_eq_some_iff.1 hdecl
    obtain ⟨rfl, -⟩ := Prod.mk.inj heq
    exact List.mem_map.1 (List.mem_reverse.1 hj)
  · rw [← declarationsAmong, hleft, habove] at hi
    cases hi

/-- The smallest indentation among the copies is that of the declaration. -/
theorem Wrote.shortest_groupAbove (h : Wrote F n d decl next r written p) (hF : F.Holds decl next n d)
    (habove : membersAbove r (PropertyName.standard d.prop)
      (declarationsAmong (F.leaves [(decl, n)] next) F.context.left.tops.reverse) = []) :
    shortest (lastLine n.raws.before) ((p.groupAbove decl).map fun (i, _) => lastLine (p.sheet.before i)) =
      lastLine n.raws.before := by
  refine shortest_eq_self fun line hline => ?_
  obtain ⟨⟨i, e⟩, hi, rfl⟩ := List.mem_map.1 hline
  obtain ⟨m, hm, rfl⟩ := h.mem_groupAbove hF habove hi
  dsimp only
  rw [h.sheet, family, Member.before_eq (hF.fits le_rfl (width r n written) 0 written) (List.mem_append_left _ hm),
    lastLine_append _ (notMem_replicate _), Text.byteLength_append]
  omega

theorem Wrote.restoreIndentation_eq (h : Wrote F n d decl next r written p) (hF : F.Holds decl next n d)
    (habove : membersAbove r (PropertyName.standard d.prop)
      (declarationsAmong (F.leaves [(decl, n)] next) F.context.left.tops.reverse) = []) :
    p.restoreIndentation decl = p := by
  have hfits := hF.fits le_rfl (width r n written) 0 written
  have hline : withLastLine n.raws.before (lastLine n.raws.before) = n.raws.before := by
    have happend := withLastLine_append (t := []) n.raws.before List.not_mem_nil []
    rwa [List.append_nil, List.append_nil] at happend
  have hset : p.sheet.setBefore decl n.raws.before = p.sheet := by
    have hset := Member.setBefore_eq (m := ⟨decl, [], 0⟩) (k := next + written.length) hfits 0
    rw [List.replicate_zero, List.append_nil] at hset
    rw [h.sheet]
    exact hset
  unfold restoreIndentation
  dsimp only
  rw [h.before_eq hF, h.shortest_groupAbove hF habove, hline, edit, hset]
  rfl

/-- In the end the declaration has the indentation of an empty vendor. -/
theorem Wrote.alignWithCopies (h : Wrote F n d decl next r written p) (hF : F.Holds decl next n d)
    (hwritten : written ≠ [])
    (habove : membersAbove r (PropertyName.standard d.prop)
      (declarationsAmong (F.leaves [(decl, n)] next) F.context.left.tops.reverse) = []) :
    (p.alignWithCopies decl written).sheet =
      F.leaves (Member.leaves n d (family r n decl next written (width r n written))) (next + written.length) := by
  have hfits := hF.fits le_rfl (width r n written) 0 written
  rw [Pass.alignWithCopies, h.needsCascade_eq hF]
  cases hcascade : cascades r n with
  | false =>
    have hwidth : width r n written = 0 := by rw [width, hcascade, if_neg Bool.false_ne_true]
    rw [if_neg Bool.false_ne_true, h.sheet, hwidth]
  | true =>
    obtain ⟨first, vs, rfl⟩ := List.exists_cons_of_ne_nil hwritten
    have hlearned : p.memory.widest.get? decl = some first.byteLength := h.learned hcascade
    have hwidth : width r n (first :: vs) = first.byteLength := by rw [width, hcascade, if_pos rfl]; rfl
    have hempty : vendorLength [] = 0 := by decide
    rw [if_pos rfl]
    dsimp only
    rw [h.restoreIndentation_eq hF habove, indentation, widest, hlearned]
    dsimp only [edit, withSheet]
    rw [h.before_eq hF, hempty, Nat.sub_zero, h.sheet, ← hwidth]
    exact Member.setBefore_eq (m := ⟨decl, [], 0⟩) hfits _

end Pass

open Pass in
/-- The variants of a plain property turn a declaration into a family: some of the vendors have a copy. -/
theorem PropertyVariants.exists_process_sheet (hF : F.Holds decl next n d) (hplain : v.dialect = .plain)
    (hv : ∀ x ∈ v.prefixes, Vendor.IsVendor x) (hsheet : p.sheet = F.leaves [(decl, n)] next)
    (hwidest : p.memory.widest.get? decl = none)
    (habove : membersAbove p.rules (PropertyName.standard d.prop)
      (declarationsAmong (F.leaves [(decl, n)] next) F.context.left.tops.reverse) = []) :
    ∃ written, written.Sublist v.prefixes ∧ (v.process p decl).sheet =
      F.leaves (Member.leaves n d (family p.rules n decl next written (width p.rules n written)))
        (next + written.length) := by
  have hleaves : Member.leaves n d [⟨decl, [], 0⟩] = [(decl, n)] := by
    rw [Member.leaves, List.map_singleton, Member.node_self hF.declaration]
  have hnone : p.sheet = F.leaves (Member.leaves n d (family p.rules n decl next [] (width p.rules n []))) next := by
    rw [hsheet, ← hleaves, width]
    simp [family, Member.copies]
  unfold process
  split
  · obtain ⟨facts, hscope, -⟩ := p.scope_learns decl
    have hstart : Wrote F n d decl next p.rules [] (p.withScopes facts) := by
      refine ⟨rfl, ?_, fun _ => hwidest⟩
      rw [family, Member.copies, List.nil_append, hleaves]
      exact hsheet
    have hsub : (v.prefixes.filter (inScope (p.scope decl).1)).Sublist v.prefixes := List.filter_sublist
    obtain ⟨written, hwritten, heq, hwrote⟩ := hstart.addVariants hF hplain fun x hx => hv x (hsub.mem hx)
    rw [List.nil_append] at heq hwrote
    refine ⟨written, hwritten.trans hsub, ?_⟩
    dsimp only
    rw [hscope, heq]
    cases written with
    | nil =>
      rw [if_pos List.isEmpty_nil, hwrote.sheet, width]
      simp
    | cons first vs =>
      rw [if_neg (by simp), hwrote.alignWithCopies hF (List.cons_ne_nil first vs) habove]
  · exact ⟨[], List.nil_sublist _, hnone⟩

end VendorCss
