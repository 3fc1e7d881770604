import Mathlib
import VendorCss.Proofs.Pass.GridBounds
import VendorCss.Proofs.Pass.PlainCopies
import VendorCss.Proofs.Sheet.Copying

/-!
# The numbers of a placed item

The first draft of grid places an item along each axis by a line and a span. Both come from the ends of the axis in the
value, as far as the ends tell (`Axis.numbers`). Lines and spans are read as numbers between 1 and 2 ^ 63, and what is
written is such a number or the difference of two of them, so no number leaves the range of 64 bits
(`Axis.numbers_bounds`). A difference can be negative, since only the ends themselves are checked: that is so where the
second end is a line and stands before the line, or before the span, that the first one is (`Axis.RunsBackwards`).

A prefixed declaration is written for each number that is not zero, unless the rule has its property
(`insertFor_numbers`).
-/

namespace VendorCss

/-! ## Reading numbers -/

namespace Decimal

variable {t : Text} {n : Int}

/-- An integer is in the range of 64 bits. -/
theorem int64?_bounds (h : int64? t = some n) : -2 ^ 63 ≤ n ∧ n < 2 ^ 63 := by
  unfold int64? at h
  split at h
  · obtain ⟨_, hcast, rfl⟩ := Option.map_eq_some_iff.1 h
    obtain ⟨m, hm, hm'⟩ := Option.bind_eq_some_iff.1 hcast
    obtain rfl := Option.some.inj hm'
    have hle : m ≤ 0x8000000000000000 := of_decide_eq_true (Option.filter_eq_some_iff.1 hm).2
    omega
  · obtain ⟨m, hm, rfl⟩ := Option.map_eq_some_iff.1 h
    have hlt : m < 0x8000000000000000 := of_decide_eq_true (Option.filter_eq_some_iff.1 hm).2
    simp only [Int.ofNat_eq_natCast]
    omega

/-- Without a sign it is not negative. -/
theorem int64?_nonneg (hsign : t.head? ≠ some '-') (h : int64? t = some n) : 0 ≤ n := by
  unfold int64? at h
  split at h
  · exact absurd rfl hsign
  · obtain ⟨m, -, rfl⟩ := Option.map_eq_some_iff.1 h
    exact Int.natCast_nonneg m

end Decimal

namespace Grid

open Pass

theorem leadingInt?_lt {t : Text} {n : Int} (h : leadingInt? t = some n) : n < 2 ^ 63 := by
  obtain ⟨-, h⟩ := Option.ite_none_left_eq_some.1 h
  exact (Decimal.int64?_bounds h).2

/-! ## Ends -/

/-- The number of a line or span. -/
def End.number? : End → Option Int
  | .line n | .span n => some n
  | .auto => none

/-- Lines and spans are read as numbers from one on that fit into 64 bits. -/
theorem End.number?_bounds {words : List Text} {n : Int} (h : (End.ofWords words).number? = some n) :
    1 ≤ n ∧ n < 2 ^ 63 := by
  have hread {t : Text} {m : Int} (hm : (leadingInt? t).filter (0 < ·) = some m) : 1 ≤ m ∧ m < 2 ^ 63 := by
    obtain ⟨hm, hpos⟩ := Option.filter_eq_some_iff.1 hm
    have hpos : 0 < m := of_decide_eq_true hpos
    have hlt := leadingInt?_lt hm
    omega
  unfold End.ofWords at h
  split at h
  · split at h
    · rename_i m hm
      split at h
      · cases h
        exact hread hm
      · cases h
    · cases h
  · split at h
    · rename_i m hm
      cases h
      exact hread hm
    · cases h
  · cases h

/-- What a pair of ends gives is in the range of 64 bits; a line or a span is negative where the second end is a line
before the number of the first one, and only there. -/
theorem Placement.ofEnds_bounds (first : End) (second : Option End)
    (hfirst : ∀ n, first.number? = some n → 1 ≤ n ∧ n < 2 ^ 63)
    (hsecond : ∀ e ∈ second, ∀ n, e.number? = some n → 1 ≤ n ∧ n < 2 ^ 63) :
    (∀ n, (ofEnds first second).start = some n → -2 ^ 63 < n ∧ n < 2 ^ 63 ∧
      (n < 0 → ∃ m last, first = .span m ∧ second = some (.line last) ∧ last < m)) ∧
    ∀ n, (ofEnds first second).span = some n → -2 ^ 63 < n ∧ n < 2 ^ 63 ∧
      (n < 0 → ∃ m last, first = .line m ∧ second = some (.line last) ∧ last < m) := by
  unfold ofEnds
  split
  · rename_i m
    have hm := hfirst m rfl
    refine ⟨fun n hn => ?_, fun n hn => by cases hn⟩
    cases hn
    omega
  · rename_i m last
    have hm := hfirst m rfl
    have hlast := hsecond _ rfl last rfl
    refine ⟨fun n hn => ?_, fun n hn => ?_⟩ <;> cases hn
    · exact ⟨by omega, by omega, fun hneg => ⟨m, last, rfl, rfl, by omega⟩⟩
    · omega
  · rename_i m k
    have hm := hfirst m rfl
    have hk := hsecond _ rfl k rfl
    refine ⟨fun n hn => ?_, fun n hn => ?_⟩ <;> cases hn <;> omega
  · rename_i m last
    have hm := hfirst m rfl
    have hlast := hsecond _ rfl last rfl
    refine ⟨fun n hn => ?_, fun n hn => ?_⟩ <;> cases hn
    · omega
    · exact ⟨by omega, by omega, fun hneg => ⟨m, last, rfl, rfl, by omega⟩⟩
  · constructor <;> intro n hn <;> cases hn

/-! ## Axes -/

/-- An axis that an item is placed along: the property of its line, and where its ends stand in the value. -/
structure Axis where
  prop : Text
  first : Nat
  second : Nat
  /-- A first end with the word `span` in it is a span of all its digits. -/
  spelled : Bool
  deriving DecidableEq, Repr

namespace Axis

/-- The words of the first end. -/
def words (a : Axis) (value : Text) : List Text := ((lineGroups value)[a.first]?).getD []

/-- The digits of the first end are its span. -/
def readsDigits (a : Axis) (value : Text) : Bool := a.spelled && (a.words value).any (Text.contains · "span")

/-- The line and the span along an axis. -/
def placement (a : Axis) (value : Text) : Placement :=
  let place := Grid.placement (lineGroups value) a.first a.second
  if a.readsDigits value then { place with span := digitsOfWords (a.words value) } else place

/-- The properties of the line and of the span, with their numbers. -/
def lines (a : Axis) (value : Text) : List (Text × Option Int) :=
  [(a.prop, (a.placement value).start), (a.prop ++ "-span", (a.placement value).span)]

/-- The numbers that are written: those that are not zero. -/
def numbered (lines : List (Text × Option Int)) : List (Text × Int) :=
  lines.filterMap fun (prop, n) => (n.filter (· ≠ 0)).map (prop, ·)

/-- The numbers that are written for an axis, with their properties. -/
def numbers (a : Axis) (value : Text) : List (Text × Int) := numbered (a.lines value)

/-- The second end of an axis is a line before the line, or before the span, that the first one is. -/
def RunsBackwards (a : Axis) (value : Text) : Prop :=
  ∃ words ∈ (lineGroups value)[a.first]?, ∃ words' ∈ (lineGroups value)[a.second]?, ∃ n last,
    End.ofWords words' = .line last ∧ last < n ∧
      (End.ofWords words = .span n ∨ End.ofWords words = .line n ∧ a.readsDigits value = false)

theorem mem_numbered {lines : List (Text × Option Int)} {x : Text × Int} :
    x ∈ numbered lines ↔ (x.1, some x.2) ∈ lines ∧ x.2 ≠ 0 := by
  obtain ⟨prop, n⟩ := x
  simp only [numbered, List.mem_filterMap, Option.map_eq_some_iff, Option.filter_eq_some_iff, Prod.mk.injEq]
  constructor
  · rintro ⟨⟨_, _⟩, hmem, m, ⟨rfl, hm⟩, rfl, rfl⟩
    exact ⟨hmem, of_decide_eq_true hm⟩
  · rintro ⟨hmem, hn⟩
    exact ⟨_, hmem, n, ⟨rfl, decide_eq_true hn⟩, rfl, rfl⟩

variable {a : Axis} {value : Text} {n : Int}

/-- The digits of some words are a number that is not negative. -/
theorem digitsOfWords_bounds {words : List Text} (h : digitsOfWords words = some n) : 0 ≤ n ∧ n < 2 ^ 63 := by
  refine ⟨Decimal.int64?_nonneg (fun hsign => ?_) h, (Decimal.int64?_bounds h).2⟩
  have hdigit := (List.mem_filter.1 (List.mem_of_head? hsign)).2
  revert hdigit
  decide

/-- The ends of an axis, of which the second may be missing. -/
theorem placement_bounds (a : Axis) (value : Text) :
    (∀ n, (a.placement value).start = some n → -2 ^ 63 < n ∧ n < 2 ^ 63 ∧ (n < 0 → a.RunsBackwards value)) ∧
      ∀ n, (a.placement value).span = some n → -2 ^ 63 < n ∧ n < 2 ^ 63 ∧ (n < 0 → a.RunsBackwards value) := by
  have hplace : (∀ n, (Grid.placement (lineGroups value) a.first a.second).start = some n →
        -2 ^ 63 < n ∧ n < 2 ^ 63 ∧ (n < 0 → a.RunsBackwards value)) ∧
      ∀ n, (Grid.placement (lineGroups value) a.first a.second).span = some n →
        -2 ^ 63 < n ∧ n < 2 ^ 63 ∧ (n < 0 → a.readsDigits value = false → a.RunsBackwards value) := by
    unfold Grid.placement
    cases hfirst : (lineGroups value)[a.first]? with
    | none => constructor <;> intro n hn <;> cases hn
    | some words =>
      have hbounds := Placement.ofEnds_bounds (.ofWords words) (((lineGroups value)[a.second]?).map .ofWords)
        (fun _ => End.number?_bounds) fun e he n hn => by
          obtain ⟨words', -, rfl⟩ := Option.map_eq_some_iff.1 he
          exact End.number?_bounds hn
      refine ⟨fun n hn => ?_, fun n hn => ?_⟩
      · obtain ⟨hlow, hhigh, hneg⟩ := hbounds.1 n hn
        refine ⟨hlow, hhigh, fun hn => ?_⟩
        obtain ⟨m, last, hspan, hlast, hlt⟩ := hneg hn
        obtain ⟨words', hsecond, hline⟩ := Option.map_eq_some_iff.1 hlast
        exact ⟨words, hfirst, words', hsecond, m, last, hline, hlt, .inl hspan⟩
      · obtain ⟨hlow, hhigh, hneg⟩ := hbounds.2 n hn
        refine ⟨hlow, hhigh, fun hn hdigits => ?_⟩
        obtain ⟨m, last, hspan, hlast, hlt⟩ := hneg hn
        obtain ⟨words', hsecond, hline⟩ := Option.map_eq_some_iff.1 hlast
        exact ⟨words, hfirst, words', hsecond, m, last, hline, hlt, .inr ⟨hspan, hdigits⟩⟩
  unfold placement
  dsimp only
  split
  · refine ⟨hplace.1, fun n hn => ?_⟩
    have hdigits := digitsOfWords_bounds hn
    omega
  · rename_i hdigits
    refine ⟨hplace.1, fun n hn => ?_⟩
    obtain ⟨hlow, hhigh, hneg⟩ := hplace.2 n hn
    exact ⟨hlow, hhigh, fun hn => hneg hn (Bool.not_eq_true _ ▸ hdigits)⟩

/-- No number that is written leaves the range of 64 bits, and one below 1 comes from ends that run backwards. -/
theorem numbers_bounds {x : Text × Int} (hx : x ∈ a.numbers value) :
    x.2 ≠ 0 ∧ -2 ^ 63 < x.2 ∧ x.2 < 2 ^ 63 ∧ (x.2 < 1 → a.RunsBackwards value) := by
  obtain ⟨hmem, hzero⟩ := mem_numbered.1 hx
  have hbounds : -2 ^ 63 < x.2 ∧ x.2 < 2 ^ 63 ∧ (x.2 < 0 → a.RunsBackwards value) := by
    simp only [lines, List.mem_cons, Prod.mk.injEq, List.not_mem_nil, or_false] at hmem
    rcases hmem with ⟨-, hstart⟩ | ⟨-, hspan⟩
    · exact (a.placement_bounds value).1 x.2 hstart.symm
    · exact (a.placement_bounds value).2 x.2 hspan.symm
  obtain ⟨hlow, hhigh, hneg⟩ := hbounds
  exact ⟨hzero, hlow, hhigh, fun hone => hneg (by omega)⟩

/-- Ends that run backwards give a negative number: their distance. -/
theorem exists_negative_of_runsBackwards (h : a.RunsBackwards value) : ∃ x ∈ a.numbers value, x.2 < 1 := by
  obtain ⟨words, hfirst, words', hsecond, n, last, hlast, hlt, hend⟩ := h
  have hplace : Grid.placement (lineGroups value) a.first a.second =
      .ofEnds (.ofWords words) (some (.line last)) := by
    rw [Grid.placement, hfirst, hsecond, ← hlast]
    rfl
  rcases hend with hspan | ⟨hline, hdigits⟩
  · -- a span: the line is before the first one
    refine ⟨(a.prop, last - n), mem_numbered.2 ⟨?_, by dsimp only; omega⟩, by dsimp only; omega⟩
    have hstart : (a.placement value).start = some (last - n) := by
      unfold placement
      dsimp only
      rw [hplace, hspan]
      split <;> rfl
    rw [lines, hstart]
    exact List.mem_cons_self
  · -- a line: the span goes back
    refine ⟨(a.prop ++ "-span", last - n), mem_numbered.2 ⟨?_, by dsimp only; omega⟩, by dsimp only; omega⟩
    have hspan : (a.placement value).span = some (last - n) := by
      rw [placement, hdigits, hplace, hline]
      rfl
    rw [lines, hspan]
    exact List.mem_cons_of_mem _ List.mem_cons_self

end Axis

/-- The axes of the properties that place an item by its ends. -/
def axesOf (dialect : PropertyDialect) (prop : Text) : List Axis :=
  match dialect with
  | .gridRowColumn => [⟨prop, 0, 1, true⟩]
  | .gridArea => [⟨"grid-row", 0, 2, false⟩, ⟨"grid-column", 1, 3, false⟩]
  | _ => []

/-- A copy of a declaration that says a number of an axis. -/
def numberEdit (x : Text × Int) (n : Node) : Node :=
  n.mapDeclaration fun d => { d with prop := "-ms-" ++ x.1, value := intText x.2 }

end Grid

namespace Pass

open Grid

variable {p q : Pass} {rule decl : Nat} {d : Declaration} {n : Node} {k : Forest}

/-! ## Writing the numbers -/

/-- What stands beside a declaration, seen through the nodes. -/
theorem any_declarationsAmong (s : Sheet) (ids : List Nat) (test : Declaration → Bool) :
    ((declarationsAmong s ids).any fun (_, e) => test e) =
      (ids.map s.node?).any fun m => (m.bind Node.declaration?).any test := by
  induction ids with
  | nil => rfl
  | cons i ids ih =>
    rw [declarationsAmong, List.filterMap_cons, List.map_cons, List.any_cons, ← ih, declarationsAmong,
      Sheet.declaration?]
    cases (s.node? i).bind Node.declaration? <;> rfl

/-- Copies before a declaration stand beside it, and what was beside it stays. -/
theorem someSibling_copiesBefore (h : p.sheet.Stands rule decl d) (hfind : p.sheet.find? decl = some (n, k))
    {edits : List (Node → Node)} (hsheet : q.sheet = p.sheet.copiesBefore decl edits) (test : Declaration → Bool) :
    q.someSibling decl test =
      (edits.any (fun edit => (edit n).declaration?.any test) || p.someSibling decl test) := by
  have hgrows : p.sheet.Grows Eq q.sheet := by
    rw [hsheet, Sheet.copiesBefore_eq hfind]
    exact Sheet.grows_splice (fun _ => rfl) (p.sheet.isFresh_copiesOf n k edits) _
  have hstands : q.sheet.Stands rule decl d := h.of_grows (hsheet ▸ h.numbered.copiesBefore edits decl) hgrows
  have hnext : (q.sheet.nextSiblings decl).map q.sheet.node? = (p.sheet.nextSiblings decl).map p.sheet.node? := by
    rw [hsheet, Sheet.nextSiblings_copiesBefore h.numbered edits hfind]
    exact List.map_congr_left fun i hi =>
      Sheet.node?_copiesBefore (h.numbered.lt_next i (Sheet.mem_ids_of_mem_nextSiblings hi)) decl edits
  have hprev := Sheet.map_prevSiblings_copiesBefore h.numbered edits hfind
  rw [← hsheet] at hprev
  simp only [someSibling_eq hstands, someSibling_eq h, any_declarationsAmong, hnext, hprev, List.any_append,
    List.any_reverse, List.any_map, Function.comp_def, Option.bind_some, Bool.or_assoc]

theorem intText_isEmpty (n : Int) : (intText n).isEmpty = false := by
  rw [intText, List.isEmpty_eq_false_iff]
  cases n with
  | ofNat m => exact fun h => Nat.repr_ne_empty (String.toList_eq_nil_iff.1 h)
  | negSucc m => simp [Int.repr]

/-- The pass that has written the numbers of `xs` for a declaration, and no other. -/
def Numbered (p : Pass) (decl : Nat) (xs : List (Text × Int)) (q : Pass) : Prop :=
  q.sheet = p.sheet.copiesBefore decl (xs.map numberEdit)

/-- The numbers among some whose properties the rule of a declaration does not have. -/
def unset (p : Pass) (decl : Nat) (xs : List (Text × Int)) : List (Text × Int) :=
  xs.filter fun x => !p.hasSibling decl ("-ms-" ++ x.1)

theorem declaration?_numberEdit (hd : n.declaration? = some d) (x : Text × Int) :
    (numberEdit x n).declaration? = some { d with prop := "-ms-" ++ x.1, value := intText x.2 } := by
  unfold Node.declaration? at hd
  split at hd
  · rename_i heq
    cases hd
    simp [numberEdit, Node.mapDeclaration, Node.declaration?, heq]
  · cases hd

/-- One number more is written if it is not zero and its property is not there. -/
theorem Numbered.insertLine {xs : List (Text × Int)} (h : p.sheet.Stands rule decl d) (hq : p.Numbered decl xs q)
    {prop : Text} (hprop : prop ∉ xs.map Prod.fst) (value : Option Int) :
    p.Numbered decl (xs ++ p.unset decl (Axis.numbered [(prop, value)])) (q.insertLine decl prop value) := by
  obtain ⟨n, k, hfind, hd⟩ : ∃ n k, p.sheet.find? decl = some (n, k) ∧ n.declaration? = some d := by
    obtain ⟨n, hn, hd⟩ := Option.bind_eq_some_iff.1 h.declaration?
    obtain ⟨k, hfind⟩ := Sheet.find?_of_node? hn
    exact ⟨n, k, hfind, hd⟩
  have hwritten : (xs.map numberEdit).any (fun edit => (edit n).declaration?.any fun e => e.prop == "-ms-" ++ prop) =
      false := by
    rw [List.any_eq_false]
    intro edit hedit
    obtain ⟨x, hx, rfl⟩ := List.mem_map.1 hedit
    have hne : x.1 ≠ prop := fun heq => hprop (heq ▸ List.mem_map_of_mem hx)
    simp [declaration?_numberEdit hd, hne]
  have hsibling : q.hasSibling decl ("-ms-" ++ prop) = p.hasSibling decl ("-ms-" ++ prop) := by
    rw [hasSibling, someSibling_copiesBefore h hfind hq, hwritten, Bool.false_or, hasSibling]
  have hparent : q.sheet.parent? decl = some rule := by
    have hgrows : p.sheet.Grows Eq q.sheet := by
      rw [hq, Sheet.copiesBefore_eq hfind]
      exact Sheet.grows_splice (fun _ => rfl) (p.sheet.isFresh_copiesOf n k _) _
    rw [hgrows.parent?_eq (h.numbered.lt_of_node? (by rw [Sheet.node?, hfind]; rfl)), h.parent?]
  cases value with
  | none => simpa [Pass.insertLine, Axis.numbered, unset] using hq
  | some m =>
    by_cases hzero : m = 0
    · simpa [Pass.insertLine, Axis.numbered, unset, hzero] using hq
    · have hnumbered : Axis.numbered [(prop, some m)] = [(prop, m)] := by
        simp [Axis.numbered, hzero]
      have hline : q.insertLine decl prop (some m) =
          if p.hasSibling decl ("-ms-" ++ prop) then q else q.edit fun s => s.cloneBefore decl (numberEdit (prop, m)) := by
        rw [Pass.insertLine, if_neg hzero, insertKeyword, intText_isEmpty, hparent, hsibling]
        rfl
      rw [hnumbered, hline, unset, List.filter_cons, List.filter_nil]
      cases p.hasSibling decl ("-ms-" ++ prop) with
      | true =>
        rw [if_pos rfl, Bool.not_true, if_neg Bool.false_ne_true, List.append_nil]
        exact hq
      | false =>
        rw [if_neg Bool.false_ne_true, Bool.not_false, if_pos rfl, Numbered, List.map_append, List.map_singleton,
          ← Sheet.cloneBefore_copiesBefore h.numbered _ hfind, ← hq]
        rfl

/-- The numbers of several lines and spans of different properties. -/
theorem Numbered.foldl_insertLine (h : p.sheet.Stands rule decl d) {lines : List (Text × Option Int)}
    (hnodup : (lines.map Prod.fst).Nodup) {xs : List (Text × Int)} (hq : p.Numbered decl xs q)
    (hxs : ∀ x ∈ xs, x.1 ∉ lines.map Prod.fst) :
    p.Numbered decl (xs ++ p.unset decl (Axis.numbered lines))
      (lines.foldl (fun q x => q.insertLine decl x.1 x.2) q) := by
  induction lines generalizing xs q with
  | nil => simpa [Axis.numbered, unset] using hq
  | cons line lines ih =>
    obtain ⟨prop, value⟩ := line
    rw [List.map_cons, List.nodup_cons] at hnodup
    have hprop : prop ∉ xs.map Prod.fst := by
      intro hmem
      obtain ⟨x, hx, rfl⟩ := List.mem_map.1 hmem
      exact hxs x hx List.mem_cons_self
    have hstep := hq.insertLine h hprop value
    have happend : p.unset decl (Axis.numbered ((prop, value) :: lines)) =
        p.unset decl (Axis.numbered [(prop, value)]) ++ p.unset decl (Axis.numbered lines) := by
      rw [unset, unset, unset, ← List.filter_append, Axis.numbered, Axis.numbered, Axis.numbered,
        ← List.filterMap_append, List.singleton_append]
    rw [happend, ← List.append_assoc]
    refine ih hnodup.2 hstep fun x hx => ?_
    rcases List.mem_append.1 hx with hx | hx
    · exact fun hmem => hxs x hx (List.mem_cons_of_mem _ hmem)
    · obtain ⟨hmem, -⟩ := Axis.mem_numbered.1 (List.mem_filter.1 hx).1
      rw [List.mem_singleton] at hmem
      rw [(Prod.mk.inj hmem).1]
      exact hnodup.1

theorem nodup_lines (dialect : PropertyDialect) (prop value : Text) :
    (((axesOf dialect prop).flatMap (·.lines value)).map Prod.fst).Nodup := by
  unfold axesOf
  split
  · simp [Axis.lines]
  · simp [Axis.lines]
  · exact List.nodup_nil

/-- A `grid-row`, `grid-column` or `grid-area` writes the lines and spans of its axes in turn. -/
theorem sheet_insertFor {dialect : PropertyDialect} (hdialect : dialect = .gridRowColumn ∨ dialect = .gridArea)
    (p : Pass) (decl : Nat) (d : Declaration) (prefixes : List Text) :
    (p.insertFor dialect decl d "-ms-" prefixes).2.sheet =
      (((axesOf dialect d.prop).flatMap (·.lines d.value)).foldl (fun p x => p.insertLine decl x.1 x.2) p).sheet := by
  rcases hdialect with rfl | rfl
  · have hfirst : (lineGroups d.value).headD [] = Axis.words ⟨d.prop, 0, 1, true⟩ d.value := by
      rw [List.headD_eq_head?_getD, List.head?_eq_getElem?, Axis.words]
    show (p.insertRowColumn decl d).sheet = _
    rw [insertRowColumn, hfirst, axesOf, List.flatMap_singleton, Axis.lines, Axis.placement, Axis.readsDigits,
      Bool.true_and]
    split <;> rfl
  · exact ((warnTemplateNotFound_learns _ decl d).trans (warnRowColumnBeside_learns _ decl)).sheet

/-- For a placed item the first draft gets the numbers of the axes that are not zero and whose properties the rule does
not have, directly before the declaration. They are all in the range of 64 bits, and below 1 there is one for each axis
that runs backwards, and no other. -/
theorem insertFor_numbers (h : p.sheet.Stands rule decl d) (dialect : PropertyDialect)
    (hdialect : dialect = .gridRowColumn ∨ dialect = .gridArea) (prefixes : List Text) :
    p.Numbered decl (p.unset decl ((axesOf dialect d.prop).flatMap (·.numbers d.value)))
        (p.insertFor dialect decl d "-ms-" prefixes).2 ∧
      ∀ a ∈ axesOf dialect d.prop,
        (∀ x ∈ a.numbers d.value, x.2 ≠ 0 ∧ -2 ^ 63 < x.2 ∧ x.2 < 2 ^ 63) ∧
          ((∃ x ∈ a.numbers d.value, x.2 < 1) ↔ a.RunsBackwards d.value) := by
  refine ⟨?_, fun a _ => ⟨fun x hx => ?_, fun ⟨x, hx, hlt⟩ => ?_, Axis.exists_negative_of_runsBackwards⟩⟩
  · have hstart : p.Numbered decl [] p := (p.sheet.copiesBefore_nil decl).symm
    have hall := hstart.foldl_insertLine h (nodup_lines dialect d.prop d.value) fun x hx => by cases hx
    have hnumbers : (axesOf dialect d.prop).flatMap (·.numbers d.value) =
        Axis.numbered ((axesOf dialect d.prop).flatMap (·.lines d.value)) := by
      simp only [Axis.numbers, Axis.numbered, List.filterMap_flatMap]
    rw [Numbered, sheet_insertFor hdialect, hnumbers]
    exact hall
  · obtain ⟨hzero, hlow, hhigh, -⟩ := Axis.numbers_bounds hx
    exact ⟨hzero, hlow, hhigh⟩
  · exact (Axis.numbers_bounds hx).2.2.2 hlt

/-- An item between the lines 4 and 2. -/
def backwardsItem : Pass where
  rules := default
  sheet := .ofRoot .root (.tree 1 (.rule "a") (Sheet.leaves 2 [.declaration "grid-row" "4 / 2"])) 3

/-- It gets a span of -2. -/
theorem insertFor_numbers_backwardsItem : backwardsItem.sheet.Stands 1 2 ⟨"grid-row", "4 / 2", false⟩ ∧
    Axis.RunsBackwards ⟨"grid-row", 0, 1, true⟩ "4 / 2" ∧
    backwardsItem.Numbered 2 [("grid-row".toList, 4), ("grid-row-span".toList, -2)]
      (backwardsItem.insertFor .gridRowColumn 2 ⟨"grid-row", "4 / 2", false⟩ "-ms-" []).2 := by
  have hstands : backwardsItem.sheet.Stands 1 2 ⟨"grid-row", "4 / 2", false⟩ := ⟨⟨by decide, by decide⟩, by decide⟩
  obtain ⟨hsheet, haxes⟩ := insertFor_numbers hstands .gridRowColumn (.inl rfl) []
  have hnumbers : Axis.numbers ⟨"grid-row", 0, 1, true⟩ "4 / 2" =
      [("grid-row".toList, 4), ("grid-row-span".toList, -2)] := by decide
  have hunset : backwardsItem.unset 2 [("grid-row".toList, 4), ("grid-row-span".toList, -2)] =
      [("grid-row".toList, 4), ("grid-row-span".toList, -2)] := by decide
  refine ⟨hstands, (haxes _ List.mem_cons_self).2.1 ⟨("grid-row-span".toList, -2), ?_, by decide⟩, ?_⟩
  · rw [hnumbers]
    exact List.mem_cons_of_mem _ List.mem_cons_self
  · rw [axesOf, List.flatMap_singleton, hnumbers, hunset] at hsheet
    exact hsheet

end Pass
end VendorCss
