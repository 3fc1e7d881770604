import Mathlib
import VendorCss.Proofs.Grid.Cells

/-!
# The boxes of areas

A template draws its areas cell by cell, row after row: a name that is new gets the box of its cell, and the box of a name
that is known is widened. So after any number of cells the areas are the names of these cells, each once and in the order
in which they first stand, and the box of a name lies around its cells: from the first to the last of their rows, and from
the first to the last of their columns (`IsDrawn`). One more cell keeps this (`IsDrawn.addCell`), so it holds of all the
rows of a template (`ofRows_boxes`).
-/

namespace VendorCss.Grid

/-! ## Boxes -/

/-- The lines around the tracks from the first index to the last one. Where there is a gap, every other line bounds one, so
numbers are doubled. -/
def linesAround (gap : Option Text) (first last : Nat) : LineRange :=
  if gap.isSome then ⟨2 * first + 1, 2 * last + 2, false⟩ else ⟨first + 1, last + 2, false⟩

/-- The lines lie around the tracks with the given indexes, as close as they can. -/
def LineRange.Bounds (gap : Option Text) (indexes : Set Nat) (r : LineRange) : Prop :=
  ∃ first last, IsLeast indexes first ∧ IsGreatest indexes last ∧ r = linesAround gap first last

namespace LineRange

variable {gap : Option Text} {indexes : Set Nat} {r : LineRange} {index first last : Nat}

theorem ofIndex_eq (index : Nat) (gap : Option Text) : ofIndex index gap = linesAround gap index index := by
  unfold ofIndex linesAround
  cases gap <;> rfl

theorem widen_linesAround (gap : Option Text) (first last index : Nat) :
    (linesAround gap first last).widen (linesAround gap index index) =
      linesAround gap (min index first) (max index last) := by
  cases gap with
  | none =>
    have hstart : min (first + 1) (index + 1) = min index first + 1 := by omega
    have hstop : max (last + 2) (index + 2) = max index last + 2 := by omega
    exact congrArg₂ (mk · · false) hstart hstop
  | some _ =>
    have hstart : min (2 * first + 1) (2 * index + 1) = 2 * min index first + 1 := by omega
    have hstop : max (2 * last + 2) (2 * index + 2) = 2 * max index last + 2 := by omega
    exact congrArg₂ (mk · · false) hstart hstop

theorem bounds_ofIndex (index : Nat) (gap : Option Text) : Bounds gap {index} (ofIndex index gap) :=
  ⟨index, index, isLeast_singleton, isGreatest_singleton, ofIndex_eq index gap⟩

theorem Bounds.widen (h : Bounds gap indexes r) (index : Nat) :
    Bounds gap (insert index indexes) (r.widen (ofIndex index gap)) := by
  obtain ⟨first, last, hfirst, hlast, rfl⟩ := h
  rw [ofIndex_eq, widen_linesAround]
  exact ⟨_, _, hfirst.insert index, hlast.insert index, rfl⟩

/-- Tracks lie between the lines of a box, and at least one. -/
theorem Bounds.span (h : Bounds gap indexes r) : 1 ≤ r.span ∧ r.stop = r.start + r.span := by
  obtain ⟨first, last, hfirst, hlast, rfl⟩ := h
  have hle := hfirst.2 hlast.1
  unfold linesAround LineRange.span
  split
  · dsimp only
    omega
  · dsimp only
    omega

end LineRange

/-! ## Areas after some cells -/

/-- The area is the box of the cells in the given rows and columns. -/
structure Area.Bounds (gap : Gap) (places : Set (Nat × Nat)) (area : Area) : Prop where
  row : area.row.Bounds gap.row (Prod.fst '' places)
  column : area.column.Bounds gap.column (Prod.snd '' places)

/-- A cell of a template: its name, its row and its column. -/
abbrev NamedCell := Text × Nat × Nat

/-- The rows and columns of the cells that have a name. -/
def placesOf (name : Text) (cells : List NamedCell) : Set (Nat × Nat) := {place | (name, place) ∈ cells}

/-- The areas are those of some cells: their names in order, and for each name the box around its cells. -/
structure IsDrawn (gap : Gap) (cells : List NamedCell) (areas : Areas) : Prop where
  names : areas.names = Text.distinct (cells.map Prod.fst)
  boxes : ∀ x ∈ areas, x.2.Bounds gap (placesOf x.1 cells)

variable {gap : Gap} {places : Set (Nat × Nat)} {area : Area}
variable {cells : List NamedCell} {areas : Areas} {name other : Text} {row column : Nat}

namespace Area

theorem bounds_ofIndex (row column : Nat) :
    Bounds gap {(row, column)} ⟨.ofIndex row gap.row, .ofIndex column gap.column⟩ where
  row := (Set.image_singleton (f := Prod.fst)).symm ▸ LineRange.bounds_ofIndex row gap.row
  column := (Set.image_singleton (f := Prod.snd)).symm ▸ LineRange.bounds_ofIndex column gap.column

theorem Bounds.widen (h : area.Bounds gap places) (row column : Nat) : Bounds gap (insert (row, column) places)
    ⟨area.row.widen (.ofIndex row gap.row), area.column.widen (.ofIndex column gap.column)⟩ where
  row := (Set.image_insert_eq (f := Prod.fst)).symm ▸ h.row.widen row
  column := (Set.image_insert_eq (f := Prod.snd)).symm ▸ h.column.widen column

end Area

theorem placesOf_concat_self (name : Text) (place : Nat × Nat) (cells : List NamedCell) :
    placesOf name (cells ++ [(name, place)]) = insert place (placesOf name cells) := by
  ext p
  simp only [placesOf, List.mem_append, List.mem_singleton, Set.mem_ofPred_eq, Set.mem_insert_iff, Prod.mk.injEq,
    true_and]
  exact or_comm

theorem placesOf_concat_of_ne (hne : other ≠ name) (place : Nat × Nat) (cells : List NamedCell) :
    placesOf other (cells ++ [(name, place)]) = placesOf other cells := by
  ext p
  simp only [placesOf, List.mem_append, List.mem_singleton, Set.mem_ofPred_eq, Prod.mk.injEq]
  exact or_iff_left fun h => hne h.1

theorem placesOf_eq_empty (h : name ∉ cells.map Prod.fst) : placesOf name cells = ∅ :=
  Set.eq_empty_of_forall_notMem fun _ hplace => h (List.mem_map_of_mem hplace)

namespace Areas

/-- A cell of a known name widens its area and no other. -/
theorem addCell_of_mem (hnodup : areas.names.Nodup) (h : name ∈ areas.names) (cell : Area) :
    addCell name cell areas = areas.map fun x =>
      if x.1 = name then (x.1, ⟨x.2.row.widen cell.row, x.2.column.widen cell.column⟩) else x := by
  induction areas with
  | nil => cases h
  | cons x areas ih =>
    rw [names, List.map_cons, List.nodup_cons] at hnodup
    rw [addCell, List.map_cons]
    split
    · rename_i hx
      -- the name does not come again
      have hrest : areas.map (fun y => if y.1 = name then
          (y.1, (⟨y.2.row.widen cell.row, y.2.column.widen cell.column⟩ : Area)) else y) = areas := by
        refine (List.map_congr_left fun y hy => if_neg ?_).trans (List.map_id _)
        rintro rfl
        exact hnodup.1 (hx ▸ List.mem_map_of_mem hy)
      rw [hrest]
    · rename_i hx
      rw [ih hnodup.2 ((List.mem_cons.1 h).resolve_left (Ne.symm hx))]

end Areas

/-- One more cell. -/
theorem IsDrawn.addCell (h : IsDrawn gap cells areas) (name : Text) (row column : Nat) :
    IsDrawn gap (cells ++ [(name, row, column)])
      (Areas.addCell name ⟨.ofIndex row gap.row, .ofIndex column gap.column⟩ areas) := by
  have hmem : name ∈ areas.names ↔ name ∈ cells.map Prod.fst := by rw [h.names, Text.mem_distinct]
  have hnodup : areas.names.Nodup := h.names ▸ Text.nodup_distinct _
  have hothers : ∀ x ∈ areas, x.1 ≠ name → x.2.Bounds gap (placesOf x.1 (cells ++ [(name, row, column)])) :=
    fun x hx hne => (placesOf_concat_of_ne hne _ cells).symm ▸ h.boxes x hx
  by_cases hknown : name ∈ areas.names
  · rw [Areas.addCell_of_mem hnodup hknown]
    refine ⟨?_, fun x hx => ?_⟩
    · rw [List.map_append, List.map_singleton, Text.distinct_concat, if_pos (hmem.1 hknown), ← h.names, Areas.names,
        List.map_map]
      refine List.map_congr_left fun x _ => ?_
      rw [Function.comp_apply]
      split <;> rfl
    · obtain ⟨y, hy, rfl⟩ := List.mem_map.1 hx
      split
      · rename_i hname
        subst hname
        exact (placesOf_concat_self y.1 _ cells).symm ▸ (h.boxes y hy).widen row column
      · exact hothers y hy ‹_›
  · have hnew : name ∉ cells.map Prod.fst := fun hin => hknown (hmem.2 hin)
    rw [Areas.addCell_of_notMem hknown]
    refine ⟨?_, fun x hx => ?_⟩
    · rw [List.map_append, List.map_singleton, Text.distinct_concat, if_neg hnew, ← h.names, Areas.names,
        List.map_append, List.map_singleton]
      rfl
    · rcases List.mem_append.1 hx with hold | hlast
      · exact hothers x hold fun heq => hknown (heq ▸ List.mem_map_of_mem hold)
      · obtain rfl := List.mem_singleton.1 hlast
        rw [placesOf_concat_self, placesOf_eq_empty hnew, insert_empty_eq]
        exact Area.bounds_ofIndex row column

/-! ## Areas of rows -/

/-- The cells of one row that have names; `column` is the index of its first word. -/
def namedInRow (row column : Nat) (names : List Text) : List NamedCell :=
  ((names.zipIdx column).filter fun x => !Areas.isUnnamed x.1).map fun x => (x.1, row, x.2)

/-- The cells that have names, of the rows from an index on. -/
def namedInRows (row : Nat) (lines : List Text) : List NamedCell :=
  (lines.zipIdx row).flatMap fun x => namedInRow x.2 0 (Text.words x.1)

theorem IsDrawn.addRow {names : List Text} (h : IsDrawn gap cells areas) (row column : Nat) :
    IsDrawn gap (cells ++ namedInRow row column names)
      (Areas.addRow gap (.ofIndex row gap.row) column names areas) := by
  induction names generalizing cells areas column with
  | nil => exact (List.append_nil cells).symm ▸ h
  | cons name names ih =>
    rw [Areas.addRow, namedInRow, List.zipIdx_cons, List.filter_cons]
    cases hname : Areas.isUnnamed name with
    | true => exact ih h (column + 1)
    | false =>
      have hnext := ih (h.addCell name row column) (column + 1)
      rw [List.append_assoc] at hnext
      exact hnext

theorem IsDrawn.addRows {lines : List Text} (h : IsDrawn gap cells areas) (row : Nat) :
    IsDrawn gap (cells ++ namedInRows row lines) (Areas.addRows gap row lines areas) := by
  induction lines generalizing cells areas row with
  | nil => exact (List.append_nil cells).symm ▸ h
  | cons line lines ih =>
    rw [Areas.addRows, namedInRows, List.zipIdx_cons, List.flatMap_cons, ← List.append_assoc]
    exact ih (h.addRow row 0) (row + 1)

theorem isDrawn_ofRows (rows : List Text) (gap : Gap) : IsDrawn gap (namedInRows 0 rows) (Areas.ofRows rows gap) :=
  have hnone : IsDrawn gap [] [] := ⟨rfl, List.forall_mem_nil _⟩
  hnone.addRows 0

/-- A name is a word of rows: in which row, and how many words stand before it there. -/
def StandsIn (rows : List Text) (name : Text) (row column : Nat) : Prop :=
  ∃ line, rows[row]? = some line ∧ (Text.words line)[column]? = some name

theorem mem_namedInRows {rows : List Text} : (name, row, column) ∈ namedInRows 0 rows ↔
    StandsIn rows name row column ∧ Areas.isUnnamed name = false := by
  simp only [namedInRows, namedInRow, StandsIn, List.mem_flatMap, List.mem_map, List.mem_filter,
    List.mem_zipIdx_iff_getElem?, Prod.exists, Prod.mk.injEq, Bool.not_eq_true']
  constructor
  · rintro ⟨line, i, hline, w, j, ⟨hword, hnamed⟩, rfl, rfl, rfl⟩
    exact ⟨⟨line, hline, hword⟩, hnamed⟩
  · rintro ⟨⟨line, hline, hword⟩, hnamed⟩
    exact ⟨line, row, hline, name, column, ⟨hword, hnamed⟩, rfl, rfl, rfl⟩

theorem map_fst_namedInRow (row column : Nat) (names : List Text) :
    (namedInRow row column names).map Prod.fst = names.filter fun name => !Areas.isUnnamed name := by
  induction names generalizing column with
  | nil => rfl
  | cons name names ih =>
    rw [namedInRow, List.zipIdx_cons, List.filter_cons, List.filter_cons]
    split
    · exact congrArg (List.cons name) (ih (column + 1))
    · exact ih (column + 1)

theorem map_fst_namedInRows (row : Nat) (lines : List Text) : (namedInRows row lines).map Prod.fst =
    (lines.flatMap Text.words).filter fun name => !Areas.isUnnamed name := by
  induction lines generalizing row with
  | nil => rfl
  | cons line lines ih =>
    rw [namedInRows, List.zipIdx_cons, List.flatMap_cons, List.map_append, map_fst_namedInRow, List.flatMap_cons,
      List.filter_append]
    exact congrArg _ (ih (row + 1))

/-- A word is unnamed if it is made of dots. -/
theorem isUnnamed_eq_false_iff (hne : name ≠ []) : Areas.isUnnamed name = false ↔ ¬∀ c ∈ name, c = '.' := by
  rw [Areas.isUnnamed, List.isEmpty_eq_false_iff.2 hne, Bool.not_false, Bool.true_and, Bool.eq_false_iff, ne_eq,
    List.all_eq_true]
  simp only [beq_iff_eq]

theorem StandsIn.ne_nil {rows : List Text} (h : StandsIn rows name row column) : name ≠ [] := by
  obtain ⟨line, -, hword⟩ := h
  have hmem := List.mem_of_getElem? hword
  rw [Text.words, List.mem_filter, Bool.not_eq_true', List.isEmpty_eq_false_iff] at hmem
  exact hmem.2

/-- The areas of rows have the names that stand in the rows and are not dots alone, each once, in the order in which they
first stand; rows and words without names count. The box of a name goes from the first to the last row and from the first
to the last column in which the name stands, and spans the lines between its ends, one at least. -/
theorem ofRows_boxes (rows : List Text) (gap : Gap) :
    (∀ name, name ∈ (Areas.ofRows rows gap).names ↔
      (∃ row column, StandsIn rows name row column) ∧ ¬∀ c ∈ name, c = '.') ∧
    (Areas.ofRows rows gap).names.Nodup ∧
    ((Areas.ofRows rows gap).names.Pairwise fun m n =>
      (rows.flatMap Text.words).idxOf m < (rows.flatMap Text.words).idxOf n) ∧
    ∀ x ∈ Areas.ofRows rows gap,
      x.2.row.Bounds gap.row {row | ∃ column, StandsIn rows x.1 row column} ∧
      x.2.column.Bounds gap.column {column | ∃ row, StandsIn rows x.1 row column} ∧
      1 ≤ x.2.row.span ∧ x.2.row.stop = x.2.row.start + x.2.row.span ∧
      1 ≤ x.2.column.span ∧ x.2.column.stop = x.2.column.start + x.2.column.span := by
  have hdrawn := isDrawn_ofRows rows gap
  have hmem (name : Text) : name ∈ (Areas.ofRows rows gap).names ↔
      (∃ row column, StandsIn rows name row column) ∧ Areas.isUnnamed name = false := by
    rw [hdrawn.names, Text.mem_distinct, List.mem_map]
    constructor
    · rintro ⟨⟨n, row, column⟩, hcell, rfl⟩
      obtain ⟨hstands, hnamed⟩ := mem_namedInRows.1 hcell
      exact ⟨⟨row, column, hstands⟩, hnamed⟩
    · rintro ⟨⟨row, column, hstands⟩, hnamed⟩
      exact ⟨(name, row, column), mem_namedInRows.2 ⟨hstands, hnamed⟩, rfl⟩
  refine ⟨fun name => (hmem name).trans ?_, hdrawn.names ▸ Text.nodup_distinct _, ?_, fun x hx => ?_⟩
  · refine and_congr_right fun hstands => ?_
    obtain ⟨row, column, h⟩ := hstands
    exact isUnnamed_eq_false_iff h.ne_nil
  · rw [hdrawn.names, map_fst_namedInRows, Text.distinct_filter]
    exact (Text.pairwise_distinct _).filter _
  · have hnamed := ((hmem x.1).1 (List.mem_map_of_mem hx)).2
    have hrows : Prod.fst '' placesOf x.1 (namedInRows 0 rows) = {row | ∃ column, StandsIn rows x.1 row column} := by
      ext row
      simp [placesOf, mem_namedInRows, hnamed]
    have hcolumns : Prod.snd '' placesOf x.1 (namedInRows 0 rows) = {column | ∃ row, StandsIn rows x.1 row column} := by
      ext column
      simp [placesOf, mem_namedInRows, hnamed]
    obtain ⟨hrow, hcolumn⟩ := hdrawn.boxes x hx
    rw [hrows] at hrow
    rw [hcolumns] at hcolumn
    exact ⟨hrow, hcolumn, hrow.span.1, hrow.span.2, hcolumn.span.1, hcolumn.span.2⟩

/-- A name around a dot and an empty row, beside a gap between rows. -/
theorem ofRows_boxes_emptyRow :
    let rows : List Text := ["a .", "", "b a"]
    let gap : Gap := { row := some "5px" }
    let box : Area := ⟨⟨1, 6, false⟩, ⟨1, 3, false⟩⟩
    ("a".toList, box) ∈ Areas.ofRows rows gap ∧
      box.row.Bounds gap.row {row | ∃ column, StandsIn rows "a" row column} ∧
      box.column.Bounds gap.column {column | ∃ row, StandsIn rows "a" row column} ∧
      1 ≤ box.row.span ∧ box.row.stop = box.row.start + box.row.span := by
  intro rows gap box
  have hmem : ("a".toList, box) ∈ Areas.ofRows rows gap := by decide
  obtain ⟨hrow, hcolumn, hspan, hstop, -⟩ := (ofRows_boxes rows gap).2.2.2 _ hmem
  exact ⟨hmem, hrow, hcolumn, hspan, hstop⟩

end VendorCss.Grid
