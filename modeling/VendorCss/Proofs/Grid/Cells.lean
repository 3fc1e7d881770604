import VendorCss.Pass.Grid
import VendorCss.Proofs.Sorting
import VendorCss.Proofs.Text.Cuts

/-!
# The cells of a grid, one after the other

The cells of a grid are drawn as areas whose names are numbers, row by row. Names that differ draw areas of one cell each,
so the areas are the cells in the order in which they were drawn (`numberedCells_eq`): the number `k`, from zero, is in row
`k / columns` and column `k % columns`. Sorted by columns, with ties left as they are, they go along the columns, and `k`
is in row `k % rows` and column `k / rows` (`cellsInFlow_eq`).
-/

namespace VendorCss

namespace Grid

variable {gap : Gap} {name : Text} {cell : Area} {areas : Areas} {names : List Text}

/-- The area of a single cell, told by the indexes of its row and its column. -/
def cellArea (gap : Gap) (cell : Nat × Nat) : Area := ⟨.ofIndex cell.1 gap.row, .ofIndex cell.2 gap.column⟩

namespace Areas

/-! ## Rows of names that differ -/

theorem addCell_of_notMem (h : name ∉ areas.names) (cell : Area) : addCell name cell areas = areas ++ [(name, cell)] := by
  induction areas with
  | nil => rfl
  | cons x areas ih =>
    obtain ⟨n, a⟩ := x
    rw [names, List.map_cons, List.mem_cons, not_or] at h
    rw [addCell, if_neg (Ne.symm h.1), ih h.2, List.cons_append]

/-- The areas that one row of single cells draws. -/
def rowCells (gap : Gap) (row column : Nat) (names : List Text) : Areas :=
  (names.zipIdx column).map fun (name, j) => (name, cellArea gap (row, j))

theorem names_rowCells (gap : Gap) (row column : Nat) (names : List Text) :
    Areas.names (rowCells gap row column names) = names := by
  rw [Areas.names, rowCells, List.map_map]
  exact List.zipIdx_map_fst column names

theorem addRow_eq (row column : Nat) (hnodup : (areas.names ++ names).Nodup)
    (hnamed : ∀ name ∈ names, isUnnamed name = false) :
    addRow gap (.ofIndex row gap.row) column names areas = areas ++ rowCells gap row column names := by
  induction names generalizing column areas with
  | nil => exact (List.append_nil areas).symm
  | cons name names ih =>
    have hnot : name ∉ areas.names := fun h =>
      (List.nodup_append.1 hnodup).2.2 name h name List.mem_cons_self rfl
    have hnext : (Areas.names (areas ++ [(name, cellArea gap (row, column))]) ++ names).Nodup := by
      simpa [Areas.names] using hnodup
    rw [addRow, hnamed name List.mem_cons_self, if_neg Bool.false_ne_true, addCell_of_notMem hnot]
    refine (ih (column + 1) hnext fun n hn => hnamed n (List.mem_cons_of_mem name hn)).trans ?_
    rw [List.append_assoc]
    rfl

/-- A name that is one word of a row and draws an area. -/
structure IsName (name : Text) : Prop where
  ne_nil : name ≠ []
  not_blank : ∀ c ∈ name, isBlank c = false
  named : isUnnamed name = false

theorem addRows_eq {lines : List (List Text)} (row : Nat) (hnodup : (areas.names ++ lines.flatten).Nodup)
    (hnames : ∀ names ∈ lines, ∀ name ∈ names, IsName name) :
    addRows gap row (lines.map (Text.join " ")) areas =
      areas ++ (lines.zipIdx row).flatMap fun (names, i) => rowCells gap i 0 names := by
  induction lines generalizing row areas with
  | nil => exact (List.append_nil areas).symm
  | cons names lines ih =>
    have hline := hnames names List.mem_cons_self
    have hwords : Text.words (Text.join " " names) = names :=
      Text.words_join fun name h => ⟨(hline name h).ne_nil, (hline name h).not_blank⟩
    rw [List.flatten_cons, ← List.append_assoc] at hnodup
    have hnext : (Areas.names (areas ++ rowCells gap row 0 names) ++ lines.flatten).Nodup := by
      rwa [Areas.names, List.map_append, ← Areas.names, ← Areas.names, names_rowCells]
    rw [List.map_cons, addRows, hwords,
      addRow_eq row 0 (List.nodup_append.1 hnodup).1 fun name h => (hline name h).named,
      ih (row + 1) hnext fun names h => hnames names (List.mem_cons_of_mem _ h), List.append_assoc]
    rfl

end Areas

/-! ## Cells by number -/

theorem flatMap_range_map_range {α : Type} (f : Nat → Nat → α) (m n : Nat) :
    (List.range m).flatMap (fun i => (List.range n).map (f i)) =
      (List.range (m * n)).map fun k => f (k / n) (k % n) := by
  induction m with
  | zero => rw [Nat.zero_mul]; rfl
  | succ m ih =>
    have hrow : (List.range n).map (f m) = ((List.range n).map (m * n + ·)).map fun k => f (k / n) (k % n) := by
      rw [List.map_map]
      refine List.map_congr_left fun j hj => ?_
      have hj := List.mem_range.1 hj
      have hn : 0 < n := Nat.zero_lt_of_lt hj
      rw [Function.comp_apply, Nat.mul_comm, Nat.mul_add_div hn, Nat.mul_add_mod, Nat.div_eq_of_lt hj,
        Nat.mod_eq_of_lt hj, Nat.add_zero]
    rw [List.range_succ, List.flatMap_append, ih, List.flatMap_singleton, hrow, ← List.map_append, ← List.range_add,
      Nat.succ_mul]

theorem zipIdx_map_range {α : Type} (f : Nat → α) (n : Nat) :
    ((List.range n).map f).zipIdx = (List.range n).map fun i => (f i, i) := by
  refine List.ext_getElem (by simp) fun i hi hi' => ?_
  simp

/-- The name of a cell, told by its number from zero. -/
def cellName (k : Nat) : Text := (Nat.repr (k + 1)).toList

theorem cellName_eq (k : Nat) : cellName k = Nat.toDigits 10 (k + 1) := by
  rw [cellName, Nat.repr, String.toList_ofList]

theorem cellName_injective : Function.Injective cellName := by
  intro k k' h
  have hread (k : Nat) : Nat.ofDigitChars 10 (cellName k) 0 = k + 1 := by
    rw [cellName_eq]
    exact Nat.ofDigitChars_ten_toDigits
  exact Nat.succ.inj ((hread k).symm.trans ((congrArg (Nat.ofDigitChars 10 · 0) h).trans (hread k')))

theorem isName_cellName (k : Nat) : Areas.IsName (cellName k) := by
  have hne : cellName k ≠ [] := by
    rw [cellName_eq]
    exact Nat.toDigits_ne_nil
  have hdigit (c : Char) (hc : c ∈ cellName k) : c.isDigit = true := by
    rw [cellName_eq] at hc
    exact Nat.isDigit_of_mem_toDigits (by decide) (by decide) hc
  refine ⟨hne, fun c hc => Text.isBlank_of_isAsciiWordChar (Text.isAsciiWordChar_of_isDigit (hdigit c hc)), ?_⟩
  obtain ⟨c, hc⟩ := List.exists_mem_of_ne_nil _ hne
  have hdot : (c == '.') = false := by
    rw [beq_eq_false_iff_ne]
    rintro rfl
    exact absurd (hdigit _ hc) (by decide)
  rw [Areas.isUnnamed, Bool.and_eq_false_iff]
  exact .inr (List.all_eq_false.2 ⟨c, hc, by rw [hdot]; exact Bool.false_ne_true⟩)

/-- The areas of the numbered cells are the cells, row by row. -/
theorem numberedCells_eq (rows columns : Nat) (gap : Gap) : Pass.numberedCells rows columns gap =
    (List.range (rows * columns)).map fun k => (cellName k, cellArea gap (k / columns, k % columns)) := by
  let lines := (List.range rows).map fun i => (List.range columns).map fun j => cellName (i * columns + j)
  have hdrawn : Pass.numberedCells rows columns gap = Areas.addRows gap 0 (lines.map (Text.join " ")) [] := by
    rw [List.map_map]
    rfl
  have hflat : lines.flatten = (List.range (rows * columns)).map cellName := by
    rw [← List.flatMap_def, flatMap_range_map_range]
    refine List.map_congr_left fun k _ => congrArg cellName ?_
    rw [Nat.mul_comm, Nat.div_add_mod]
  have hnodup : (Areas.names [] ++ lines.flatten).Nodup := by
    rw [hflat]
    exact List.nodup_range.map cellName_injective
  rw [hdrawn, Areas.addRows_eq 0 hnodup, List.nil_append, zipIdx_map_range, List.flatMap_map]
  · have hrow (i : Nat) : Areas.rowCells gap i 0 ((List.range columns).map fun j => cellName (i * columns + j)) =
        (List.range columns).map fun j => (cellName (i * columns + j), cellArea gap (i, j)) := by
      rw [Areas.rowCells, zipIdx_map_range, List.map_map]
      rfl
    simp only [hrow]
    rw [flatMap_range_map_range fun i j => (cellName (i * columns + j), cellArea gap (i, j))]
    refine List.map_congr_left fun k _ => ?_
    rw [Nat.mul_comm, Nat.div_add_mod]
  · intro names hnames name hname
    obtain ⟨i, -, rfl⟩ := List.mem_map.1 hnames
    obtain ⟨j, -, rfl⟩ := List.mem_map.1 hname
    exact isName_cellName _

/-! ## Cells in the flow -/

/-- The row and the column of the cell of a child, told by their indexes and that of the child. -/
def cellAt (flow : Text) (rows columns k : Nat) : Nat × Nat :=
  if flow.contains "column" then (k % rows, k / rows) else (k / columns, k % columns)

theorem lt_mul_and_div_mod_iff {rows columns i j : Nat} (hi : i < rows) (hj : j < columns) (k : Nat) :
    (k < rows * columns ∧ (k / columns, k % columns) = (i, j)) ↔ k = j + columns * i := by
  rw [Prod.mk.injEq, Nat.div_mod_unique (Nat.zero_lt_of_lt hj)]
  constructor
  · rintro ⟨-, rfl, -⟩
    rfl
  · rintro rfl
    refine ⟨?_, rfl, hj⟩
    have hmul := Nat.mul_le_mul_right columns (Nat.succ_le_of_lt hi)
    rw [Nat.succ_mul, Nat.mul_comm i] at hmul
    omega

theorem lt_mul_and_mod_div_iff {rows columns i j : Nat} (hi : i < rows) (hj : j < columns) (k : Nat) :
    (k < rows * columns ∧ (k % rows, k / rows) = (i, j)) ↔ k = i + rows * j := by
  have h := lt_mul_and_div_mod_iff hj hi k
  rw [Nat.mul_comm columns, Prod.mk.injEq, and_comm (a := k / rows = j)] at h
  rwa [Prod.mk.injEq]

/-- Every cell of the grid is that of exactly one child. -/
theorem existsUnique_cellAt (flow : Text) {rows columns i j : Nat} (hi : i < rows) (hj : j < columns) :
    ∃! k, k < rows * columns ∧ cellAt flow rows columns k = (i, j) := by
  unfold cellAt
  split
  · simp only [lt_mul_and_mod_div_iff hi hj, existsUnique_eq]
  · simp only [lt_mul_and_div_mod_iff hi hj, existsUnique_eq]

/-- The child of a grid is in one of its cells. -/
theorem cellAt_lt (flow : Text) {rows columns k : Nat} (hk : k < rows * columns) :
    (cellAt flow rows columns k).1 < rows ∧ (cellAt flow rows columns k).2 < columns := by
  have hrows : 0 < rows := Nat.pos_of_mul_pos_right (Nat.zero_lt_of_lt hk)
  have hcolumns : 0 < columns := Nat.pos_of_mul_pos_left (Nat.zero_lt_of_lt hk)
  unfold cellAt
  split
  · exact ⟨Nat.mod_lt k hrows, (Nat.div_lt_iff_lt_mul hrows).2 (by rwa [Nat.mul_comm])⟩
  · exact ⟨(Nat.div_lt_iff_lt_mul hcolumns).2 hk, Nat.mod_lt k hcolumns⟩

/-- The cells of all children are the cells of the grid. -/
theorem mem_map_cellAt (flow : Text) {rows columns : Nat} {cell : Nat × Nat} :
    cell ∈ (List.range (rows * columns)).map (cellAt flow rows columns) ↔ cell.1 < rows ∧ cell.2 < columns := by
  constructor
  · intro h
    obtain ⟨k, hk, rfl⟩ := List.mem_map.1 h
    exact cellAt_lt flow (List.mem_range.1 hk)
  · rintro ⟨hi, hj⟩
    obtain ⟨k, ⟨hk, hcell⟩, -⟩ := existsUnique_cellAt flow hi hj
    exact List.mem_map.2 ⟨k, List.mem_range.2 hk, hcell⟩

/-- Quotients and remainders of larger numbers are larger, the quotients first. -/
theorem div_lt_or_mod_lt {k k' : Nat} (h : k < k') (n : Nat) : k / n < k' / n ∨ k / n = k' / n ∧ k % n < k' % n := by
  have hle := Nat.div_le_div_right (c := n) (Nat.le_of_lt h)
  rcases Nat.lt_or_eq_of_le hle with hlt | heq
  · exact .inl hlt
  · have hk := Nat.div_add_mod k n
    have hk' := Nat.div_add_mod k' n
    rw [heq] at hk
    exact .inr ⟨heq, by omega⟩

/-- Cells told row by row, sorted by their columns, are told column by column. -/
theorem mergeSort_columns (rows columns : Nat) :
    ((List.range (rows * columns)).map fun k => (k / columns, k % columns)).mergeSort
        (fun a b => decide (a.2 ≤ b.2)) =
      (List.range (rows * columns)).map fun k => (k % rows, k / rows) := by
  have hbyRows : ((List.range (rows * columns)).map fun k => (k / columns, k % columns)).Pairwise
      fun a b => a.1 < b.1 ∨ a.1 = b.1 ∧ a.2 < b.2 :=
    List.pairwise_map.2 (List.pairwise_lt_range.imp fun h => div_lt_or_mod_lt h columns)
  have hbyColumns : ((List.range (rows * columns)).map fun k => (k % rows, k / rows)).Pairwise
      fun a b => a.2 < b.2 ∨ a.2 = b.2 ∧ a.1 < b.1 :=
    List.pairwise_map.2 (List.pairwise_lt_range.imp fun h => div_lt_or_mod_lt h rows)
  have hnodup : ((List.range (rows * columns)).map fun k => (k / columns, k % columns)).Nodup :=
    hbyRows.imp fun h heq => by subst heq; omega
  have hnodup' : ((List.range (rows * columns)).map fun k => (k % rows, k / rows)).Nodup :=
    hbyColumns.imp fun h heq => by subst heq; omega
  have trans (a b c : Nat × Nat) (hab : decide (a.2 ≤ b.2) = true) (hbc : decide (b.2 ≤ c.2) = true) :
      decide (a.2 ≤ c.2) = true :=
    decide_eq_true (Nat.le_trans (of_decide_eq_true hab) (of_decide_eq_true hbc))
  have total (a b : Nat × Nat) : (decide (a.2 ≤ b.2) || decide (b.2 ≤ a.2)) = true := by
    rw [Bool.or_eq_true, decide_eq_true_eq, decide_eq_true_eq]
    exact Nat.le_total a.2 b.2
  have hsorted := pairwise_stable_mergeSort trans total hnodup
  have hperm : ((List.range (rows * columns)).map fun k => (k / columns, k % columns)).Perm
      ((List.range (rows * columns)).map fun k => (k % rows, k / rows)) := by
    refine (List.perm_ext_iff_of_nodup hnodup hnodup').2 fun cell => ?_
    exact (mem_map_cellAt "row").trans (mem_map_cellAt "column").symm
  refine ((List.mergeSort_perm _ _).trans hperm).eq_of_pairwise (fun a b _ _ hab hba => ?_) (hsorted.imp ?_) hbyColumns
  · omega
  · rintro a b ⟨hle, hstable⟩
    rw [decide_eq_true_eq] at hle hstable
    rcases Nat.lt_or_eq_of_le hle with hlt | heq
    · exact .inl hlt
    · -- cells of one column stand in the order of their rows
      have h := List.pairwise_iff_forall_sublist.1 hbyRows (hstable (Nat.le_of_eq heq.symm))
      omega

/-- The cells of a grid in the order in which its children take them. -/
theorem cells_in_flow (rows columns : Nat) (gap : Gap) (flow : Text) :
    (if flow.contains "column" then
        ((Pass.numberedCells rows columns gap).map Prod.snd).mergeSort fun a b => a.column.start ≤ b.column.start
      else (Pass.numberedCells rows columns gap).map Prod.snd) =
      (List.range (rows * columns)).map fun k => cellArea gap (cellAt flow rows columns k) := by
  have hcells : (Pass.numberedCells rows columns gap).map Prod.snd =
      ((List.range (rows * columns)).map fun k => (k / columns, k % columns)).map (cellArea gap) := by
    rw [numberedCells_eq, List.map_map, List.map_map]
    rfl
  have hle (a b : Nat × Nat) : decide (a.2 ≤ b.2) =
      decide ((cellArea gap a).column.start ≤ (cellArea gap b).column.start) := by
    refine decide_eq_decide.2 ?_
    unfold cellArea LineRange.ofIndex
    dsimp only
    split <;> omega
  rw [hcells]
  unfold cellAt
  split
  · rw [← List.map_mergeSort fun a _ b _ => hle a b, mergeSort_columns, List.map_map]
    rfl
  · rw [List.map_map]
    rfl

end Grid

end VendorCss
