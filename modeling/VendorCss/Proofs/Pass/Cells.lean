import VendorCss.Proofs.Grid.Cells
import VendorCss.Proofs.Pass.GridBounds
import VendorCss.Proofs.Sheet.Blocks

/-!
# The children of a grid in their cells

Automatic placement writes one rule for each cell of a grid, directly after the rule of the grid: the rule for the child
`n` puts it into the cell that it takes in the direction of the flow, by numbers of lines that are doubled where there is a
gap (`insertCells_places`). The rules are put there from the last one to the first, so they stand in the order of the
children, and every cell is that of one child.
-/

namespace VendorCss

namespace Grid

/-- The number of the line before a track. Where there is a gap, every other track is one. -/
def lineBefore (gap : Option Text) (index : Nat) : Nat := if gap.isSome then 2 * index + 1 else index + 1

/-- The declarations that put a child into the cell in a row and a column. -/
def cellDeclarations (gap : Gap) (before : Text) (cell : Nat × Nat) : List Node :=
  [(Node.declaration "-ms-grid-row" (Nat.repr (lineBefore gap.row cell.1)).toList).withBefore before,
    (Node.declaration "-ms-grid-column" (Nat.repr (lineBefore gap.column cell.2)).toList).withBefore before]

theorem start_ofIndex (index : Nat) (gap : Option Text) : (LineRange.ofIndex index gap).start = lineBefore gap index := by
  unfold LineRange.ofIndex lineBefore
  dsimp only
  split <;> rfl

end Grid

namespace Pass

open Grid

variable {p : Pass} {decl rule : Nat} {node : Node} {kids : Forest} {selector : Text} {rows : Declaration}

/-- The rule for a child of a grid: the node of the grid with another selector, and the declarations of the cell. -/
theorem cellRule_eq (hselector : node.selector? = some selector) (nth : Nat) (gap : Gap) (cell : Nat × Nat)
    (before : Text) : cellRule node (Separated.byComma selector) nth (cellArea gap cell) before =
      ({ node with content := .rule (cellSelector (Separated.byComma selector) nth) },
        cellDeclarations gap before cell) := by
  have hmap (f : Text → Text) : node.mapSelector f = { node with content := .rule (f selector) } := by
    unfold Node.selector? at hselector
    unfold Node.mapSelector
    split at hselector
    · cases hselector
      rfl
    · cases hselector
  unfold cellRule
  dsimp only
  rw [hmap, cellArea]
  dsimp only
  rw [start_ofIndex, start_ofIndex]
  rfl

/-- Each child of a grid has its rule directly after that of the grid, in the order of the children, and the rule says the
child's cell in the flow and nothing else. Each cell is that of one child, and what was there stays as it was. -/
theorem insertCells_places (hs : p.sheet.IsNumbered) (hparent : p.sheet.parent? decl = some rule)
    (hrule : p.sheet.find? rule = some (node, kids)) (hselector : node.selector? = some selector)
    (hrows : (p.sheet.findDeclaration? rule "grid-template-rows").bind p.sheet.declaration? = some rows)
    (d : Declaration) (gap : Gap) (flow : Text) :
    let R := (tracksOf rows.value).length
    let C := (tracksOf d.value).length
    let s := p.sheet
    let s' := (p.insertCells decl d gap flow).sheet
    let before := (((s.childDeclarations rule).head?).map s.before).getD []
    (∃ cells : List Nat, cells.length = R * C ∧
      s'.nextSiblings rule = cells ++ s.nextSiblings rule ∧ s'.prevSiblings rule = s.prevSiblings rule ∧
      ∀ k i, cells[k]? = some i → s'.find? i =
        some ({ node with content := .rule (cellSelector (Separated.byComma selector) (k + 1)) },
          Sheet.leaves (i + 1) (cellDeclarations gap before (cellAt flow R C k)))) ∧
    (∀ row column, row < R → column < C → ∃! k, k < R * C ∧ cellAt flow R C k = (row, column)) ∧
    s'.find? rule = s.find? rule ∧ ∀ i < s.next, s'.node? i = s.node? i := by
  intro R C s s' before
  -- the rules, from the first child to the last
  let rules : List (Node × List Node) := (List.range (R * C)).map fun k =>
    ({ node with content := .rule (cellSelector (Separated.byComma selector) (k + 1)) },
      cellDeclarations gap before (cellAt flow R C k))
  let row := Sheet.blockRow (Sheet.blocks s.next rules.reverse)
  let next := s.next + Sheet.blocksSize rules.reverse
  have hput : s' = s.putAfter rule row next := by
    have hnode : p.sheet.node? rule = some node := by
      rw [Sheet.node?, hrule]
      rfl
    have hselected : p.sheet.selector? rule = some selector := by
      rw [Sheet.selector?, hnode]
      exact hselector
    have hcells : s' = rules.reverse.foldl
        (fun s (b : Node × List Node) => (s.insertBlock (.after rule) b.1 b.2).2) s := by
      simp only [s', insertCells, hparent, hnode, hselected, hrows, cells_in_flow, zipIdx_map_range, List.map_map,
        Function.comp_def, cellRule_eq hselector]
      rfl
    rw [hcells]
    exact Sheet.foldl_insertBlock_after s rule rules.reverse
  have hfresh : s.IsFresh row next := s.isFresh_blocks rules.reverse
  have hsnd : (Sheet.blocks s.next rules.reverse).map Prod.snd = rules := by
    rw [Sheet.map_snd_blocks, List.reverse_reverse]
  refine ⟨⟨row.tops, ?_, ?_, ?_, fun k i hk => ?_⟩, fun i j hi hj => existsUnique_cellAt flow hi hj, ?_, fun i hi => ?_⟩
  · have hlength := congrArg List.length hsnd
    rw [List.length_map] at hlength
    rw [Sheet.tops_blockRow, List.length_map, hlength, List.length_map, List.length_range]
  · rw [hput, Sheet.nextSiblings_putAfter hs hfresh hrule]
  · rw [hput, Sheet.prevSiblings_putAfter hs hfresh hrule]
  · rw [Sheet.tops_blockRow, List.getElem?_map, Option.map_eq_some_iff] at hk
    obtain ⟨⟨i, block⟩, hblock, rfl⟩ := hk
    have hrules : rules[k]? = some block := by
      rw [← hsnd, List.getElem?_map, hblock]
      rfl
    rw [List.getElem?_map, Option.map_eq_some_iff] at hrules
    obtain ⟨j, hj, rfl⟩ := hrules
    obtain rfl : j = k := by
      obtain ⟨hlt, hj⟩ := List.getElem?_eq_some_iff.1 hj
      rw [← List.getElem_range hlt, hj]
    have hmem := List.mem_of_getElem? hblock
    have hids : i ∈ row.ids := Forest.mem_ids_of_mem_tops (by rw [Sheet.tops_blockRow]; exact List.mem_map_of_mem hmem)
    rw [hput, Sheet.find?_putAfter_of_mem hs hfresh hrule hids, Sheet.find?_blockRow hfresh.nodup hmem]
  · rw [hput, Sheet.find?_putAfter hs hfresh hrule, hrule]
  · rw [hput, Sheet.node?_putAfter hfresh hi]

/-- A grid of two rows and a column. -/
def smallGrid : Pass where
  rules := default
  sheet := .ofRoot .root (.tree 1 (.rule "a") (Sheet.leaves 2
    [.declaration "grid-template-rows" "1fr 1fr", .declaration "grid-template-columns" "1fr"])) 4

/-- Its second child goes below the gap, and nothing else is after the rule of the grid. -/
theorem insertCells_places_smallGrid : smallGrid.sheet.IsNumbered ∧ smallGrid.sheet.parent? 3 = some 1 ∧
    ∃ first second,
      (smallGrid.insertCells 3 ⟨"grid-template-columns", "1fr", false⟩ ⟨some "1em", none⟩ "row").sheet.nextSiblings 1 =
          [first, second] ∧
        (smallGrid.insertCells 3 ⟨"grid-template-columns", "1fr", false⟩ ⟨some "1em", none⟩ "row").sheet.find? second =
          some (.rule "a > *:nth-child(2)", Sheet.leaves (second + 1)
            [.declaration "-ms-grid-row" "3", .declaration "-ms-grid-column" "1"]) := by
  have hs : smallGrid.sheet.IsNumbered := ⟨by decide, by decide⟩
  have hparent : smallGrid.sheet.parent? 3 = some 1 := by decide
  have hrule : smallGrid.sheet.find? 1 = some (.rule "a", Sheet.leaves 2
    [.declaration "grid-template-rows" "1fr 1fr", .declaration "grid-template-columns" "1fr"]) := by decide
  have hrows : (smallGrid.sheet.findDeclaration? 1 "grid-template-rows").bind smallGrid.sheet.declaration? =
      some ⟨"grid-template-rows", "1fr 1fr", false⟩ := by decide
  obtain ⟨⟨cells, hlength, hnext, -, hcells⟩, -⟩ := insertCells_places hs hparent hrule rfl hrows
    ⟨"grid-template-columns", "1fr", false⟩ ⟨some "1em", none⟩ "row"
  have htracks : (tracksOf "1fr 1fr").length * (tracksOf "1fr").length = 2 := by decide
  obtain ⟨first, second, rfl⟩ := List.length_eq_two.1 (hlength.trans htracks)
  have hafter : smallGrid.sheet.nextSiblings 1 = [] := by decide
  rw [hafter] at hnext
  refine ⟨hs, hparent, first, second, hnext, ?_⟩
  have hselector : cellSelector (Separated.byComma "a") 2 = "a > *:nth-child(2)" := by decide
  have hbefore : ((smallGrid.sheet.childDeclarations 1).head?.map smallGrid.sheet.before).getD [] = [] := by decide
  have hcell : cellAt "row" (tracksOf "1fr 1fr").length (tracksOf "1fr").length 1 = (1, 0) := by decide
  have hlines : cellDeclarations ⟨some "1em", none⟩ [] (1, 0) =
      [Node.declaration "-ms-grid-row" "3", Node.declaration "-ms-grid-column" "1"] := by decide
  have hsecond := hcells 1 second rfl
  dsimp only at hsecond
  rw [hselector, hbefore, hcell, hlines] at hsecond
  exact hsecond

end Pass

end VendorCss
