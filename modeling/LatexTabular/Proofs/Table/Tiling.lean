import LatexTabular.Proofs.Table.Widening
import LatexTabular.Proofs.Table.Words

/-!
# Cells over the columns of a table

The columns of the cells of a row, one cell after the other, are the columns from zero to the width
of the row (`Row.flatMap_columns_placed`).  The lookups over a column go through the cells each in
its own way, and all of them find the one cell that takes it
(`Row.cellIndex?_eq_some_iff_columnsAt?`).  The rows of a table that was read are as wide as the
table, so a valid selection selects nothing but cells (`Table.lookups_tile`).
-/

namespace LatexTabular

open Text (wordLimit)

/-- The columns of a range, one by one. -/
def ColumnRange.columns (range : ColumnRange) : List Nat :=
  List.range' range.first (range.last + 1 - range.first)

theorem ColumnRange.mem_columns_iff {range : ColumnRange} {column : Nat} :
    column ∈ range.columns ↔ range.first ≤ column ∧ column ≤ range.last := by
  rw [columns, List.mem_range'_1]
  omega

namespace Row

variable {row : Row} {column index : Nat}

theorem flatMap_columns_placedFrom (index first : Nat) (cells : List Cell) :
    (placedFrom index first cells).flatMap (·.2.1.columns)
      = List.range' first (totalWidth cells) := by
  induction cells generalizing index first with
  | nil => rfl
  | cons cell rest ih =>
      have positive := cell.width_pos
      have width : first + cell.width - 1 + 1 - first = cell.width := by omega
      rw [placedFrom, List.flatMap_cons, ih, totalWidth, ColumnRange.columns, width,
        List.range'_append_1]

/-- The cells of a row take each of its columns once, in order. -/
theorem flatMap_columns_placed (row : Row) :
    row.placed.flatMap (·.2.1.columns) = List.range (totalWidth row.cells) := by
  rw [placed, flatMap_columns_placedFrom, List.range_eq_range']

theorem exists_eq_append_of_mem_placedFrom {index first : Nat} {cells : List Cell}
    {place : Nat × ColumnRange × Cell} (member : place ∈ placedFrom index first cells) :
    ∃ before cell behind, cells = before ++ cell :: behind ∧
      place = (index + before.length,
        ⟨first + totalWidth before, first + totalWidth before + cell.width - 1⟩, cell) := by
  induction cells generalizing index first with
  | nil => exact absurd member List.not_mem_nil
  | cons cell rest ih =>
      rcases List.mem_cons.mp member with rfl | inRest
      · exact ⟨[], cell, rest, rfl, rfl⟩
      · obtain ⟨before, other, behind, rfl, rfl⟩ := ih inRest
        refine ⟨cell :: before, other, behind, rfl, ?_⟩
        rw [List.length_cons, totalWidth, Nat.add_assoc, Nat.add_assoc, Nat.add_comm 1]

/-- Over each of its columns a cell is found, with its index and its columns. -/
theorem found_of_mem_placed {place : Nat × ColumnRange × Cell} (member : place ∈ row.placed)
    (taken : column ∈ place.2.1.columns) :
    row.cellIndex? column = some place.1 ∧ row.columnsAt? column = some place.2.1 ∧
      row.cellAt? column = some place.2.2 := by
  obtain ⟨before, cell, behind, cellsEq, rfl⟩ := exists_eq_append_of_mem_placedFrom member
  obtain ⟨begins, ends⟩ := ColumnRange.mem_columns_iff.mp taken
  have positive := cell.width_pos
  simp only [Nat.zero_add] at begins ends ⊢
  have within : column < totalWidth before + cell.width := by omega
  exact ⟨cellIndex?_of_over cellsEq begins within, columnsAt?_of_over cellsEq begins within,
    cellAt?_of_over cellsEq begins within⟩

/-- The three lookups over a column find the same cell: the one that takes the column, behind the
cells in front of it. -/
theorem cellIndex?_eq_some_iff_columnsAt? :
    row.cellIndex? column = some index ↔ ∃ cell range, row.cells[index]? = some cell ∧
      row.cellAt? column = some cell ∧ row.columnsAt? column = some range ∧
      range.first = totalWidth (row.cells.take index) ∧
      range.last = range.first + cell.width - 1 ∧
      range.first ≤ column ∧ column ≤ range.last := by
  constructor
  · intro found
    obtain ⟨before, cell, behind, cellsEq, begins, ends⟩ :=
      exists_over_of_lt (lt_totalWidth_of_cellIndex? found)
    have isIndex := cellIndex?_of_over cellsEq begins ends
    obtain rfl := Option.some.inj (isIndex.symm.trans found)
    refine ⟨cell, _, by simp [cellsEq], cellAt?_of_over cellsEq begins ends,
      columnsAt?_of_over cellsEq begins ends, by simp [cellsEq], rfl, begins, ?_⟩
    dsimp only
    omega
  · rintro ⟨cell, range, isCell, -, -, first, last, begins, ends⟩
    obtain ⟨inCells, rfl⟩ := List.getElem?_eq_some_iff.mp isCell
    have positive := row.cells[index].width_pos
    have parts : row.cells = row.cells.take index ++ row.cells[index] :: row.cells.drop (index + 1) := by
      rw [List.getElem_cons_drop, List.take_append_drop]
    have found := cellIndex?_of_over parts (first ▸ begins) (by omega)
    rwa [List.length_take, Nat.min_eq_left inCells.le] at found

/-- Over the columns of a row each lookup finds something. -/
theorem exists_lookups_of_lt (within : column < totalWidth row.cells) :
    ∃ index cell range, row.cellIndex? column = some index ∧ row.cellAt? column = some cell ∧
      row.columnsAt? column = some range := by
  obtain ⟨before, cell, behind, cellsEq, begins, ends⟩ := exists_over_of_lt within
  exact ⟨_, _, _, cellIndex?_of_over cellsEq begins ends, cellAt?_of_over cellsEq begins ends,
    columnsAt?_of_over cellsEq begins ends⟩

theorem isSome_cellIndex?_iff :
    (row.cellIndex? column).isSome = true ↔ column < totalWidth row.cells := by
  constructor
  · intro found
    obtain ⟨index, isIndex⟩ := Option.isSome_iff_exists.mp found
    exact lt_totalWidth_of_cellIndex? isIndex
  · intro within
    obtain ⟨index, -, -, found, -, -⟩ := exists_lookups_of_lt within
    exact Option.isSome_of_eq_some found

theorem isSome_columnsAt?_iff :
    (row.columnsAt? column).isSome = true ↔ column < totalWidth row.cells := by
  constructor
  · intro found
    obtain ⟨range, isRange⟩ := Option.isSome_iff_exists.mp found
    obtain ⟨⟨place, member, rfl⟩, -, ends⟩ := columnsAt?_eq_some_iff.mp isRange
    have inRow := last_lt_of_mem_placedFrom member
    rw [Nat.zero_add] at inRow
    exact Nat.lt_of_le_of_lt ends inRow
  · intro within
    obtain ⟨-, -, range, -, -, found⟩ := exists_lookups_of_lt within
    exact Option.isSome_of_eq_some found

theorem isSome_cellAt?_iff :
    (row.cellAt? column).isSome = true ↔ column < totalWidth row.cells := by
  constructor
  · intro found
    obtain ⟨cell, isCell⟩ := Option.isSome_iff_exists.mp found
    obtain ⟨index, isIndex, -⟩ := Option.bind_eq_some_iff.mp isCell
    exact lt_totalWidth_of_cellIndex? isIndex
  · intro within
    obtain ⟨-, cell, -, -, found, -⟩ := exists_lookups_of_lt within
    exact Option.isSome_of_eq_some found

end Row

namespace Table

variable {table : Table} {rowIndex column index : Nat}

theorem cellIndex?_eq_some_iff : table.cellIndex? rowIndex column = some index ↔
    ∃ row, table.rows[rowIndex]? = some row ∧ row.cellIndex? column = some index :=
  Option.bind_eq_some_iff

/-- What is looked up in a row of a table is what is found in that row. -/
theorem lookups_of_row {row : Row} (isRow : table.rows[rowIndex]? = some row) (column : Nat) :
    table.cellIndex? rowIndex column = row.cellIndex? column ∧
      table.cellAt? rowIndex column = row.cellAt? column ∧
      table.columnsAt? rowIndex column = row.columnsAt? column := by
  simp [cellIndex?, cellAt?, columnsAt?, isRow]

/-- The lookups over the columns of a table agree, and the cells of its rows tile their columns. -/
structure Tiled (table : Table) : Prop where
  /-- All lookups find the cell that takes a column, behind the cells in front of it. -/
  found : ∀ rowIndex column index, table.cellIndex? rowIndex column = some index ↔
    ∃ row cell range, table.rows[rowIndex]? = some row ∧ row.cells[index]? = some cell ∧
      table.cellAt? rowIndex column = some cell ∧
      table.columnsAt? rowIndex column = some range ∧
      range.first = Row.totalWidth (row.cells.take index) ∧
      range.last = range.first + cell.width - 1 ∧
      range.first ≤ column ∧ column ≤ range.last
  /-- Where one of the lookups finds nothing, none does. -/
  together : ∀ rowIndex column,
    (table.columnsAt? rowIndex column).isSome = (table.cellIndex? rowIndex column).isSome ∧
      (table.cellAt? rowIndex column).isSome = (table.cellIndex? rowIndex column).isSome
  /-- The cells of a row take each column up to the width of the row once. -/
  columns : ∀ row ∈ table.rows,
    row.placed.flatMap (·.2.1.columns) = List.range (Row.totalWidth row.cells)
  /-- Each cell is found over all columns that it takes. -/
  places : ∀ row ∈ table.rows, ∀ place ∈ row.placed, ∀ column ∈ place.2.1.columns,
    row.cellIndex? column = some place.1 ∧ row.columnsAt? column = some place.2.1 ∧
      row.cellAt? column = some place.2.2
  /-- In a row of which the width fits a machine word the lookups do not leave the words. -/
  words : ∀ row ∈ table.rows, Row.totalWidth row.cells < wordLimit → ∀ column,
    Row.indexInWords? 0 0 row.cells column = some (row.cellIndex? column) ∧
      Row.columnsInWords? 0 row.cells column = some (row.columnsAt? column)

theorem tiled (table : Table) : table.Tiled := by
  constructor
  · intro rowIndex column index
    rw [cellIndex?_eq_some_iff]
    constructor
    · rintro ⟨row, isRow, found⟩
      obtain ⟨-, atColumn, columns⟩ := lookups_of_row isRow column
      obtain ⟨cell, range, isCell, isCellAt, isRange, bounds⟩ :=
        Row.cellIndex?_eq_some_iff_columnsAt?.mp found
      exact ⟨row, cell, range, isRow, isCell, atColumn.trans isCellAt, columns.trans isRange, bounds⟩
    · rintro ⟨row, cell, range, isRow, isCell, isCellAt, isRange, bounds⟩
      obtain ⟨-, atColumn, columns⟩ := lookups_of_row isRow column
      exact ⟨row, isRow, Row.cellIndex?_eq_some_iff_columnsAt?.mpr
        ⟨cell, range, isCell, atColumn.symm.trans isCellAt, columns.symm.trans isRange, bounds⟩⟩
  · intro rowIndex column
    cases isRow : table.rows[rowIndex]? with
    | none => simp [cellIndex?, cellAt?, columnsAt?, isRow]
    | some row =>
        obtain ⟨index, atColumn, columns⟩ := lookups_of_row isRow column
        rw [index, atColumn, columns]
        constructor
        · exact Bool.eq_iff_iff.mpr (Row.isSome_columnsAt?_iff.trans Row.isSome_cellIndex?_iff.symm)
        · exact Bool.eq_iff_iff.mpr (Row.isSome_cellAt?_iff.trans Row.isSome_cellIndex?_iff.symm)
  · exact fun row _ => row.flatMap_columns_placed
  · exact fun row _ place member column taken => Row.found_of_mem_placed member taken
  · intro row _ narrow column
    constructor
    · rw [Row.indexInWords?_of_lt (by omega) (Nat.zero_le column)]
      simp [Row.cellIndex?]
    · exact Row.columnsInWords?_of_lt (by omega) column

/-- The rows of a table that was read are as wide as the table. -/
theorem columnCount_le_totalWidth {document : Text}
    (read : readFirst document = .ok table ∨ (∃ offset, readAt document offset = .ok table) ∨
      ∃ tables, readAll document = .ok tables ∧ table ∈ tables) :
    ∀ row ∈ table.rows, table.columnCount ≤ Row.totalWidth row.cells := by
  obtain ⟨tabular, isTabular, found⟩ := exists_tabular_of_read read
  intro row isRow
  rw [totalWidth_cells isTabular found isRow]
  exact Nat.le_max_right _ _

/-- The lookups over a column of a row find the same cell: its index, the cell itself, and its
columns, which begin behind the widths of the cells in front of it, are as many as the cell is
wide and contain the column.  Either all of them find it or none does.  The columns of the cells
of a row are those from zero to its width, each once, and in a row of which the width fits a
machine word the lookups never leave the words.  If the table was read from a document, its rows
are as wide as the table, and wherever a valid selection reaches a cell is found. -/
theorem lookups_tile (table : Table) :
    table.Tiled ∧
    ∀ document, (readFirst document = .ok table ∨ (∃ offset, readAt document offset = .ok table) ∨
        ∃ tables, readAll document = .ok tables ∧ table ∈ tables) →
      (∀ row ∈ table.rows, table.columnCount ≤ Row.totalWidth row.cells) ∧
      ∀ selection : Selection, selection.validate table = .ok () → ∀ rowIndex column,
        selection.bounds.top ≤ rowIndex → rowIndex ≤ selection.bounds.bottom →
        selection.bounds.left ≤ column → column ≤ selection.bounds.right →
        ∃ index cell range, table.cellIndex? rowIndex column = some index ∧
          table.cellAt? rowIndex column = some cell ∧
          table.columnsAt? rowIndex column = some range := by
  refine ⟨table.tiled, fun document read => ?_⟩
  have wide := columnCount_le_totalWidth read
  refine ⟨wide, ?_⟩
  intro selection valid rowIndex column _ bottom _ right
  obtain ⟨inRows, inColumns⟩ := Selection.bounds_of_validate valid
  obtain ⟨row, isRow⟩ : ∃ row, table.rows[rowIndex]? = some row :=
    ⟨_, List.getElem?_eq_getElem (Nat.lt_of_le_of_lt bottom inRows)⟩
  have reaches := wide row (List.mem_of_getElem? isRow)
  have within : column < Row.totalWidth row.cells :=
    Nat.lt_of_le_of_lt right (Nat.lt_of_lt_of_le inColumns reaches)
  obtain ⟨index, atColumn, columns⟩ := lookups_of_row isRow column
  rw [index, atColumn, columns]
  exact Row.exists_lookups_of_lt within

/-- A row with a cell merged over no column as written and one over two, above a short row. -/
def unevenTable : Text :=
  ("\\begin{tabular}{lll}\\multicolumn{0}{c}{a}&".toList
    ++ "\\multicolumn{2}{c}{b}\\\\c\\\\\\end{tabular}".toList)

/-- The second merge is found over the last column, where the short row has a blank cell. -/
theorem lookups_tile_unevenTable :
    ∃ table, readFirst unevenTable = .ok table ∧
      table.cellIndex? 0 2 = some 1 ∧ table.columnsAt? 0 2 = some ⟨1, 2⟩ ∧
      (Selection.single 1 2).validate table = .ok () ∧
      (∃ index cell range, table.cellIndex? 1 2 = some index ∧
        table.cellAt? 1 2 = some cell ∧ table.columnsAt? 1 2 = some range) ∧
      ∀ row ∈ table.rows, Row.totalWidth row.cells < wordLimit ∧
        Row.indexInWords? 0 0 row.cells 2 = some (row.cellIndex? 2) := by
  have facts : (readFirst unevenTable).map (fun table =>
      ((table.cellIndex? 0 2, table.columnsAt? 0 2),
        decide ((Selection.single 1 2).validate table = .ok ()),
        table.rows.map fun row => Row.totalWidth row.cells))
      = .ok ((some 1, some ⟨1, 2⟩), true, [3, 3]) := by decide +kernel
  obtain ⟨table, read, evaluated⟩ := exists_eq_ok_of_map facts
  obtain ⟨found, rest⟩ := Prod.mk.inj evaluated
  obtain ⟨index, range⟩ := Prod.mk.inj found
  obtain ⟨checked, widths⟩ := Prod.mk.inj rest
  obtain ⟨tiled, ofRead⟩ := lookups_tile table
  have valid : (Selection.single 1 2).validate table = .ok () := of_decide_eq_true checked
  have selected := (ofRead unevenTable (Or.inl read)).2 _ valid 1 2
    (by decide) (by decide) (by decide) (by decide)
  refine ⟨table, read, index, range, valid, selected, ?_⟩
  intro row isRow
  have width : Row.totalWidth row.cells = 3 := by
    have member := List.mem_map_of_mem (f := fun row => Row.totalWidth row.cells) isRow
    rw [widths] at member
    simpa using member
  have narrow : Row.totalWidth row.cells < wordLimit := by
    rw [width]
    decide
  exact ⟨narrow, (tiled.words row isRow narrow 2).1⟩

end Table

end LatexTabular
