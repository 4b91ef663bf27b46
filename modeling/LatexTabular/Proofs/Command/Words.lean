import LatexTabular.Command.Growth
import LatexTabular.Proofs.Command.Merging
import LatexTabular.Proofs.Table.Words

/-!
# Commands that count in machine words

Which numbers a command comes to depends on the widths that a document writes for its merged
cells.  All of them fit machine words for every selection exactly if every row does, a merged cell
over as many columns as a word can count shares its table with its like only, and the separators
behind a merged cell have a length (`Table.countsInWords_iff`).
-/

namespace LatexTabular

open Markup
open Text (wordLimit word?)

theorem Text.size_repeated (count : Nat) (text : Text) :
    size (repeated count text) = count * text.size := by
  induction count with
  | zero => simp [repeated]
  | succ count ih =>
      rw [repeated, List.replicate_succ, List.flatten_cons, size_append, Nat.succ_mul, Nat.add_comm]
      exact congrArg (· + text.size) ih

namespace Row

/-- The merge that grows when a column is inserted beside the cell over a column. -/
def growing? (column : Nat) (after : Bool) (row : Row) : Option Merge := do
  let index ← row.cellIndex? column
  let cell ← row.cellAt? column
  let range ← row.columnsAt? column
  if index ≤ row.separators.length ∧ (if after then range.last else range.first) ≠ column then
    cell.merge
  else none

/-- Whether a row is one merged cell over as many columns as a word can count. -/
def IsWidest (row : Row) : Prop :=
  ∃ cell merge, row.cells = [cell] ∧ cell.merge = some merge ∧ merge.columns + 1 = wordLimit

variable {row : Row} {column : Nat} {after : Bool} {merge : Merge}

theorem growing?_eq_some_iff :
    row.growing? column after = some merge ↔ ∃ index cell range,
      row.cellIndex? column = some index ∧ row.cellAt? column = some cell ∧
        row.columnsAt? column = some range ∧ index ≤ row.separators.length ∧
        (if after then range.last else range.first) ≠ column ∧ cell.merge = some merge := by
  have chosen {condition : Prop} [Decidable condition] {merge? : Option Merge} :
      (if condition then merge? else none) = some merge ↔ condition ∧ merge? = some merge := by
    split <;> simp_all
  simp only [growing?, Option.bind_eq_bind, Option.bind_eq_some_iff, chosen, exists_and_left,
    and_assoc]

/-- In a row that fits a word, only a cell that is the row can take all columns. -/
theorem isWidest_of_width (within : totalWidth row.cells < wordLimit) {before behind : List Cell}
    {cell : Cell} (cellsEq : row.cells = before ++ cell :: behind)
    (wide : wordLimit ≤ cell.width + 1) : row.IsWidest := by
  have alone {cells : List Cell} (none : totalWidth cells = 0) : cells = [] := by
    cases cells with
    | nil => rfl
    | cons first others =>
        have positive := first.width_pos
        rw [totalWidth] at none
        omega
  rw [cellsEq, totalWidth_append, totalWidth] at within
  obtain rfl := alone (show totalWidth before = 0 by omega)
  obtain rfl := alone (show totalWidth behind = 0 by omega)
  have limit : 2 < wordLimit := by decide
  cases merged : cell.merge with
  | none =>
      simp only [Cell.width, merged] at wide
      omega
  | some merge =>
      refine ⟨cell, merge, cellsEq, merged, ?_⟩
      simp only [Cell.width, merged] at wide within
      omega

/-- A merge that would leave the words when it grows is its row. -/
theorem isWidest_of_growing? (within : totalWidth row.cells < wordLimit)
    (found : row.growing? column after = some merge) (beyond : wordLimit ≤ merge.columns + 1) :
    row.IsWidest := by
  obtain ⟨index, cell, range, isIndex, isCell, -, -, -, merged⟩ := growing?_eq_some_iff.mp found
  obtain ⟨before, other, behind, cellsEq, begins, ends⟩ :=
    exists_over_of_lt (lt_totalWidth_of_cellIndex? isIndex)
  obtain rfl := Option.some.inj (isCell.symm.trans (cellAt?_of_over cellsEq begins ends))
  refine isWidest_of_width within cellsEq ?_
  simp only [Cell.width, merged]
  omega

/-- A widest row lies over all columns that a word can tell apart, but for the last one. -/
theorem IsWidest.over (widest : row.IsWidest) (inside : column + 1 < wordLimit) :
    ∃ cell merge, cell.merge = some merge ∧ merge.columns + 1 = wordLimit ∧
      row.cellIndex? column = some 0 ∧ row.cellAt? column = some cell ∧
      row.columnsAt? column = some ⟨0, wordLimit - 2⟩ := by
  obtain ⟨cell, merge, cellsEq, merged, columns⟩ := widest
  have width : cell.width + 1 = wordLimit := by
    have limit : 2 < wordLimit := by decide
    simp only [Cell.width, merged]
    omega
  have begins : totalWidth [] ≤ column := Nat.zero_le column
  have ends : column < totalWidth [] + cell.width := by
    rw [totalWidth]
    omega
  have last : totalWidth [] + cell.width - 1 = wordLimit - 2 := by
    rw [totalWidth]
    omega
  have isRange := columnsAt?_of_over cellsEq begins ends
  rw [last] at isRange
  exact ⟨cell, merge, merged, columns, cellIndex?_of_over cellsEq begins ends,
    cellAt?_of_over cellsEq begins ends, isRange⟩

end Row

namespace Plan

open Row

variable {row : Row} {column : Nat} {after : Bool} {options : Options}

theorem roomInRow_of_growing? {merge : Merge} (found : row.growing? column after = some merge) :
    roomInRow column after options row = [⟨merge.number, Text.ofNumber (merge.columns + 1)⟩] := by
  obtain ⟨index, cell, range, isIndex, isCell, isRange, written, splits, merged⟩ :=
    growing?_eq_some_iff.mp found
  cases after <;> simp_all [roomInRow, Nat.not_lt.mpr written]

/-- Making room in a row with a number of columns that must fit a word. -/
def roomInWords? (column : Nat) (after : Bool) (options : Options) (row : Row) :
    Option (List Edit) :=
  match row.growing? column after with
  | some merge => do return [⟨merge.number, Text.ofNumber (← word? (merge.columns + 1))⟩]
  | none => some (roomInRow column after options row)

theorem roomInWords?_eq_some_iff :
    roomInWords? column after options row = some (roomInRow column after options row) ↔
      ∀ merge ∈ row.growing? column after, merge.columns + 1 < wordLimit := by
  cases found : row.growing? column after with
  | none => simp [roomInWords?, found]
  | some merge =>
      simp only [roomInWords?, found, roomInRow_of_growing? found]
      unfold word?
      split <;> simp_all

end Plan

theorem Selection.bounds_single (row column : Nat) :
    (single row column).bounds = ⟨column, column, row, row⟩ := by
  simp [bounds, single]

/-- A selection in one row alone is widened to the right within the cell over its column. -/
theorem Selection.insertionColumn_single_lt {table : Table} {row : Row} {index column : Nat}
    (found : table.rows[index]? = some row) {before behind : List Cell} {cell : Cell}
    (cellsEq : row.cells = before ++ cell :: behind) (begins : Row.totalWidth before ≤ column)
    (ends : column < Row.totalWidth before + cell.width) :
    (Selection.single index column).insertionColumn table true
      < Row.totalWidth before + cell.width := by
  have whole : ∀ other ∈ (Selection.single index column).rows table,
      other.cellEnd (Row.totalWidth before + cell.width - 1)
        ≤ Row.totalWidth before + cell.width - 1 := by
    intro other member
    obtain ⟨place, begins', ends', found'⟩ := mem_rows_iff.mp member
    rw [bounds_single] at begins' ends'
    obtain rfl := Nat.le_antisymm ends' begins'
    obtain rfl := Option.some.inj (found.symm.trans found')
    rw [Row.cellEnd, Row.columnsAt?_of_over cellsEq (by omega) (by omega)]
    exact Nat.le_refl _
  have within := widenRight_le whole (show column ≤ _ by omega)
  simp only [insertionColumn, if_true, bounds_widened, bounds_single]
  omega

/-- A selection that reaches into a widest row is widened to all columns. -/
theorem Selection.insertionColumn_of_isWidest {selection : Selection} {table : Table} {row : Row}
    (member : row ∈ selection.rows table) (widest : row.IsWidest)
    (inside : selection.bounds.left + 1 < wordLimit) :
    selection.insertionColumn table false = 0 ∧
      wordLimit - 2 ≤ selection.insertionColumn table true := by
  have ordered := selection.left_le_right
  have leftLe := widenLeft_le (selection.rows table) selection.bounds.left
  have leRight := le_widenRight (selection.rows table) selection.bounds.right
  obtain ⟨atLeft, atRight⟩ := (Row.keepsWhole_iff (by omega)).mp (keepsWhole_widen ordered row member)
  have left : selection.insertionColumn table false
      = widenLeft (selection.rows table) selection.bounds.left := by
    simp [insertionColumn, bounds_widened]
  have right : selection.insertionColumn table true
      = widenRight (selection.rows table) selection.bounds.right := by
    simp [insertionColumn, bounds_widened]
  rw [left, right]
  obtain ⟨-, -, -, -, -, -, isRange⟩ :=
    widest.over (show widenLeft (selection.rows table) selection.bounds.left + 1 < wordLimit by omega)
  have start := (Row.le_cellStart_iff (Nat.le_refl _)).mp atLeft _ isRange
  have reached := Row.cellEnd_le_of_le atRight (Nat.le_trans leftLe (Nat.le_trans ordered leRight))
  exact ⟨Nat.le_zero.mp start, (Row.cellEnd_le_iff (by omega)).mp reached _ isRange⟩

namespace Table

/-- Whether the numbers of columns fit words wherever they are used: the widths of the written
rows, the ends of the cells in front of any column, the numbers of the merges that grow with a
new column, and the lengths of the separators that a merge is split with. -/
structure CountsInWords (table : Table) (options : Options) : Prop where
  width : ∀ row ∈ table.rows,
    Row.widthInWords? 0 row.written = some (Row.totalWidth row.written)
  index : ∀ row ∈ table.rows, ∀ column,
    Row.indexInWords? 0 0 row.cells column = some (row.cellIndex? column)
  columns : ∀ row ∈ table.rows, ∀ column,
    Row.columnsInWords? 0 row.cells column = some (row.columnsAt? column)
  growth : ∀ selection : Selection, selection.validate table = .ok () →
    ∀ after, ∀ row ∈ table.rows,
      Plan.roomInWords? (selection.insertionColumn table after) after options row
        = some (Plan.roomInRow (selection.insertionColumn table after) after options row)
  separators : ∀ selection : Selection, selection.validate table = .ok () →
    ∀ edit ∈ Plan.unmergeCells table selection options, edit.replacement.size < wordLimit

/-- Whether the merged cells of a table are narrow enough: every row fits a word, no widest row
stands beside another one, and the separators for a merged cell have a length. -/
structure FitsWords (table : Table) (options : Options) : Prop where
  width : ∀ row ∈ table.rows, Row.totalWidth row.written < wordLimit
  widest : table.columnCount ≠ 0 → (∃ row ∈ table.rows, row.IsWidest) →
    ∀ row ∈ table.rows, row.IsWidest
  separators : ∀ row ∈ table.rows, ∀ column < table.columnCount,
    ∀ cell ∈ row.cellAt? column, ∀ merge ∈ cell.merge,
      (merge.columns - 1) * options.bareSeparator.size < wordLimit

/-- Whether the rows of a table are filled up to its columns, of which there are no more than a
word can count. -/
structure IsFilled (table : Table) : Prop where
  width : ∀ row ∈ table.rows,
    Row.totalWidth row.cells = max (Row.totalWidth row.written) table.columnCount
  columnCount : table.columnCount < wordLimit

variable {table : Table} {options : Options}

theorem FitsWords.totalWidth_lt (fits : table.FitsWords options) (filled : table.IsFilled)
    {row : Row} (isRow : row ∈ table.rows) : Row.totalWidth row.cells < wordLimit := by
  have written := fits.width row isRow
  have columns := filled.columnCount
  rw [filled.width row isRow]
  omega

/-- No merge grows beyond the words if every row fits one and widest rows are not mixed. -/
theorem FitsWords.growth (fits : table.FitsWords options) (filled : table.IsFilled)
    {selection : Selection} (valid : selection.validate table = .ok ()) {after : Bool} {row : Row}
    (isRow : row ∈ table.rows) {merge : Merge}
    (found : row.growing? (selection.insertionColumn table after) after = some merge) :
    merge.columns + 1 < wordLimit := by
  by_contra beyond
  have widest := Row.isWidest_of_growing? (fits.totalWidth_lt filled isRow) found
    (Nat.not_lt.mp beyond)
  obtain ⟨bottom, right⟩ := Selection.bounds_of_validate valid
  have columns := filled.columnCount
  have ordered := selection.left_le_right
  have left : selection.bounds.left + 1 < wordLimit := by omega
  -- All rows are widest, also one that is selected, so the column lies at an end of them.
  obtain ⟨top, isTop⟩ : ∃ top, table.rows[selection.bounds.top]? = some top :=
    ⟨_, List.getElem?_eq_getElem (Nat.lt_of_le_of_lt selection.top_le_bottom bottom)⟩
  have topWidest := fits.widest (by omega) ⟨row, isRow, widest⟩ top (List.mem_of_getElem? isTop)
  have selected : top ∈ selection.rows table := Selection.mem_rows_iff.mpr
    ⟨_, Nat.le_refl _, selection.top_le_bottom, isTop⟩
  obtain ⟨atFront, atEnd⟩ := Selection.insertionColumn_of_isWidest selected topWidest left
  obtain ⟨index, cell, range, isIndex, -, isRange, -, splits, -⟩ :=
    Row.growing?_eq_some_iff.mp found
  have within := Row.lt_totalWidth_of_cellIndex? isIndex
  have narrow := fits.totalWidth_lt filled isRow
  obtain ⟨-, -, -, -, -, -, isRange'⟩ :=
    widest.over (show selection.insertionColumn table after + 1 < wordLimit by omega)
  obtain rfl := Option.some.inj (isRange.symm.trans isRange')
  cases after with
  | false => exact splits atFront.symm
  | true =>
      rw [if_pos rfl] at splits
      dsimp only at splits
      omega

theorem FitsWords.counts (fits : table.FitsWords options) (filled : table.IsFilled) :
    table.CountsInWords options := by
  constructor
  · intro row isRow
    have written := fits.width row isRow
    rw [Row.widthInWords?_eq (by decide), Nat.zero_add, Text.word?_of_lt written]
  · intro row isRow column
    have within := fits.totalWidth_lt filled isRow
    rw [Row.indexInWords?_of_lt (by omega) (Nat.zero_le column)]
    simp [Row.cellIndex?]
  · intro row isRow column
    have within := fits.totalWidth_lt filled isRow
    exact Row.columnsInWords?_of_lt (by omega) column
  · intro selection valid after row isRow
    exact Plan.roomInWords?_eq_some_iff.mpr fun merge found => fits.growth filled valid isRow found
  · intro selection valid edit member
    obtain ⟨bottom, right⟩ := Selection.bounds_of_validate valid
    have anchor : selection.anchor.column ≤ selection.bounds.right := by
      simp only [Selection.bounds]
      omega
    rcases Plan.unmergeCells_cases table selection options with
      nothing | ⟨row, cell, merge, isRow, isCell, merged, planned⟩
    · rw [nothing] at member
      exact absurd member List.not_mem_nil
    · rw [planned] at member
      rcases List.mem_cons.mp member with rfl | member
      · exact (by decide : 0 < wordLimit)
      obtain rfl := List.mem_singleton.mp member
      rw [Text.size_repeated]
      exact fits.separators row (List.mem_of_getElem? isRow) _ (by omega) cell isCell merge merged

/-- Some valid selection lets a widest row grow beside another one. -/
theorem CountsInWords.widest (counts : table.CountsInWords options) (filled : table.IsFilled)
    (declared : table.columnCount ≠ 0) {row other : Row} (isRow : row ∈ table.rows)
    (widest : row.IsWidest) (isOther : other ∈ table.rows)
    (fits : Row.totalWidth other.cells < wordLimit) : other.IsWidest := by
  by_contra narrow
  obtain ⟨index, found⟩ := List.mem_iff_getElem?.mp isOther
  have inRows : index < table.rows.length := (List.getElem?_eq_some_iff.mp found).1
  have valid : (Selection.single index 0).validate table = .ok () := by
    refine Selection.validate_of_bounds ?_ ?_ <;> rw [Selection.bounds_single]
    · exact inRows
    · exact Nat.pos_of_ne_zero declared
  have columns := filled.width other isOther
  obtain ⟨before, cell, behind, cellsEq, begins, ends⟩ :=
    Row.exists_over_of_lt (show 0 < Row.totalWidth other.cells by omega)
  have within := Selection.insertionColumn_single_lt found cellsEq begins ends
  have narrowCell : cell.width + 1 < wordLimit := by
    by_contra wide
    exact narrow (Row.isWidest_of_width fits cellsEq (Nat.not_lt.mp wide))
  obtain ⟨wide, merge, merged, most, isIndex, isCell, isRange⟩ := widest.over
    (show (Selection.single index 0).insertionColumn table true + 1 < wordLimit by omega)
  have grows : row.growing? ((Selection.single index 0).insertionColumn table true) true
      = some merge := by
    refine Row.growing?_eq_some_iff.mpr
      ⟨0, wide, _, isIndex, isCell, isRange, Nat.zero_le _, ?_, merged⟩
    rw [if_pos rfl]
    dsimp only
    omega
  have bounded := Plan.roomInWords?_eq_some_iff.mp (counts.growth _ valid true row isRow) merge grows
  omega

theorem CountsInWords.fits (counts : table.CountsInWords options) (filled : table.IsFilled) :
    table.FitsWords options := by
  have width : ∀ row ∈ table.rows, Row.totalWidth row.written < wordLimit := by
    intro row isRow
    have summed := counts.width row isRow
    rw [Row.widthInWords?_eq (by decide), Nat.zero_add] at summed
    exact (Text.word?_eq_some_iff.mp summed).1
  refine ⟨width, ?_, ?_⟩
  · rintro declared ⟨row, isRow, widest⟩ other isOther
    have written := width other isOther
    have columns := filled.columnCount
    exact counts.widest filled declared isRow widest isOther
      (by rw [filled.width other isOther]; omega)
  · intro row isRow column within cell isCell merge merged
    obtain ⟨index, found⟩ := List.mem_iff_getElem?.mp isRow
    have valid : (Selection.single index column).validate table = .ok () := by
      refine Selection.validate_of_bounds ?_ ?_ <;> rw [Selection.bounds_single]
      · exact (List.getElem?_eq_some_iff.mp found).1
      · exact within
    have isMerge : (table.cellAt? index column).bind (·.merge) = some merge := by
      simp [cellAt?, found, Option.mem_def.mp isCell, Option.mem_def.mp merged]
    have repeated := counts.separators _ valid ⟨merge.postamble,
      Text.repeated (merge.columns - 1) options.bareSeparator⟩ (by
        simp [Plan.unmergeCells, Selection.single, isMerge])
    rwa [Text.size_repeated] at repeated

end Table

end LatexTabular
