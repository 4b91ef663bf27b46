import LatexTabular.Proofs.Sheet.Insertion
import LatexTabular.Proofs.Table.Widening

/-!
# Inserting into a sheet

The batch of a command that inserts a column or a row turns the text of a sheet into
that of another one (`Sheet.apply_insertColumn`, `Sheet.apply_insertRow`), of which
the outline has the column or the row at the right place.
-/

namespace LatexTabular

open Text Body

namespace Row

theorem totalWidth_replicate_blank (count offset : Nat) :
    totalWidth (List.replicate count (Cell.blank offset)) = count := by
  induction count with
  | zero => rfl
  | succ count ih =>
      rw [List.replicate_succ, totalWidth, ih, Nat.add_comm]
      rfl

theorem totalWidth_padded (columnCount : Nat) (row : Row) :
    totalWidth (padded columnCount row).cells = max columnCount (totalWidth row.cells) := by
  simp only [padded, totalWidth_append, totalWidth_replicate_blank]
  omega

end Row

namespace Selection

theorem greatestWidth_le {rows : List Row} {bound : Nat}
    (fits : ∀ row ∈ rows, Row.totalWidth row.cells ≤ bound) : greatestWidth rows ≤ bound := by
  have folded : ∀ least, least ≤ bound →
      rows.foldl (fun greatest row => max greatest (Row.totalWidth row.cells)) least ≤ bound := by
    induction rows with
    | nil => exact fun least le => le
    | cons row rest ih =>
        intro least le
        exact ih (fun other member => fits other (List.mem_cons_of_mem _ member)) _
          (Nat.max_le.mpr ⟨le, fits row List.mem_cons_self⟩)
  exact folded 0 (Nat.zero_le _)

/-- A widened right side stays within the rows. -/
theorem widenRight_lt {rows : List Row} {bound column : Nat}
    (fits : ∀ row ∈ rows, Row.totalWidth row.cells ≤ bound) (within : column < bound) :
    widenRight rows column < bound := by
  fun_induction widenRight rows column with
  | case1 column wider ih =>
      exact ih (Nat.lt_of_lt_of_le (greatestEnd_lt_of_lt wider) (greatestWidth_le fits))
  | case2 column => exact within

/-- What a valid selection promises of its sides. -/
theorem bounds_of_validate {selection : Selection} {table : Table}
    (valid : selection.validate table = .ok ()) :
    selection.bounds.bottom < table.rowCount ∧ selection.bounds.right < table.columnCount := by
  simp only [validate] at valid
  split at valid
  · simp at valid
  split at valid
  · simp at valid
  · constructor <;> omega

theorem validate_of_bounds {selection : Selection} {table : Table}
    (rows : selection.bounds.bottom < table.rowCount)
    (columns : selection.bounds.right < table.columnCount) :
    selection.validate table = .ok () := by
  simp only [validate, if_neg (Nat.not_le.mpr rows), if_neg (Nat.not_le.mpr columns)]

/-- The column beside which a column is inserted. -/
def insertionColumn (selection : Selection) (table : Table) (after : Bool) : Nat :=
  if after then (selection.widened table).bounds.right else (selection.widened table).bounds.left

end Selection

namespace Sheet

variable {heading : Heading} {sheet : Sheet}

theorem exists_laid_of_mem_layRows {start : Nat} {closing : List Span} {rows : List WrittenRow}
    {laid : Row} (member : laid ∈ layRows start closing rows) :
    ∃ row ∈ rows, ∃ offset rules, laid = { row.laid offset with rules } := by
  induction rows generalizing start with
  | nil => simp [layRows] at member
  | cons row rest ih =>
      cases rest with
      | nil =>
          obtain rfl := List.mem_singleton.mp member
          exact ⟨row, List.mem_cons_self, start, _, rfl⟩
      | cons next others =>
          rw [layRows_cons_cons] at member
          rcases List.mem_cons.mp member with rfl | member
          · exact ⟨row, List.mem_cons_self, start, _, rfl⟩
          · obtain ⟨other, isRow, found⟩ := ih member
            exact ⟨other, List.mem_cons_of_mem _ isRow, found⟩

theorem length_layRows (start : Nat) (closing : List Span) (rows : List WrittenRow) :
    (layRows start closing rows).length = rows.length := by
  induction rows generalizing start with
  | nil => rfl
  | cons row rest ih =>
      cases rest with
      | nil => rfl
      | cons next others =>
          rw [layRows_cons_cons, List.length_cons, ih]
          rfl

/-- A sheet with a column inserted beside another one. -/
def insertColumn (heading : Heading) (after : Bool) (column : Nat) (sheet : Sheet) : Sheet :=
  { sheet with
    specifier := (heading.insertColumn (insertionIndex after column)).text
    rows := sheet.rows.map (WrittenRow.insertColumn after column) }

theorem totalWidth_of_mem_rows (regular : sheet.Regular heading) {row : Row}
    (member : row ∈ sheet.table.rows) :
    Row.totalWidth row.cells = heading.letters.length := by
  obtain ⟨laid, isLaid, rfl⟩ := List.mem_map.mp member
  obtain ⟨written, isRow, offset, rules, rfl⟩ := exists_laid_of_mem_layRows isLaid
  have width : Row.totalWidth (layCells (written.cellsStart offset) written.cells)
      = written.width := totalWidth_layCells _ _
  have fits := regular.fits written isRow
  rw [Row.totalWidth_padded, regular.columnCount]
  simp only [WrittenRow.laid, width]
  omega

theorem rowCount_table (sheet : Sheet) : sheet.table.rowCount = sheet.rows.length := by
  simp [Table.rowCount, table, laidRows, length_layRows]

theorem columnCount_table (regular : sheet.Regular heading) :
    sheet.table.columnCount = heading.letters.length := by
  rw [Table.columnCount, regular.shows.columns]
  exact heading.length_columns

theorem insertionColumn_lt (regular : sheet.Regular heading) {selection : Selection}
    (valid : selection.validate sheet.table = .ok ()) (after : Bool) :
    selection.insertionColumn sheet.table after < heading.letters.length := by
  have columnCount := columnCount_table regular
  have inTable := (Selection.bounds_of_validate valid).2
  have ordered := selection.left_le_right
  have rowsFit : ∀ row ∈ selection.rows sheet.table,
      Row.totalWidth row.cells ≤ heading.letters.length := by
    intro row member
    have inRows := List.mem_of_mem_drop (List.mem_of_mem_take member)
    exact Nat.le_of_eq (totalWidth_of_mem_rows regular inRows)
  have right := @Selection.widenRight_lt _ _ selection.bounds.right rowsFit (by omega)
  have left := Selection.widenLeft_le (selection.rows sheet.table) selection.bounds.left
  have leftFits : Selection.widenLeft (selection.rows sheet.table) selection.bounds.left
      < heading.letters.length := by omega
  unfold Selection.insertionColumn
  simp only [Selection.widened, Selection.bounds]
  simp only [Selection.bounds] at right leftFits
  split <;> omega

/-- Edits of the rows of the table are edits of the rows before they are filled up. -/
theorem flatMap_rows (sheet : Sheet) (edits : Row → List Edit) :
    sheet.table.rows.flatMap edits
      = (layRows sheet.bodyStart (layRules (sheet.bodyStart + (rowsText sheet.rows).size)
          sheet.closingGaps) sheet.rows).flatMap
        fun row => edits (Row.padded sheet.columnCount row) := by
  rw [table, laidRows, List.flatMap_map]

/-- Inserting a column yields the sheet with the column. -/
theorem apply_insertColumn (regular : sheet.Regular heading) {selection : Selection}
    (valid : selection.validate sheet.table = .ok ()) (after : Bool) :
    Batch.apply sheet.text (Plan.insertColumn sheet.table selection after {}).batch
      = .ok (sheet.insertColumn heading after (selection.insertionColumn sheet.table after)).text
      := by
  have within := insertionColumn_lt regular valid after
  have columnEq : (if after then (selection.widened sheet.table).bounds.right
      else (selection.widened sheet.table).bounds.left)
        = selection.insertionColumn sheet.table after := rfl
  generalize selection.insertionColumn sheet.table after = column at within columnEq
  have indexEq : min (if after then (selection.widened sheet.table).bounds.right + 1
      else (selection.widened sheet.table).bounds.left) sheet.table.columnCount
        = insertionIndex after column := by
    rw [columnCount_table regular]
    subst columnEq
    cases after with
    | true => exact Nat.min_eq_left within
    | false => exact Nat.min_eq_left (Nat.le_of_lt within)
  have columns : Specifier.render (sheet.table.columns.insertIdx (insertionIndex after column)
      (.plain .left)) = (heading.insertColumn (insertionIndex after column)).text := by
    rw [regular.shows.columns]
    exact heading.render_insertIdx _ regular.letters.nonempty
  have rows := @rewrites_rowsText sheet.bodyStart
    (layRules (sheet.bodyStart + (rowsText sheet.rows).size) sheet.closingGaps) sheet.rows
    (fun row => Plan.roomInRow column after {} (Row.padded sheet.columnCount row))
    (WrittenRow.insertColumn after column)
    (fun row member start rules => WrittenRow.rewrites_roomInRow
      (regular.wellFormed.rows row member) sheet.columnCount rules)
  have whole := @rewrites_text_of_specifier sheet _ _
    (heading.insertColumn (insertionIndex after column)).text regular.specifier_ne_nil rows
  refine (whole.perm ?_).apply_eq
  simp only [Plan.insertColumn, columnEq, indexEq, columns, flatMap_rows]
  exact List.perm_append_singleton _ _

/-- A regular sheet stays regular when it gets a column. -/
theorem Regular.insertColumn (regular : sheet.Regular heading) {after : Bool} {column : Nat}
    (limit : heading.letters.length + 1 < wordLimit) (within : column < heading.letters.length) :
    (sheet.insertColumn heading after column).Regular
      (heading.insertColumn (insertionIndex after column)) := by
  have index : insertionIndex after column ≤ heading.letters.length := by
    unfold insertionIndex
    split <;> omega
  have letters := regular.letters.insertColumn (insertionIndex after column)
  refine ⟨?_, letters, rfl, ?_⟩
  · have wellFormed := regular.wellFormed
    refine ⟨wellFormed.lead, Heading.isBarred_text letters, ?_, ?_, wellFormed.closingGaps,
      wellFormed.closingGap, wellFormed.trail⟩
    · simpa [Sheet.insertColumn] using wellFormed.nonempty
    · intro row member
      obtain ⟨old, isRow, rfl⟩ := List.mem_map.mp member
      have fits := regular.fits old isRow
      exact (wellFormed.rows old isRow).insertColumn (by omega)
  · intro row member
    obtain ⟨old, isRow, rfl⟩ := List.mem_map.mp member
    have fits := regular.fits old isRow
    rw [Heading.length_insertColumn index, WrittenRow.width_insertColumn]
    split <;> omega

theorem outline_insertColumn (regular : sheet.Regular heading) {after : Bool} {column : Nat}
    (within : column < heading.letters.length) :
    (sheet.insertColumn heading after column).outline
        (heading.insertColumn (insertionIndex after column))
      = (sheet.outline heading).insertColumn (insertionIndex after column) := by
  have index : insertionIndex after column ≤ heading.letters.length := by
    unfold insertionIndex
    split <;> omega
  have rows : ((sheet.rows.map (WrittenRow.insertColumn after column)).map
        (WrittenRow.outline (heading.letters.length + 1)))
      = (sheet.rows.map (WrittenRow.outline heading.letters.length)).map fun row =>
        { row with cells := Outline.insertColumnIn (insertionIndex after column) row.cells } := by
    rw [List.map_map, List.map_map]
    refine List.map_congr_left fun row member => ?_
    exact WrittenRow.outline_insertColumn (regular.fits row member) within
  simp only [outline, Outline.insertColumn, Heading.length_insertColumn index, insertColumn, rows]

end Sheet

end LatexTabular
