import LatexTabular.Proofs.Command.Confinement
import LatexTabular.Proofs.Grid.Insertion
import LatexTabular.Proofs.Sheet.Merging

/-!
# Merging cells of a grid

Merging cells of a grid of which the first one is written refines merging the cells of its
outline (`Grid.merging_refines`).  Cells that only fill their row are merged at the end of the
last written cell, without a separator in between.
-/

namespace LatexTabular.Grid

open Text

variable {grid : Grid} {offset : Nat}

/-- The written row of a grid, between the others. -/
theorem exists_rows {row : Row} {index : Nat} (isRow : grid.rows[index]? = some row) :
    ∃ rowsBefore rowsBehind, grid.sheet.rows = rowsBefore ++ row.written :: rowsBehind ∧
      index = rowsBefore.length := by
  obtain ⟨within, rowEq⟩ := List.getElem?_eq_some_iff.mp isRow
  refine ⟨(grid.rows.take index).map Row.written, (grid.rows.drop (index + 1)).map Row.written, ?_,
    by simp; omega⟩
  rw [← List.map_cons, ← List.map_append, ← rowEq, List.getElem_cons_drop, List.take_append_drop]
  rfl

section Selected

variable (wellFormed : grid.WellFormed) {selection : Selection}
  (valid : selection.validate grid.sheet.table = .ok ()) {row : Row}
  (oneRow : selection.bounds.top = selection.bounds.bottom)
  (isRow : grid.rows[selection.bounds.top]? = some row)
  (several : 2 ≤ ((row.outline grid.columnCount).cellsOver selection.bounds.left
    selection.bounds.right).length)

include wellFormed valid oneRow isRow several

theorem mergeCells_refines (options : Options) (written : selection.bounds.left < row.width) :
    ∃ result, Batch.apply grid.text (Plan.mergeCells grid.sheet.table selection options)
        = .ok result ∧
      (grid.outline.mergeCells options selection.bounds.top selection.bounds.left
        selection.bounds.right).ReadFrom result := by
  have regular := wellFormed.regular
  have within := (Selection.bounds_of_validate valid).2
  rw [Sheet.columnCount_table regular, length_letters_outline wellFormed] at within
  have fits := (wellFormed.rows row (List.mem_of_getElem? isRow)).fits
  rw [← Row.width_written] at written fits
  obtain ⟨rowsBefore, rowsBehind, rowsEq, indexEq⟩ := exists_rows isRow
  obtain ⟨before, covered, filler, behind, covers⟩ :=
    WrittenRow.exists_covers selection.left_le_right written within fits
  rw [← Row.outline_written, covers.length_cellsOver selection.left_le_right] at several
  rw [← length_letters_outline wellFormed] at covers
  have limit : grid.outline.heading.letters.length < wordLimit := by
    have longer := wellFormed.columnCount_lt
    rw [length_letters_outline wellFormed]
    omega
  have edited := Sheet.apply_mergeCells options rowsEq covers regular oneRow indexEq several
  have newRegular := Sheet.Regular.merged options rowsEq covers selection.left_le_right regular limit
  have detached := Sheet.detached_merged options rowsEq covers (@detached_sheet grid)
  rw [← outline_sheet wellFormed, ← Sheet.outline_merged options rowsEq covers indexEq]
  exact exists_readFrom wellFormed edited newRegular detached

theorem mergeCells_of_fill (options : Options) (fill : row.width ≤ selection.bounds.left) :
    ∃ cell, grid.sheet.table.cellAt? selection.bounds.top (row.width - 1) = some cell ∧
      Plan.mergeCells grid.sheet.table selection options = [.insertion cell.extent.stop
        (Entry.merging grid.outline.heading options selection.bounds.left
          (selection.bounds.right + 1 - selection.bounds.left) []).text] := by
  have regular := wellFormed.regular
  have within := (Selection.bounds_of_validate valid).2
  rw [Sheet.columnCount_table regular] at within
  have fits := (wellFormed.rows row (List.mem_of_getElem? isRow)).fits
  rw [← Row.width_written] at fill fits ⊢
  rw [← Row.outline_written] at several
  have apart := Outline.lt_of_two_le_cellsOver selection.left_le_right (by
    rwa [WrittenRow.totalWidth_outline fits, ← length_letters_outline wellFormed]) several
  obtain ⟨rowsBefore, rowsBehind, rowsEq, indexEq⟩ := exists_rows isRow
  exact Sheet.mergeCells_of_fill regular rowsEq oneRow indexEq fill apart within

end Selected

/-- Merging the columns of a grid that lie under more than one cell of a row succeeds.  If the
first of the cells is written, the document is read as the outline of the grid with the cells
merged and all other cells as they were.  Otherwise all of them only fill the row, and the merged
cell is written directly behind the text of the last written one. -/
theorem merging_refines (wellFormed : grid.WellFormed) (touches : grid.Touches offset)
    (options : Options) :
    ∃ table, Table.readAt grid.text offset = .ok table ∧ table.Shows grid.outline ∧
      ∀ selection : Selection, selection.validate table = .ok () →
        selection.bounds.top = selection.bounds.bottom →
        ∀ row, grid.rows[selection.bounds.top]? = some row →
          2 ≤ ((row.outline grid.columnCount).cellsOver selection.bounds.left
            selection.bounds.right).length →
          ∃ applied,
            Command.mergeCells.apply grid.text offset (some selection) options = .ok applied ∧
            (selection.bounds.left < row.width →
              (grid.outline.mergeCells options selection.bounds.top selection.bounds.left
                selection.bounds.right).ReadFrom applied.document) ∧
            (row.width ≤ selection.bounds.left →
              ∃ cell, table.cellAt? selection.bounds.top (row.width - 1) = some cell ∧
                applied.batch = [.insertion cell.extent.stop
                  (Entry.merging grid.outline.heading options selection.bounds.left
                    (selection.bounds.right + 1 - selection.bounds.left) []).text]) := by
  obtain ⟨read, shows⟩ := readAt_text wellFormed touches
  refine ⟨grid.sheet.table, read, shows, fun selection valid oneRow row isRow several => ?_⟩
  obtain ⟨tabular, isTabular, found⟩ := Table.exists_tabular_of_readAt read
  obtain ⟨documentEq, -, bodyStart, bodyStop, laidOut⟩ :=
    Table.exists_laidOut_of_ofTabular (List.mem_filter.mp isTabular).1 found
  obtain ⟨front, -, back, changed, -, -, edited⟩ := Command.apply_batch_eq laidOut
    (Plan.within_mergeCells laidOut selection options)
  rw [documentEq] at edited
  have applied := @Command.apply_eq_of_batch .mergeCells _ _ _ _ _ _ read valid edited
  refine ⟨_, applied, fun written => ?_, fun fill => ?_⟩
  · obtain ⟨result, own, readAgain⟩ :=
      mergeCells_refines wellFormed valid oneRow isRow several options written
    obtain rfl := Except.ok.inj (edited.symm.trans own)
    exact readAgain
  · exact mergeCells_of_fill wellFormed valid oneRow isRow several options fill

/-- Three columns of a short row, of which only the first one is written, become one cell with
the bars in front of them. -/
theorem merging_refines_sample :
    sample.WellFormed ∧ sample.Touches 9 ∧
      (sample.outline.mergeCells {} 1 0 2).rows[1]?
        = some ⟨0, [⟨"c".toList, some ⟨3, "|c".toList⟩⟩]⟩ ∧
      ∃ applied, Command.mergeCells.apply sample.text 9 (some ⟨⟨1, 2⟩, ⟨1, 0⟩⟩) {} = .ok applied ∧
        (sample.outline.mergeCells {} 1 0 2).ReadFrom applied.document := by
  have wellFormed : sample.WellFormed := by decide +kernel
  have touches : sample.Touches 9 := by decide +kernel
  refine ⟨wellFormed, touches, by decide +kernel, ?_⟩
  obtain ⟨table, read, -, refines⟩ := merging_refines wellFormed touches {}
  have facts : (Table.readAt sample.text 9).map
      (fun table => (⟨⟨1, 2⟩, ⟨1, 0⟩⟩ : Selection).validate table) = .ok (.ok ()) := by cbv
  rw [read] at facts
  obtain ⟨applied, ofCommand, readAgain, -⟩ := refines _ (Except.ok.inj facts) rfl
    ⟨0, [.plain "c".toList]⟩ rfl (by decide +kernel)
  exact ⟨applied, ofCommand, readAgain (by decide)⟩

end LatexTabular.Grid
