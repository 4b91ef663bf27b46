import LatexTabular.Command.Apply
import LatexTabular.Proofs.Grid.Layout
import LatexTabular.Proofs.Sheet.WholeRows
import Mathlib

/-!
# Inserting into a grid

Inserting a row or a column into a grid refines inserting it into the outline: the
document that the command yields is read again as the outline with the row or the
column (`Grid.insertion_refines`).
-/

namespace LatexTabular

/-- A command whose edits apply yields their document, plan and selection. -/
theorem Command.apply_eq_of_batch {command : Command} {document result : Text} {offset : Nat}
    {selection : Selection} {options : Options} {table : Table}
    (read : Table.readAt document offset = .ok table) (valid : selection.validate table = .ok ())
    (edited : Batch.apply document (command.plan table selection options).batch = .ok result) :
    command.apply document offset (some selection) options
      = .ok ⟨result, (command.plan table selection options).batch,
        (command.plan table selection options).selection⟩ := by
  simp only [Command.apply, read, bind, Except.bind, Option.getD_some, valid, edited]
  split <;> rfl

theorem Command.apply_eq_ok {command : Command} {document result : Text} {offset : Nat}
    {selection : Selection} {table : Table} (read : Table.readAt document offset = .ok table)
    (valid : selection.validate table = .ok ())
    (edited : Batch.apply document (command.plan table selection {}).batch = .ok result) :
    ∃ applied, command.apply document offset (some selection) {} = .ok applied ∧
      applied.document = result :=
  ⟨_, Command.apply_eq_of_batch read valid edited, rfl⟩

namespace Grid

variable {grid : Grid} {offset : Nat}

/-- A grid is read as the table of its sheet, which says what the grid says. -/
theorem readAt_text (wellFormed : grid.WellFormed) (touches : grid.Touches offset) :
    Table.readAt grid.text offset = .ok grid.sheet.table ∧ grid.sheet.table.Shows grid.outline := by
  have regular := wellFormed.regular
  have guarded := Sheet.guarded_of_detached regular.wellFormed detached_sheet
  have shows := regular.shows
  rw [outline_sheet wellFormed] at shows
  refine ⟨?_, shows⟩
  obtain ⟨begins, ends⟩ := touches
  rw [← text_sheet wellFormed] at ends ⊢
  rw [← Sheet.readTable_eq regular.wellFormed guarded]
  exact Sheet.readAt_text regular.wellFormed begins ends

/-- Edits that lead from a grid to a regular sheet without clinging rows lead to its outline. -/
theorem exists_readFrom (wellFormed : grid.WellFormed) {batch : Batch} {sheet : Sheet}
    {heading : Heading} (edited : Batch.apply grid.sheet.text batch = .ok sheet.text)
    (regular : sheet.Regular heading) (detached : ∀ row ∈ sheet.rows, row.Detached) :
    ∃ result, Batch.apply grid.text batch = .ok result ∧
      (sheet.outline heading).ReadFrom result := by
  rw [text_sheet wellFormed] at edited
  exact ⟨_, edited, regular.readFrom (Sheet.guarded_of_detached regular.wellFormed detached)⟩

theorem insertRow_refines (wellFormed : grid.WellFormed) {selection : Selection}
    (valid : selection.validate grid.sheet.table = .ok ()) (below : Bool) :
    ∃ result, Batch.apply grid.text
        (Plan.insertRow grid.sheet.table selection below {}).batch = .ok result ∧
      (grid.outline.insertRow (selection.insertionRow below)).ReadFrom result := by
  have regular := wellFormed.regular
  have edited := Sheet.apply_insertRow regular valid below
  have newRegular := regular.insertRow (selection.insertionRow below)
  have detached := Sheet.detached_insertRow (@detached_sheet grid)
    grid.outline.heading.letters.length (selection.insertionRow below)
  rw [← outline_sheet wellFormed,
    ← Sheet.outline_insertRow regular (selection.insertionRow below)]
  exact exists_readFrom wellFormed edited newRegular detached

/-- A new column stands beside one of the columns of the grid. -/
theorem apply_insertColumn (wellFormed : grid.WellFormed) {selection : Selection}
    (valid : selection.validate grid.sheet.table = .ok ()) (after : Bool) :
    Batch.apply grid.text (Plan.insertColumn grid.sheet.table selection after {}).batch
        = .ok (grid.sheet.insertColumn grid.outline.heading after
          (selection.insertionColumn grid.sheet.table after)).text ∧
      selection.insertionColumn grid.sheet.table after < grid.columnCount := by
  have edited := Sheet.apply_insertColumn wellFormed.regular valid after
  have within := Sheet.insertionColumn_lt wellFormed.regular valid after
  rw [text_sheet wellFormed] at edited
  rw [length_letters_outline wellFormed] at within
  exact ⟨edited, within⟩

/-- A grid with a new column is regular as it was, and no row in it clings to what stands in front
of it. -/
theorem regular_insertColumn (wellFormed : grid.WellFormed) {after : Bool} {column : Nat}
    (within : column < grid.columnCount) :
    (grid.sheet.insertColumn grid.outline.heading after column).Regular
        (grid.outline.heading.insertColumn (insertionIndex after column)) ∧
      (grid.sheet.insertColumn grid.outline.heading after column).Guarded := by
  have limit := wellFormed.columnCount_lt
  rw [← length_letters_outline wellFormed] at limit within
  have regular : (grid.sheet.insertColumn _ after column).Regular _ :=
    wellFormed.regular.insertColumn limit within
  refine ⟨regular, Sheet.guarded_of_detached regular.wellFormed fun row member => ?_⟩
  obtain ⟨old, isRow, rfl⟩ := List.mem_map.mp member
  exact (detached_sheet old isRow).insertColumn

theorem insertColumn_refines (wellFormed : grid.WellFormed) {selection : Selection}
    (valid : selection.validate grid.sheet.table = .ok ()) (after : Bool) :
    ∃ result, Batch.apply grid.text
        (Plan.insertColumn grid.sheet.table selection after {}).batch = .ok result ∧
      (grid.outline.insertColumn
        (insertionIndex after (selection.insertionColumn grid.sheet.table after))).ReadFrom
          result ∧
      insertionIndex after (selection.insertionColumn grid.sheet.table after)
        ≤ grid.columnCount := by
  obtain ⟨edited, within⟩ := apply_insertColumn wellFormed valid after
  generalize selection.insertionColumn grid.sheet.table after = column at edited within ⊢
  obtain ⟨newRegular, guarded⟩ := @regular_insertColumn grid wellFormed after column within
  have read := newRegular.readFrom guarded
  have inHeading := within
  rw [← length_letters_outline wellFormed] at inHeading
  rw [@Sheet.outline_insertColumn _ _ wellFormed.regular after column inHeading,
    outline_sheet wellFormed] at read
  refine ⟨_, edited, read, ?_⟩
  unfold insertionIndex
  split <;> omega

/-- Inserting a row or a column into a grid yields a document that is read as the
outline of the grid with the row or the column.  A row is inserted below the last or
above the first selected one.  A column is inserted behind or in front of the
selection after it has been widened to whole merged cells. -/
theorem insertion_refines (wellFormed : grid.WellFormed) (touches : grid.Touches offset) :
    ∃ table, Table.readAt grid.text offset = .ok table ∧ table.Shows grid.outline ∧
      ∀ selection : Selection, selection.validate table = .ok () →
        (∀ below, ∃ applied,
          (Command.insertRow below).apply grid.text offset (some selection) {} = .ok applied ∧
          (grid.outline.insertRow (selection.insertionRow below)).ReadFrom applied.document) ∧
        ∀ after, ∃ applied,
          (Command.insertColumn after).apply grid.text offset (some selection) {} = .ok applied ∧
          (grid.outline.insertColumn
            (insertionIndex after (selection.insertionColumn table after))).ReadFrom
              applied.document ∧
          insertionIndex after (selection.insertionColumn table after) ≤ grid.columnCount := by
  obtain ⟨read, shows⟩ := readAt_text wellFormed touches
  refine ⟨grid.sheet.table, read, shows, fun selection valid => ⟨?_, ?_⟩⟩
  · intro below
    obtain ⟨result, edited, readAgain⟩ := insertRow_refines wellFormed valid below
    obtain ⟨applied, ofCommand, rfl⟩ :=
      @Command.apply_eq_ok (.insertRow below) _ _ _ _ _ read valid edited
    exact ⟨applied, ofCommand, readAgain⟩
  · intro after
    obtain ⟨result, edited, readAgain, within⟩ := insertColumn_refines wellFormed valid after
    obtain ⟨applied, ofCommand, rfl⟩ :=
      @Command.apply_eq_ok (.insertColumn after) _ _ _ _ _ read valid edited
    exact ⟨applied, ofCommand, readAgain, within⟩

/-- A column behind the second one makes the merged cell in the first row wider, comes
behind the blank cell that fills the second row, and behind the merged cell that ends
there in the third. -/
theorem insertion_refines_sample :
    sample.WellFormed ∧ sample.Touches 9 ∧
      ∃ applied, (Command.insertColumn true).apply sample.text 9 (some (.single 1 1)) {}
          = .ok applied ∧
        (sample.outline.insertColumn 2).ReadFrom applied.document := by
  have wellFormed : sample.WellFormed := by decide +kernel
  have touches : sample.Touches 9 := by decide +kernel
  refine ⟨wellFormed, touches, ?_⟩
  obtain ⟨table, read, -, refines⟩ := insertion_refines wellFormed touches
  have facts : (Table.readAt sample.text 9).map (fun table =>
      ((Selection.single 1 1).validate table, (Selection.single 1 1).insertionColumn table true))
        = .ok (.ok (), 1) := by cbv
  rw [read] at facts
  obtain ⟨valid, column⟩ := Prod.mk.inj (Except.ok.inj facts)
  obtain ⟨applied, ofCommand, readAgain, -⟩ := (refines _ valid).2 true
  rw [column] at readAgain
  exact ⟨applied, ofCommand, readAgain⟩

end Grid

end LatexTabular
