import LatexTabular.Proofs.Command.Removal
import LatexTabular.Proofs.Grid.Insertion
import LatexTabular.Proofs.Sheet.Columns

/-!
# Removing from a grid

Removing whole rows, whole columns or the whole table from a grid refines removing them
from the outline (`Grid.removal_refines`).
-/

namespace LatexTabular

namespace Grid

variable {grid : Grid} {offset : Nat} {selection : Selection}

theorem rows_sheet_ne_nil (wellFormed : grid.WellFormed) : grid.sheet.table.rows ≠ [] := by
  have counted := Sheet.rowCount_table grid.sheet
  have positive := List.length_pos_of_ne_nil wellFormed.regular.wellFormed.nonempty
  rw [← counted, Table.rowCount] at positive
  exact List.ne_nil_of_length_pos positive

theorem coversAllColumns_sheet (wellFormed : grid.WellFormed) (selection : Selection) :
    selection.coversAllColumns grid.sheet.table = (selection.bounds.left == 0
      && decide (grid.outline.heading.letters.length ≤ selection.bounds.right + 1)) := by
  rw [Selection.coversAllColumns, Sheet.columnCount_table wellFormed.regular]

theorem coversAllRows_sheet (selection : Selection) :
    selection.coversAllRows grid.sheet.table = (selection.bounds.top == 0
      && decide (grid.outline.rows.length ≤ selection.bounds.bottom + 1)) := by
  rw [Selection.coversAllRows, Sheet.rowCount_table]
  simp [sheet, outline]

theorem emptyTable_refines (wellFormed : grid.WellFormed) :
    ∃ result, Batch.apply grid.text (Plan.emptyTable grid.sheet.table {}).batch = .ok result ∧
      grid.outline.cleared.ReadFrom result := by
  have regular := wellFormed.regular
  have edited := Sheet.apply_emptyTable regular
  rw [← outline_sheet wellFormed, ← Sheet.outline_cleared regular]
  exact exists_readFrom wellFormed edited regular.cleared (Sheet.detached_cleared _ _)

theorem removeRows_refines (wellFormed : grid.WellFormed)
    (valid : selection.validate grid.sheet.table = .ok ())
    (someRows : selection.coversAllRows grid.sheet.table = false) :
    ∃ result, Batch.apply grid.text
        ((selection.rows grid.sheet.table).map fun row => .deletion row.span) = .ok result ∧
      (grid.outline.removeRows selection.bounds.top selection.bounds.bottom).ReadFrom result := by
  have regular := wellFormed.regular
  have edited := (Sheet.rewrites_removeRows valid).apply_eq
  have remaining : (grid.sheet.removeRows selection.bounds.top selection.bounds.bottom).rows
      ≠ [] := by
    have bottom := (Selection.bounds_of_validate valid).1
    intro (empty : grid.sheet.rows.take _ ++ grid.sheet.rows.drop _ = [])
    rw [List.append_eq_nil_iff, List.take_eq_nil_iff, List.drop_eq_nil_iff,
      ← Sheet.rowCount_table] at empty
    simp only [Selection.coversAllRows, Bool.and_eq_false_iff, beq_eq_false_iff_ne,
      decide_eq_false_iff_not] at someRows
    have nonempty := regular.wellFormed.nonempty
    rcases empty.1 with atTop | noRows
    · omega
    · exact nonempty noRows
  have newRegular := regular.removeRows remaining
  have detached := Sheet.detached_removeRows (@detached_sheet grid) selection.bounds.top
    selection.bounds.bottom
  rw [← outline_sheet wellFormed, ← Sheet.outline_removeRows selection.bounds.top
    selection.bounds.bottom grid.outline.heading grid.sheet]
  exact exists_readFrom wellFormed edited newRegular detached

theorem removeColumns_refines (wellFormed : grid.WellFormed)
    (valid : selection.validate grid.sheet.table = .ok ())
    (someColumns : selection.coversAllColumns grid.sheet.table = false) :
    ∃ result, Batch.apply grid.text
        (Sheet.columnEdits selection.bounds.left selection.bounds.right grid.sheet.table)
          = .ok result ∧
      (grid.outline.removeColumns selection.bounds.left selection.bounds.right).ReadFrom
        result := by
  have regular := wellFormed.regular
  have ordered := selection.left_le_right
  have within := (Selection.bounds_of_validate valid).2
  rw [Sheet.columnCount_table regular] at within
  have stays : selection.bounds.right + 1 - selection.bounds.left
      < grid.outline.heading.letters.length := by
    rw [coversAllColumns_sheet wellFormed] at someColumns
    simp only [Bool.and_eq_false_iff, beq_eq_false_iff_ne, decide_eq_false_iff_not] at someColumns
    omega
  have remaining : (grid.outline.heading.removeColumns selection.bounds.left
      selection.bounds.right).letters ≠ [] := by
    have count := Heading.length_removeColumns ordered within
    exact List.ne_nil_of_length_pos (by omega)
  have limit := wellFormed.columnCount_lt
  rw [← length_letters_outline wellFormed] at limit
  obtain ⟨update, loses, detached⟩ := regular.exists_update (by omega) ordered within stays
    detached_sheet fun _ row member => detached_of_mem_sheet member
  have edited := (Sheet.rewrites_removeColumns regular remaining loses).apply_eq
  have newRegular := regular.removeColumns ordered within remaining loses
  have detachedRows : ∀ row ∈ (grid.sheet.removeColumns grid.outline.heading
      selection.bounds.left selection.bounds.right update).rows, row.Detached := by
    intro row member
    obtain ⟨old, isRow, rfl⟩ := List.mem_map.mp member
    exact detached old isRow
  rw [← outline_sheet wellFormed, ← Sheet.outline_removeColumns ordered within loses]
  exact exists_readFrom wellFormed edited newRegular detachedRows

/-- Removing the selection from a grid yields a document that is read as the outline of
the grid with what lies wholly in the selection removed: the table but for a blank cell,
the selected rows, or the selected columns.  Of a merged cell the columns that stay are
kept.  The document stays as it is if the selection covers no row and no column. -/
theorem removal_refines (wellFormed : grid.WellFormed) (touches : grid.Touches offset) :
    ∃ table, Table.readAt grid.text offset = .ok table ∧ table.Shows grid.outline ∧
      ∀ selection : Selection, selection.validate table = .ok () →
        ∃ applied,
          Command.removeRowsOrColumns.apply grid.text offset (some selection) {} = .ok applied ∧
          (grid.outline.remove selection.bounds).ReadFrom applied.document ∧
          (selection.coversAllRows table = false → selection.coversAllColumns table = false →
            applied.document = grid.text) := by
  obtain ⟨read, shows⟩ := readAt_text wellFormed touches
  refine ⟨grid.sheet.table, read, shows, fun selection valid => ?_⟩
  have removed : ∃ result, Batch.apply grid.text
        (Plan.removeRowsOrColumns grid.sheet.table selection {}).batch = .ok result ∧
      (grid.outline.remove selection.bounds).ReadFrom result ∧
      (selection.coversAllRows grid.sheet.table = false →
        selection.coversAllColumns grid.sheet.table = false → result = grid.text) := by
    have planned := Plan.removal grid.sheet.table selection {}
    generalize Plan.removeRowsOrColumns grid.sheet.table selection {} = plan at planned ⊢
    simp only [Outline.remove, ← coversAllColumns_sheet wellFormed, ← coversAllRows_sheet]
    cases planned with
    | noRows none => exact absurd none (rows_sheet_ne_nil wellFormed)
    | everything some allRows allColumns =>
        obtain ⟨result, edited, readAgain⟩ := emptyTable_refines wellFormed
        rw [allRows, allColumns]
        exact ⟨result, edited, readAgain, fun noRows => absurd noRows Bool.noConfusion⟩
    | rows some notAllRows allColumns =>
        obtain ⟨result, edited, readAgain⟩ := removeRows_refines wellFormed valid notAllRows
        rw [Plan.batch_unlessEmpty, notAllRows, allColumns]
        exact ⟨result, edited, readAgain, fun _ noColumns => absurd noColumns Bool.noConfusion⟩
    | columns some allRows notAllColumns =>
        obtain ⟨result, edited, readAgain⟩ := removeColumns_refines wellFormed valid notAllColumns
        rw [Plan.batch_unlessEmpty, allRows, notAllColumns]
        exact ⟨result, edited, readAgain, fun noRows => absurd noRows Bool.noConfusion⟩
    | nothingWhole some notAllRows notAllColumns =>
        have readAgain := wellFormed.regular.readFrom
          (Sheet.guarded_of_detached wellFormed.regular.wellFormed detached_sheet)
        rw [outline_sheet wellFormed, text_sheet wellFormed] at readAgain
        rw [notAllRows, notAllColumns]
        exact ⟨grid.text, Rewrites.apply_eq (.refl 0 _), readAgain, fun _ _ => rfl⟩
  obtain ⟨result, edited, readAgain, unchanged⟩ := removed
  obtain ⟨applied, ofCommand, rfl⟩ :=
    @Command.apply_eq_ok .removeRowsOrColumns _ _ _ _ _ read valid edited
  exact ⟨applied, ofCommand, readAgain, unchanged⟩

/-- Without its first two columns, the merged cell in the first row keeps one column, the
second row becomes blank and the merged cell in the third row goes. -/
theorem removal_refines_sample :
    sample.WellFormed ∧ sample.Touches 9 ∧
      ∃ applied, Command.removeRowsOrColumns.apply sample.text 9 (some ⟨⟨0, 0⟩, ⟨2, 1⟩⟩) {}
          = .ok applied ∧
        (sample.outline.removeColumns 0 1).ReadFrom applied.document := by
  have wellFormed : sample.WellFormed := by decide +kernel
  have touches : sample.Touches 9 := by decide +kernel
  refine ⟨wellFormed, touches, ?_⟩
  obtain ⟨table, read, -, refines⟩ := removal_refines wellFormed touches
  have facts : (Table.readAt sample.text 9).map (fun table =>
      Selection.validate ⟨⟨0, 0⟩, ⟨2, 1⟩⟩ table) = .ok (.ok ()) := by cbv
  rw [read] at facts
  obtain ⟨applied, ofCommand, readAgain, -⟩ := refines _ (Except.ok.inj facts)
  have columns : sample.outline.remove (Selection.bounds ⟨⟨0, 0⟩, ⟨2, 1⟩⟩)
      = sample.outline.removeColumns 0 1 := by decide +kernel
  rw [columns] at readAgain
  exact ⟨applied, ofCommand, readAgain⟩

end Grid

end LatexTabular
