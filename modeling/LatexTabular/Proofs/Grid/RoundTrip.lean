import LatexTabular.Proofs.Grid.Clinging
import LatexTabular.Proofs.Grid.Removal

/-!
# A column that is inserted and removed again

Inserting a column into a grid and removing it again gives back the rows of the grid,
unless the column is the first one and a row clings to what stands in front of it when
the white space there has gone with the column (`Grid.roundTrip_iff`).
-/

namespace LatexTabular

open Text

/-- Whether the only table of a document has the rows of an outline and as many rules
behind them. -/
def Outline.RowsReadFrom (outline : Outline) (document : Text) : Prop :=
  ∃ table, Table.readAll document = .ok [table] ∧
    table.rows.map table.outlineRow = outline.rows ∧ table.closingRules = outline.closingRules

namespace Sheet

variable {heading : Heading} {sheet : Sheet}

/-- A regular sheet says no less than its rows. -/
theorem Regular.rowsReadFrom_iff (regular : sheet.Regular heading) :
    (sheet.outline heading).RowsReadFrom sheet.text ↔ sheet.Guarded := by
  constructor
  · rintro ⟨table, read, rows, -⟩
    rw [readAll_text regular.wellFormed] at read
    obtain rfl := (List.cons.inj (Except.ok.inj read)).1
    exact guarded_of_rows regular.wellFormed rows
  · intro guarded
    obtain ⟨table, read, shows⟩ := regular.readFrom guarded
    exact ⟨table, read, shows.rows, shows.closingRules⟩

end Sheet

namespace Grid

variable {grid : Grid} {offset : Nat}

/-- Whether the tight rows of a grid are read as its rows. -/
theorem guarded_tight_iff (wellFormed : grid.WellFormed) :
    Guarded grid.sheet.closingText (grid.sheet.rows.map WrittenRow.tight)
      ↔ ¬ Clinging true grid.rows := by
  have regular := wellFormed.regular
  have clear := Sheet.isClear_closingText regular.wellFormed
  have written : ∀ row ∈ grid.rows, row.written.WellFormed :=
    fun row member => regular.wellFormed.rows _ (List.mem_map_of_mem member)
  have rows : grid.sheet.rows.map WrittenRow.tight = grid.rows.map Row.tightened := by
    rw [sheet, List.map_map]
    rfl
  have noMarks : ∀ test : Char → Bool, (∀ other, test other = true → IsGroupMark other) →
      grid.sheet.closingText.countP test = 0 := by
    intro test marks
    rw [Sheet.closingText, List.countP_append,
      countP_rulesText marks regular.wellFormed.closingGaps,
      regular.wellFormed.closingGap.countP_eq_zero marks]
  have tightened := @guarded_tightened_iff _ _ true clear written noMarks
  rw [rows, ← tightened]
  simp

variable {after : Bool} {column : Nat}

/-- What is read when a column has been inserted and removed again. -/
theorem removeColumn_roundTrip (wellFormed : grid.WellFormed) (within : column < grid.columnCount) :
    ∃ result,
      Batch.apply (grid.sheet.insertColumn grid.outline.heading after column).text
          (Sheet.columnEdits (insertionIndex after column) (insertionIndex after column)
            (grid.sheet.insertColumn grid.outline.heading after column).table) = .ok result ∧
      (grid.outline.RowsReadFrom result ↔
        ¬ (insertionIndex after column = 0 ∧ Clinging true grid.rows)) ∧
      (¬ (insertionIndex after column = 0 ∧ Clinging true grid.rows) →
        Outline.ReadFrom { grid.outline with
          heading := if insertionIndex after column = 0 then
            { grid.outline.heading with bars := 0 } else grid.outline.heading } result) := by
  have regular := wellFormed.regular
  have limit := wellFormed.columnCount_lt
  rw [← length_letters_outline wellFormed] at limit within
  obtain ⟨remnant, edited, remnantRegular, outlined, closingText, detached, tight⟩ :=
    @Sheet.Regular.exists_roundTrip _ _ after _ regular limit within detached_sheet
  rw [outline_sheet wellFormed] at outlined
  rw [Outline.removeColumns_insertColumn_heading] at outlined remnantRegular
  have guarded : remnant.Guarded ↔
      ¬ (insertionIndex after column = 0 ∧ Clinging true grid.rows) := by
    by_cases atFront : insertionIndex after column = 0
    · rw [Sheet.Guarded, closingText, tight atFront, guarded_tight_iff wellFormed]
      simp [atFront]
    · exact iff_of_true (Sheet.guarded_of_detached remnantRegular.wellFormed (detached atFront))
        fun isFront => atFront isFront.1
  have rows := remnantRegular.rowsReadFrom_iff
  rw [outlined, guarded] at rows
  refine ⟨remnant.text, edited, rows, fun free => ?_⟩
  have read := remnantRegular.readFrom (guarded.mpr free)
  rw [outlined] at read
  exact read

/-- The edits that remove a column over all rows from a grid with a new column. -/
theorem batch_removeInserted (wellFormed : grid.WellFormed) (within : column < grid.columnCount)
    {again : Selection} (selected : again.bounds = ⟨insertionIndex after column,
      insertionIndex after column, 0, grid.rows.length - 1⟩) :
    again.validate (grid.sheet.insertColumn grid.outline.heading after column).table = .ok () ∧
      (Plan.removeRowsOrColumns (grid.sheet.insertColumn grid.outline.heading after column).table
          again {}).batch
        = Sheet.columnEdits (insertionIndex after column) (insertionIndex after column)
          (grid.sheet.insertColumn grid.outline.heading after column).table := by
  have positive := List.length_pos_of_ne_nil wellFormed.nonempty
  obtain ⟨newRegular, -⟩ := @regular_insertColumn grid wellFormed after column within
  rw [← length_letters_outline wellFormed] at within
  have index : insertionIndex after column ≤ grid.outline.heading.letters.length := by
    unfold insertionIndex
    split <;> omega
  have columns := Sheet.columnCount_table newRegular
  rw [Heading.length_insertColumn index] at columns
  have rows := Sheet.rowCount_table (grid.sheet.insertColumn grid.outline.heading after column)
  have sameRows : (grid.sheet.insertColumn grid.outline.heading after column).rows.length
      = grid.rows.length := by
    simp [Sheet.insertColumn, sheet]
  rw [sameRows] at rows
  have allRows : again.coversAllRows
      (grid.sheet.insertColumn grid.outline.heading after column).table = true := by
    rw [Selection.coversAllRows, selected, rows, Bool.and_eq_true, beq_iff_eq, decide_eq_true_eq]
    dsimp only
    omega
  have someColumns : again.coversAllColumns
      (grid.sheet.insertColumn grid.outline.heading after column).table = false := by
    rw [Selection.coversAllColumns, selected, columns, Bool.and_eq_false_iff, beq_eq_false_iff_ne,
      decide_eq_false_iff_not]
    dsimp only
    omega
  refine ⟨Selection.validate_of_bounds ?_ ?_, ?_⟩
  · rw [selected, rows]
    dsimp only
    omega
  · rw [selected, columns]
    dsimp only
    omega
  · have planned := Plan.removal
      (grid.sheet.insertColumn grid.outline.heading after column).table again {}
    generalize Plan.removeRowsOrColumns _ again {} = plan at planned ⊢
    cases planned with
    | noRows none =>
        rw [Table.rowCount, none, List.length_nil] at rows
        omega
    | columns => rw [Plan.batch_unlessEmpty, selected, Sheet.columnEdits]
    | everything _ _ allColumns | rows _ _ allColumns =>
        exact absurd (allColumns.symm.trans someColumns) Bool.noConfusion
    | nothingWhole _ notAllRows =>
        exact absurd (allRows.symm.trans notAllRows) Bool.noConfusion

/-- Inserting a column into a grid and removing it over all rows again yields a document
with the rows of the grid, if and only if the column is not the first one or no row clings
to what stands in front of it.  A first column takes the bars in front with it. -/
theorem roundTrip_iff (wellFormed : grid.WellFormed) (touches : grid.Touches offset) :
    ∃ table, Table.readAt grid.text offset = .ok table ∧ table.Shows grid.outline ∧
      ∀ selection : Selection, selection.validate table = .ok () → ∀ after index,
        index = insertionIndex after (selection.insertionColumn table after) →
        ∃ inserted,
          (Command.insertColumn after).apply grid.text offset (some selection) {} = .ok inserted ∧
          ∀ (again : Selection) (offset' : Nat),
            again.bounds = ⟨index, index, 0, grid.rows.length - 1⟩ → grid.lead.size ≤ offset' →
            offset' + grid.trail.size ≤ inserted.document.size →
            ∃ removed,
              Command.removeRowsOrColumns.apply inserted.document offset' (some again) {}
                = .ok removed ∧
              (grid.outline.RowsReadFrom removed.document ↔
                ¬ (index = 0 ∧ Clinging true grid.rows)) ∧
              (¬ (index = 0 ∧ Clinging true grid.rows) →
                Outline.ReadFrom { grid.outline with
                  heading := if index = 0 then { grid.outline.heading with bars := 0 }
                    else grid.outline.heading } removed.document) := by
  obtain ⟨read, shows⟩ := readAt_text wellFormed touches
  refine ⟨grid.sheet.table, read, shows, ?_⟩
  rintro selection valid after index rfl
  obtain ⟨edited, within⟩ := apply_insertColumn wellFormed valid after
  generalize selection.insertionColumn grid.sheet.table after = column at edited within ⊢
  obtain ⟨newRegular, guarded⟩ := @regular_insertColumn grid wellFormed after column within
  obtain ⟨inserted, ofInsertion, documentEq⟩ :=
    @Command.apply_eq_ok (.insertColumn after) _ _ _ _ _ read valid edited
  refine ⟨inserted, ofInsertion, fun again offset' selected begins ends => ?_⟩
  rw [documentEq] at ends ⊢
  have readNew := Sheet.readAt_text newRegular.wellFormed begins ends
  rw [Sheet.readTable_eq newRegular.wellFormed guarded] at readNew
  obtain ⟨validNew, batch⟩ := batch_removeInserted wellFormed within selected
  obtain ⟨result, removedAgain, rows, identity⟩ :=
    @removeColumn_roundTrip _ after _ wellFormed within
  rw [← batch] at removedAgain
  obtain ⟨removed, ofRemoval, rfl⟩ :=
    @Command.apply_eq_ok .removeRowsOrColumns _ _ _ _ _ readNew validNew removedAgain
  exact ⟨removed, ofRemoval, rows, identity⟩

/-- The first row of the sample clings to its rule: without the column in front of it,
the text of its first cell becomes a part of the command that draws the rule. -/
theorem roundTrip_iff_sample :
    sample.WellFormed ∧ sample.Touches 9 ∧ Clinging true sample.rows ∧
      ∃ inserted removed,
        (Command.insertColumn false).apply sample.text 9 (some (.single 0 0)) {}
          = .ok inserted ∧
        Command.removeRowsOrColumns.apply inserted.document 9 (some ⟨⟨0, 0⟩, ⟨2, 0⟩⟩) {}
          = .ok removed ∧
        ¬ sample.outline.RowsReadFrom removed.document := by
  have wellFormed : sample.WellFormed := by decide +kernel
  have touches : sample.Touches 9 := by decide +kernel
  have clinging : Clinging true sample.rows := by decide +kernel
  refine ⟨wellFormed, touches, clinging, ?_⟩
  obtain ⟨table, read, -, roundTrip⟩ := roundTrip_iff wellFormed touches
  have facts : (Table.readAt sample.text 9).map (fun table =>
      ((Selection.single 0 0).validate table,
        insertionIndex false ((Selection.single 0 0).insertionColumn table false)))
        = .ok (.ok (), 0) := by cbv
  rw [read] at facts
  obtain ⟨valid, index⟩ := Prod.mk.inj (Except.ok.inj facts)
  obtain ⟨inserted, ofInsertion, removes⟩ := roundTrip _ valid false 0 index.symm
  have size : ((Command.insertColumn false).apply sample.text 9 (some (.single 0 0)) {}).map
      (fun applied => decide (9 + sample.trail.size ≤ applied.document.size)) = .ok true := by cbv
  rw [ofInsertion] at size
  obtain ⟨removed, ofRemoval, rows, -⟩ := removes ⟨⟨0, 0⟩, ⟨2, 0⟩⟩ 9 rfl touches.1
    (of_decide_eq_true (Except.ok.inj size))
  exact ⟨inserted, removed, ofInsertion, ofRemoval, fun readAgain =>
    rows.mp readAgain ⟨rfl, clinging⟩⟩

end Grid

end LatexTabular
