import LatexTabular.Proofs.Sheet.Remnants
import LatexTabular.Proofs.Sheet.WholeRows
import Mathlib.Tactic.Choose

/-!
# Columns removed from a sheet

The batch that removes columns turns a regular sheet into a regular sheet again, of
which the outline has lost these columns (`Sheet.outline_removeColumns`).
-/

namespace LatexTabular

open Text

variable {left right : Nat}

namespace Plan

/-- Which cells are removed depends on their widths only. -/
theorem exists_mem_placedFrom {index first : Nat} {cells cells' : List Cell}
    (same : cells.map Cell.width = cells'.map Cell.width) {place : Nat × ColumnRange × Cell}
    (member : place ∈ Row.placedFrom index first cells') :
    ∃ other ∈ Row.placedFrom index first cells,
      (Removes left right other ↔ Removes left right place) := by
  induction cells generalizing index first cells' with
  | nil =>
      obtain rfl : cells' = [] := by simpa using same.symm
      exact absurd member List.not_mem_nil
  | cons cell rest ih =>
      cases cells' with
      | nil => exact absurd member List.not_mem_nil
      | cons cell' rest' =>
          rw [List.map_cons, List.map_cons, List.cons.injEq] at same
          obtain ⟨width, others⟩ := same
          rcases List.mem_cons.mp member with rfl | inRest
          · refine ⟨_, List.mem_cons_self, ?_⟩
            rw [removes_iff, removes_iff, width]
          · rw [← width] at inRest
            obtain ⟨other, isPlace, alike⟩ := ih others inRest
            exact ⟨other, List.mem_cons_of_mem _ isPlace, alike⟩

/-- Cells of the same widths are parted alike. -/
theorem Parted.congr {first : Nat} {before removed behind before' removed' behind' : List Cell}
    (parted : Parted left right first before removed behind)
    (sameBefore : before.map Cell.width = before'.map Cell.width)
    (sameRemoved : removed.map Cell.width = removed'.map Cell.width)
    (sameBehind : behind.map Cell.width = behind'.map Cell.width) :
    Parted left right first before' removed' behind' := by
  have beforeWidth : Row.totalWidth before = Row.totalWidth before' := by
    rw [Row.totalWidth_eq_sum, Row.totalWidth_eq_sum, sameBefore]
  have removedWidth : Row.totalWidth removed = Row.totalWidth removed' := by
    rw [Row.totalWidth_eq_sum, Row.totalWidth_eq_sum, sameRemoved]
  constructor
  · intro index place member
    obtain ⟨other, isPlace, alike⟩ := exists_mem_placedFrom sameBefore member
    exact fun removes => parted.keepsBefore index other isPlace (alike.mpr removes)
  · intro index place member
    rw [← beforeWidth] at member
    obtain ⟨other, isPlace, alike⟩ := exists_mem_placedFrom sameRemoved member
    exact alike.mp (parted.removes index other isPlace)
  · intro index place member
    rw [← beforeWidth, ← removedWidth] at member
    obtain ⟨other, isPlace, alike⟩ := exists_mem_placedFrom sameBehind member
    exact fun removes => parted.keepsBehind index other isPlace (alike.mpr removes)

end Plan

namespace WrittenRow

theorem map_width_layCells (start : Nat) (cells : List WrittenCell) :
    (layCells start cells).map Cell.width = cells.map (·.entry.width) := by
  induction cells generalizing start with
  | nil => rfl
  | cons cell rest ih => simp [layCells, ih, Entry.width_laid]

theorem map_width_filled (columnCount start : Nat) (rules : List Span) (row : WrittenRow) :
    (row.filled columnCount start rules).cells.map Cell.width
      = row.cells.map (·.entry.width) ++ List.replicate (columnCount - row.width) 1 := by
  rw [cells_filled, List.map_append, map_width_layCells, List.map_replicate]
  rfl

/-- The run of a row that goes with some columns, wherever the row stands. -/
def RunAt (left right columnCount first count : Nat) (row : WrittenRow) : Prop :=
  ∀ start rules, ∃ before removed behind,
    (row.filled columnCount start rules).cells = before ++ (removed ++ behind) ∧
      before.length = first ∧ removed.length = count ∧
      Plan.Parted left right 0 before removed behind

/-- Wherever a row stands, the same run of its cells goes with some columns. -/
theorem exists_run (left right columnCount : Nat) (row : WrittenRow) :
    ∃ first count, row.RunAt left right columnCount first count := by
  obtain ⟨before, removed, behind, cellsEq, parted⟩ :=
    Plan.exists_parted left right 0 (row.filled columnCount 0 []).cells
  refine ⟨before.length, removed.length, ?_⟩
  intro start rules
  have widths : (row.filled columnCount start rules).cells.map Cell.width
      = before.map Cell.width ++ (removed.map Cell.width ++ behind.map Cell.width) := by
    rw [map_width_filled, ← map_width_filled columnCount 0 [], cellsEq, List.map_append,
      List.map_append]
  refine ⟨(row.filled columnCount start rules).cells.take before.length,
    ((row.filled columnCount start rules).cells.drop before.length).take removed.length,
    ((row.filled columnCount start rules).cells.drop before.length).drop removed.length,
    ?_, ?_, ?_, parted.congr ?_ ?_ ?_⟩
  · rw [List.take_append_drop, List.take_append_drop]
  · have lengths := congrArg List.length widths
    simp only [List.length_map, List.length_append] at lengths
    rw [List.length_take]
    omega
  · have lengths := congrArg List.length widths
    simp only [List.length_map, List.length_append] at lengths
    rw [List.length_take, List.length_drop]
    omega
  · rw [List.map_take, widths, List.take_left' (List.length_map _)]
  · rw [List.map_take, List.map_drop, widths, List.drop_left' (List.length_map _),
      List.take_left' (List.length_map _)]
  · rw [List.map_drop, List.map_drop, widths, List.drop_left' (List.length_map _),
      List.drop_left' (List.length_map _)]

/-- A row loses some columns and becomes another one. -/
structure Loses (left right columnCount : Nat) (row remnant : WrittenRow) : Prop where
  rewrites : ∀ start rules, Rewrites start row.text
    (Plan.removeCells left right (row.filled columnCount start rules)) remnant.text
  wellFormed : remnant.WellFormed
  fits : remnant.width ≤ columnCount - (right + 1 - left)
  outline : remnant.outline (columnCount - (right + 1 - left))
    = { row.outline columnCount with
        cells := Outline.removeColumnsIn left right 0 (row.outline columnCount).cells }

variable {columnCount first count : Nat} {row : WrittenRow}

theorem totalWidth_outline (fits : row.width ≤ columnCount) :
    Outline.totalWidth (row.outline columnCount).cells = columnCount := by
  have width : Outline.totalWidth (row.cells.map (·.entry.outline)) = row.width :=
    totalWidth_map_outline _
  rw [WrittenRow.outline, Outline.totalWidth_append, width,
    Outline.totalWidth_replicate_blank]
  omega

/-- Without the run that goes with some columns a row has lost these columns. -/
theorem RunAt.loses (runAt : row.RunAt left right columnCount first count)
    (wellFormed : row.WellFormed) (fits : row.width ≤ columnCount)
    (limit : columnCount < wordLimit) (ordered : left ≤ right) (within : right < columnCount)
    (stays : right + 1 - left < columnCount) :
    row.Loses left right columnCount (row.withoutRun left right first count) := by
  have outline : (row.withoutRun left right first count).outline
      (columnCount - (right + 1 - left))
        = { row.outline columnCount with
            cells := Outline.removeColumnsIn left right 0 (row.outline columnCount).cells } := by
    obtain ⟨before, removed, behind, cellsEq, rfl, rfl, parted⟩ := runAt 0 []
    exact outline_withoutRun fits ordered within stays cellsEq parted
  refine ⟨?_, wellFormed.withoutRun (Nat.lt_of_le_of_lt fits limit) first count, ?_, outline⟩
  · intro start rules
    obtain ⟨before, removed, behind, cellsEq, rfl, rfl, parted⟩ := runAt start rules
    exact rewrites_removeCells wellFormed cellsEq parted
  · have narrower := Outline.totalWidth_removeColumnsIn left right 0 (row.outline columnCount).cells
    have width : Outline.totalWidth
        ((row.withoutRun left right first count).cells.map (·.entry.outline))
          = (row.withoutRun left right first count).width := totalWidth_map_outline _
    have cells := congrArg (fun row => Outline.totalWidth row.cells) outline
    simp only [WrittenRow.outline, Outline.totalWidth_append, width,
      Outline.totalWidth_replicate_blank] at cells
    rw [totalWidth_outline fits] at narrower
    simp only [WrittenRow.outline] at narrower
    have all : Outline.coveredCount left right 0 columnCount = right + 1 - left := by
      unfold Outline.coveredCount
      omega
    omega

/-- The first cell stays if its column does. -/
theorem RunAt.first_ne_zero (runAt : row.RunAt left right columnCount first count)
    (stays : left ≠ 0) : first ≠ 0 ∨ count = 0 := by
  obtain ⟨before, removed, behind, cellsEq, rfl, rfl, parted⟩ := runAt 0 []
  cases before with
  | cons cell rest => exact Or.inl (Nat.succ_ne_zero _)
  | nil =>
      cases removed with
      | nil => exact Or.inr rfl
      | cons cell rest =>
          have goes := parted.removes 0 _ List.mem_cons_self
          rw [Row.totalWidth, Nat.add_zero, Plan.removes_iff] at goes
          omega

/-- The remnant of a detached row is detached, if a row that loses its first cell has
detached cells only. -/
theorem RunAt.detached (runAt : row.RunAt left right columnCount first count)
    (detached : row.Detached) (free : left = 0 → ∀ cell ∈ row.cells, cell.Detached) :
    (row.withoutRun left right first count).Detached := by
  refine WrittenRow.Detached.withoutRun (fun _ => detached) ?_
  intro atFront cell isFirst
  cases count with
  | zero => exact detached cell isFirst
  | succ count =>
      have goesFirst : left = 0 := by
        by_contra stays
        rcases runAt.first_ne_zero stays with notFront | none
        · exact notFront atFront
        · exact Nat.succ_ne_zero _ none
      exact free goesFirst cell (List.mem_of_mem_drop (List.mem_of_mem_head? isFirst))

end WrittenRow

namespace Sheet

variable {heading : Heading} {sheet : Sheet}

/-- A sheet without some columns, of which each row has become another one. -/
def removeColumns (heading : Heading) (left right : Nat) (update : WrittenRow → WrittenRow)
    (sheet : Sheet) : Sheet :=
  { sheet with
    specifier := (heading.removeColumns left right).text
    rows := sheet.rows.map update }

/-- The edits that remove columns from a table. -/
def columnEdits (left right : Nat) (table : Table) : Batch :=
  table.rows.flatMap (Plan.removeCells left right)
    ++ [⟨table.specifierSpan,
      Specifier.render (table.columns.take left ++ table.columns.drop (right + 1))⟩]

variable {update : WrittenRow → WrittenRow}

/-- The edits that remove columns yield the sheet without them. -/
theorem rewrites_removeColumns (regular : sheet.Regular heading)
    (remaining : (heading.removeColumns left right).letters ≠ [])
    (loses : ∀ row ∈ sheet.rows, row.Loses left right heading.letters.length (update row)) :
    Rewrites 0 sheet.text (columnEdits left right sheet.table)
      (sheet.removeColumns heading left right update).text := by
  have columns : Specifier.render (sheet.table.columns.take left
      ++ sheet.table.columns.drop (right + 1)) = (heading.removeColumns left right).text := by
    rw [regular.shows.columns]
    exact (congrArg Specifier.render (heading.take_append_drop_columns left right)).trans
      (Heading.render_columns _ remaining)
  have rows := @rewrites_rowsText sheet.bodyStart
    (layRules (sheet.bodyStart + (rowsText sheet.rows).size) sheet.closingGaps) sheet.rows
    (fun row => Plan.removeCells left right (Row.padded sheet.columnCount row)) update
    (fun row member start rules => by
      have rewrites := (loses row member).rewrites start rules
      rwa [← regular.columnCount] at rewrites)
  have whole := @rewrites_text_of_specifier sheet _ _ (heading.removeColumns left right).text
    regular.specifier_ne_nil rows
  refine whole.perm ?_
  rw [columnEdits, columns, flatMap_rows]
  exact List.perm_append_singleton _ _

theorem Regular.removeColumns (regular : sheet.Regular heading)
    (ordered : left ≤ right) (within : right < heading.letters.length)
    (remaining : (heading.removeColumns left right).letters ≠ [])
    (loses : ∀ row ∈ sheet.rows, row.Loses left right heading.letters.length (update row)) :
    (sheet.removeColumns heading left right update).Regular (heading.removeColumns left right) := by
  have wellFormed := regular.wellFormed
  have letters := regular.letters.removeColumns remaining
  have count := Heading.length_removeColumns ordered within
  refine ⟨⟨wellFormed.lead, Heading.isBarred_text letters, ?_, ?_, wellFormed.closingGaps,
    wellFormed.closingGap, wellFormed.trail⟩, letters, rfl, ?_⟩
  · simpa [Sheet.removeColumns] using wellFormed.nonempty
  · intro row member
    obtain ⟨old, isRow, rfl⟩ := List.mem_map.mp member
    exact (loses old isRow).wellFormed
  · intro row member
    obtain ⟨old, isRow, rfl⟩ := List.mem_map.mp member
    have fits := (loses old isRow).fits
    omega

theorem outline_removeColumns (ordered : left ≤ right) (within : right < heading.letters.length)
    (loses : ∀ row ∈ sheet.rows, row.Loses left right heading.letters.length (update row)) :
    (sheet.removeColumns heading left right update).outline (heading.removeColumns left right)
      = (sheet.outline heading).removeColumns left right := by
  have count := Heading.length_removeColumns ordered within
  have fewer : (heading.removeColumns left right).letters.length
      = heading.letters.length - (right + 1 - left) := by omega
  have rows : (sheet.rows.map update).map
        (WrittenRow.outline (heading.letters.length - (right + 1 - left)))
      = (sheet.rows.map (WrittenRow.outline heading.letters.length)).map fun row =>
        { row with cells := Outline.removeColumnsIn left right 0 row.cells } := by
    rw [List.map_map, List.map_map]
    exact List.map_congr_left fun row member => (loses row member).outline
  simp only [outline, Outline.removeColumns, fewer, removeColumns, rows]

/-- The rows of a regular sheet can lose some of the columns, and stay detached if
they are. -/
theorem Regular.exists_update (regular : sheet.Regular heading)
    (limit : heading.letters.length < wordLimit) (ordered : left ≤ right)
    (within : right < heading.letters.length)
    (stays : right + 1 - left < heading.letters.length)
    (detached : ∀ row ∈ sheet.rows, row.Detached)
    (free : left = 0 → ∀ row ∈ sheet.rows, ∀ cell ∈ row.cells, cell.Detached) :
    ∃ update : WrittenRow → WrittenRow,
      (∀ row ∈ sheet.rows, row.Loses left right heading.letters.length (update row)) ∧
        ∀ row ∈ sheet.rows, (update row).Detached := by
  choose first count runAt using WrittenRow.exists_run left right heading.letters.length
  refine ⟨fun row => row.withoutRun left right (first row) (count row), ?_, ?_⟩
  · intro row member
    exact (runAt row).loses (regular.wellFormed.rows row member) (regular.fits row member) limit
      ordered within stays
  · intro row member
    exact (runAt row).detached (detached row member) fun goesFirst => free goesFirst row member

end Sheet

end LatexTabular
