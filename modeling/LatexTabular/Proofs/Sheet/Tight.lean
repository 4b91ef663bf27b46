import LatexTabular.Proofs.Sheet.Columns

/-!
# Columns that come and go

A column that is inserted and removed again leaves a row as it was, except that a
column in front of the first one takes the white space there with it: the row becomes
tight (`WrittenRow.withoutRun_insertColumn`).
-/

namespace LatexTabular

open Text

namespace WrittenRow

/-- A row without the white space in front of its first cell. -/
def tight (row : WrittenRow) : WrittenRow :=
  match row.cells with
  | [] => row
  | cell :: rest => { row with cells := { cell with before := [] } :: rest }

variable {row : WrittenRow}

theorem shrunkCells_eq_self {left right first : Nat} (behind : right < first)
    (cells : List WrittenCell) : shrunkCells left right first cells = cells := by
  induction cells generalizing first with
  | nil => rfl
  | cons cell rest ih =>
      have none : Outline.coveredCount left right first cell.entry.width = 0 := by
        unfold Outline.coveredCount
        omega
      have others := @ih (first + cell.entry.width) (by omega)
      simp [shrunkCells, Entry.shrunk, none, others]

/-- A column in front of the first one parts the white space there from the first
cell. -/
theorem cells_insertColumn_front {cell : WrittenCell} {rest : List WrittenCell}
    (cellsEq : row.cells = cell :: rest) :
    (row.insertColumn false 0).cells
      = ⟨[], .blank, cell.before ++ [' ']⟩ :: ⟨[], cell.entry, cell.after⟩ :: rest := by
  simp [insertColumn, cellsEq, makeRoomIn, cell.entry.width_pos, WrittenCell.makeRoom,
    WrittenCell.besideBlank]

/-- The blank cell of a column in front goes with this column. -/
theorem runAt_insertColumn (nonempty : row.cells ≠ []) (columnCount : Nat) :
    (row.insertColumn false 0).RunAt 0 0 columnCount 0 1 := by
  obtain ⟨cell, rest, cellsEq⟩ := List.exists_cons_of_ne_nil nonempty
  intro start rules
  have filled := cells_filled columnCount start rules (row.insertColumn false 0)
  rw [cells_insertColumn_front cellsEq, layCells_cons, List.cons_append] at filled
  have one : (Entry.laid ((row.insertColumn false 0).cellsStart start + Text.size []) .blank).width
      = 1 := rfl
  refine ⟨[], [_], _, filled, rfl, rfl, ?_, ?_, ?_⟩
  · exact fun index place member => absurd member List.not_mem_nil
  · intro index place member
    obtain rfl := List.mem_singleton.mp member
    exact Plan.removes_iff.mpr ⟨Nat.zero_le _, Nat.le_of_eq one⟩
  · intro index
    exact Plan.not_removes_of_lt (Nat.lt_of_lt_of_eq Nat.one_pos one.symm)

theorem withoutRun_insertColumn (nonempty : row.cells ≠ []) :
    (row.insertColumn false 0).withoutRun 0 0 0 1 = row.tight := by
  obtain ⟨cell, rest, cellsEq⟩ := List.exists_cons_of_ne_nil nonempty
  have front := cells_insertColumn_front cellsEq
  have behind : (((row.insertColumn false 0).cells.take (0 + 1)).map (·.entry.width)).sum = 1 := by
    rw [front]
    rfl
  have indented : (WrittenCell.mk [] cell.entry cell.after).indented []
      = ⟨[], cell.entry, cell.after⟩ := by
    unfold WrittenCell.indented
    split <;> rfl
  rw [withoutRun, behind, shrunkCells_eq_self Nat.one_pos, front, tight, cellsEq]
  have closed := closeGap_of_next [] rest ⟨[], .blank, cell.before ++ [' ']⟩
    ⟨[], cell.entry, cell.after⟩
  rw [indented] at closed
  exact congrArg (WrittenRow.mk row.ruleGaps) closed

end WrittenRow

namespace Sheet

variable {heading : Heading} {sheet : Sheet} {after : Bool} {column : Nat}

/-- The rows of a sheet with a new column can lose it again.  They stay detached, or
become tight if the column is the first one. -/
theorem Regular.exists_update_insertColumn (regular : sheet.Regular heading)
    (limit : heading.letters.length + 1 < wordLimit) (within : column < heading.letters.length)
    (detached : ∀ row ∈ sheet.rows, row.Detached) :
    ∃ update : WrittenRow → WrittenRow,
      (∀ row ∈ (sheet.insertColumn heading after column).rows,
        row.Loses (insertionIndex after column) (insertionIndex after column)
          (heading.letters.length + 1) (update row)) ∧
      (insertionIndex after column ≠ 0 →
        ∀ row ∈ (sheet.insertColumn heading after column).rows, (update row).Detached) ∧
      (insertionIndex after column = 0 →
        ∀ row ∈ sheet.rows, update (row.insertColumn after column) = row.tight) := by
  have newRegular := @Regular.insertColumn _ _ regular after column limit within
  have index : insertionIndex after column ≤ heading.letters.length := by
    unfold insertionIndex
    split <;> omega
  have count := heading.length_insertColumn index
  by_cases atFront : insertionIndex after column = 0
  · obtain ⟨rfl, rfl⟩ : after = false ∧ column = 0 := by
      unfold insertionIndex at atFront
      split at atFront <;> simp_all
    refine ⟨fun row => row.withoutRun 0 0 0 1, ?_, fun notFront => absurd atFront notFront, ?_⟩
    · intro row member
      obtain ⟨old, isRow, rfl⟩ := List.mem_map.mp member
      have fits := newRegular.fits _ member
      rw [count] at fits
      exact (WrittenRow.runAt_insertColumn (regular.wellFormed.rows old isRow).nonempty _).loses
        (newRegular.wellFormed.rows _ member) fits limit (Nat.le_refl _) (Nat.succ_pos _) (by omega)
    · intro _ row member
      exact WrittenRow.withoutRun_insertColumn (regular.wellFormed.rows row member).nonempty
  · have newDetached : ∀ row ∈ (sheet.insertColumn heading after column).rows, row.Detached := by
      intro row member
      obtain ⟨old, isRow, rfl⟩ := List.mem_map.mp member
      exact (detached old isRow).insertColumn
    rw [← count] at limit ⊢
    obtain ⟨update, loses, staysDetached⟩ := newRegular.exists_update limit
      (Nat.le_refl (insertionIndex after column)) (by omega) (by omega) newDetached
      fun isFront => absurd isFront atFront
    exact ⟨update, loses, fun _ => staysDetached, fun isFront => absurd isFront atFront⟩

/-- The outline of a regular sheet is full of cells that take as many columns as they are
written with. -/
theorem Regular.roundTrip_outline (regular : sheet.Regular heading) {index : Nat}
    (within : index ≤ heading.letters.length) :
    ((sheet.outline heading).insertColumn index).removeColumns index index
      = { sheet.outline heading with
          heading := (heading.insertColumn index).removeColumns index index } := by
  refine Outline.removeColumns_insertColumn ?_ ?_
  · intro row member cell isCell
    obtain ⟨own, isRow, rfl⟩ := List.mem_map.mp member
    rcases List.mem_append.mp isCell with isEntry | isBlank
    · obtain ⟨written, isWritten, rfl⟩ := List.mem_map.mp isEntry
      exact Entry.outline_wellFormed
        ((regular.wellFormed.rows own isRow).cells written isWritten).entry
    · obtain rfl := List.eq_of_mem_replicate isBlank
      rintro merge ⟨⟩
  · intro row member
    obtain ⟨own, isRow, rfl⟩ := List.mem_map.mp member
    rw [WrittenRow.totalWidth_outline (regular.fits own isRow)]
    exact within

/-- A column that is inserted and removed again leaves a sheet with the same rows, which
are detached or tight. -/
theorem Regular.exists_roundTrip (regular : sheet.Regular heading)
    (limit : heading.letters.length + 1 < wordLimit) (within : column < heading.letters.length)
    (detached : ∀ row ∈ sheet.rows, row.Detached) :
    ∃ remnant : Sheet,
      Batch.apply (sheet.insertColumn heading after column).text
          (columnEdits (insertionIndex after column) (insertionIndex after column)
            (sheet.insertColumn heading after column).table) = .ok remnant.text ∧
      remnant.Regular ((heading.insertColumn (insertionIndex after column)).removeColumns
        (insertionIndex after column) (insertionIndex after column)) ∧
      remnant.outline ((heading.insertColumn (insertionIndex after column)).removeColumns
          (insertionIndex after column) (insertionIndex after column))
        = { sheet.outline heading with
            heading := (heading.insertColumn (insertionIndex after column)).removeColumns
              (insertionIndex after column) (insertionIndex after column) } ∧
      remnant.closingText = sheet.closingText ∧
      (insertionIndex after column ≠ 0 → ∀ row ∈ remnant.rows, row.Detached) ∧
      (insertionIndex after column = 0 → remnant.rows = sheet.rows.map WrittenRow.tight) := by
  have newRegular := @Regular.insertColumn _ _ regular after column limit within
  have outlined := @outline_insertColumn _ _ regular after column within
  obtain ⟨update, loses, staysDetached, tight⟩ :=
    @Regular.exists_update_insertColumn _ _ after _ regular limit within detached
  have index : insertionIndex after column ≤ heading.letters.length := by
    unfold insertionIndex
    split <;> omega
  have roundTrip := regular.roundTrip_outline index
  have count := heading.length_insertColumn index
  rw [← count] at loses
  have newWithin : insertionIndex after column
      < (heading.insertColumn (insertionIndex after column)).letters.length := by
    omega
  have fewer := Heading.length_removeColumns (Nat.le_refl _) newWithin
  have remaining : ((heading.insertColumn (insertionIndex after column)).removeColumns
      (insertionIndex after column) (insertionIndex after column)).letters ≠ [] :=
    List.ne_nil_of_length_pos (by omega)
  refine ⟨_, (rewrites_removeColumns newRegular remaining loses).apply_eq,
    newRegular.removeColumns (Nat.le_refl _) newWithin remaining loses, ?_, rfl, ?_, ?_⟩
  · rw [outline_removeColumns (Nat.le_refl _) newWithin loses, outlined, roundTrip]
  · intro notFront row member
    obtain ⟨old, isRow, rfl⟩ := List.mem_map.mp member
    exact staysDetached notFront old isRow
  · intro isFront
    have rows := tight isFront
    simp only [Sheet.removeColumns, Sheet.insertColumn, List.map_map]
    exact List.map_congr_left rows

end Sheet

end LatexTabular
