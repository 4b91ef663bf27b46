import LatexTabular.Proofs.Sheet.Columns

/-!
# Sheets with one row changed

Edits of one row of a sheet change that row alone: the sheet stays regular if the new row fits,
and its outline has that row changed.
-/

namespace LatexTabular.Sheet

variable {heading : Heading} {sheet : Sheet} {rowsBefore rowsBehind : List WrittenRow}
  {row changed : WrittenRow}

theorem getElem?_layRows (start : Nat) (closing : List Span) (rowsBefore : List WrittenRow)
    (row : WrittenRow) (rowsBehind : List WrittenRow) :
    ∃ rules, (layRows start closing (rowsBefore ++ row :: rowsBehind))[rowsBefore.length]?
      = some { row.laid (start + (rowsText rowsBefore).size) with rules } := by
  induction rowsBefore generalizing start with
  | nil =>
      cases rowsBehind with
      | nil => exact ⟨_, rfl⟩
      | cons next others => exact ⟨_, rfl⟩
  | cons first rest ih =>
      obtain ⟨rules, found⟩ := ih (start + first.text.size)
      obtain ⟨second, others, restEq⟩ :=
        List.exists_cons_of_ne_nil (show rest ++ row :: rowsBehind ≠ [] by simp)
      refine ⟨rules, ?_⟩
      rw [List.cons_append, restEq, layRows_cons_cons, ← restEq, List.length_cons,
        List.getElem?_cons_succ, found, rowsText_cons, Text.size_append, Nat.add_assoc]

/-- A row between others is read where those in front of it end. -/
theorem getElem?_rows (rowsEq : sheet.rows = rowsBefore ++ row :: rowsBehind) :
    ∃ rules, sheet.table.rows[rowsBefore.length]?
      = some (row.filled sheet.columnCount (sheet.bodyStart + (rowsText rowsBefore).size)
        rules) := by
  obtain ⟨rules, found⟩ := getElem?_layRows sheet.bodyStart
    (layRules (sheet.bodyStart + (rowsText sheet.rows).size) sheet.closingGaps) rowsBefore row
    rowsBehind
  refine ⟨rules, ?_⟩
  rw [← rowsEq] at found
  simp only [table, laidRows, List.getElem?_map, found, Option.map_some]
  rfl

section Changed

variable (rowsEq : sheet.rows = rowsBefore ++ row :: rowsBehind)
include rowsEq

/-- Edits that rewrite one row of a sheet. -/
theorem apply_of_row {batch : Batch}
    (ofRow : Rewrites (sheet.bodyStart + (rowsText rowsBefore).size) row.text batch changed.text) :
    Batch.apply sheet.text batch
      = .ok ({ sheet with rows := rowsBefore ++ changed :: rowsBehind } : Sheet).text := by
  have ofRows := (Rewrites.refl sheet.bodyStart (rowsText rowsBefore)).append
    (ofRow.append (Rewrites.refl _ (rowsText rowsBehind)))
  refine (rewrites_text ?_).apply_eq
  rw [rowsEq, rowsText_append, rowsText_append, rowsText_cons, rowsText_cons]
  simpa using ofRows

theorem mem_of_mem_changed {other : WrittenRow}
    (member : other ∈ rowsBefore ++ changed :: rowsBehind) :
    other = changed ∨ other ∈ sheet.rows := by
  simp only [rowsEq, List.mem_append, List.mem_cons] at member ⊢
  tauto

/-- A regular sheet stays regular with a row that fits. -/
theorem Regular.with_row (regular : sheet.Regular heading) (wellFormed : changed.WellFormed)
    (fits : changed.width ≤ heading.letters.length) :
    ({ sheet with rows := rowsBefore ++ changed :: rowsBehind } : Sheet).Regular heading := by
  refine regular.with_rows (by simp) (fun other member => ?_) (fun other member => ?_)
  · rcases mem_of_mem_changed rowsEq member with rfl | isOther
    · exact wellFormed
    · exact regular.wellFormed.rows other isOther
  · rcases mem_of_mem_changed rowsEq member with rfl | isOther
    · exact fits
    · exact regular.fits other isOther

theorem detached_with_row (detached : ∀ other ∈ sheet.rows, other.Detached)
    (ofRow : changed.Detached) :
    ∀ other ∈ rowsBefore ++ changed :: rowsBehind, other.Detached := by
  intro other member
  rcases mem_of_mem_changed rowsEq member with rfl | isOther
  · exact ofRow
  · exact detached other isOther

/-- The outline of a sheet with a row changed. -/
theorem outline_with_row {change : Outline.Row → Outline.Row}
    (rowEq : changed.outline heading.letters.length
      = change (row.outline heading.letters.length)) :
    ({ sheet with rows := rowsBefore ++ changed :: rowsBehind } : Sheet).outline heading
      = { sheet.outline heading with
          rows := (sheet.outline heading).rows.modify rowsBefore.length change } := by
  have modified := List.modifyTailIdx_add (List.modifyHead change) 0
    (rowsBefore.map (WrittenRow.outline heading.letters.length))
    ((row :: rowsBehind).map (WrittenRow.outline heading.letters.length))
  rw [List.length_map, Nat.add_zero] at modified
  simp only [outline, rowsEq, List.map_append, List.map_cons, rowEq]
  congr 1
  exact modified.symm

end Changed

end LatexTabular.Sheet
