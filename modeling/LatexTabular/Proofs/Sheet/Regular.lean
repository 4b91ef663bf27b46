import LatexTabular.Proofs.Sheet.Outline

/-!
# Regular sheets

The rules and terminators of a sheet end where they are written if each row starts
with white space, with a command or with an empty cell (`Sheet.guarded_of_detached`).
`Sheet.Regular` collects what a sheet promises besides.
-/

namespace LatexTabular

open Text Markup

namespace Text

theorem isSpace_nil : IsSpace [] := fun _ member => absurd member List.not_mem_nil

theorem isSpace_blank : IsSpace [' '] := by
  intro character member
  obtain rfl := List.mem_singleton.mp member
  decide

theorem IsSpace.append {left right : Text} (first : left.IsSpace) (second : right.IsSpace) :
    Text.IsSpace (left ++ right) := by
  intro character member
  rcases List.mem_append.mp member with inLeft | inRight
  · exact first character inLeft
  · exact second character inRight

end Text

theorem Entry.wellFormed_blank : Entry.blank.WellFormed := ⟨by simp, by simp, by simp⟩

/-- Whether a cell cannot be taken for a part of what stands in front of it. -/
def WrittenCell.Detached (cell : WrittenCell) : Prop :=
  cell.before ≠ [] ∨ ∀ content, cell.entry = .plain content → content = []

/-- Whether the first cell of a row is detached. -/
def WrittenRow.Detached (row : WrittenRow) : Prop := ∀ cell ∈ row.cells.head?, cell.Detached

namespace WrittenCell

/-- A detached cell is clear of what stands in front of it, if what follows is. -/
theorem isClear_text_append {cell : WrittenCell} {rest : Text} (wellFormed : cell.WellFormed)
    (detached : cell.Detached) (clear : rest.IsClear) : Text.IsClear (cell.text ++ rest) := by
  obtain ⟨before, entry, after⟩ := cell
  cases before with
  | cons head others =>
      rintro character ⟨⟩
      exact Or.inl (wellFormed.before head List.mem_cons_self)
  | nil =>
      cases entry with
      | plain content =>
          obtain rfl : content = [] := by
            rcases detached with nonempty | empty
            · exact absurd rfl nonempty
            · exact empty content rfl
          exact .append wellFormed.after clear
      | merged number specifier content => exact .backslash _

/-- A cell with white space put in front of it. -/
def indented (gap : Text) (cell : WrittenCell) : WrittenCell :=
  if cell.entry.text = [] then { cell with after := gap ++ cell.after }
  else { cell with before := gap ++ cell.before }

theorem text_indented {cell : WrittenCell} (anchored : cell.entry.text = [] → cell.before = [])
    (gap : Text) : (cell.indented gap).text = gap ++ cell.text := by
  by_cases empty : cell.entry.text = []
  · rw [indented, if_pos empty, text, text, empty, anchored empty]
    simp
  · rw [indented, if_neg empty, text, text]
    simp

theorem entry_indented (gap : Text) (cell : WrittenCell) :
    (cell.indented gap).entry = cell.entry := by
  unfold indented
  split <;> rfl

theorem WellFormed.indented {cell : WrittenCell} {gap : Text} (wellFormed : cell.WellFormed)
    (space : gap.IsSpace) : (cell.indented gap).WellFormed := by
  by_cases empty : cell.entry.text = []
  · rw [WrittenCell.indented, if_pos empty]
    exact ⟨wellFormed.before, wellFormed.entry, space.append wellFormed.after, wellFormed.anchored⟩
  · rw [WrittenCell.indented, if_neg empty]
    exact ⟨space.append wellFormed.before, wellFormed.entry, wellFormed.after,
      fun isEmpty => absurd isEmpty empty⟩

theorem Detached.indented {cell : WrittenCell} (detached : cell.Detached) (gap : Text) :
    (cell.indented gap).Detached := by
  by_cases empty : cell.entry.text = []
  · rw [WrittenCell.indented, if_pos empty]
    exact detached
  · rw [WrittenCell.indented, if_neg empty]
    exact detached.imp_left fun nonempty => List.append_ne_nil_of_right_ne_nil _ nonempty

end WrittenCell

namespace WrittenRow

variable {row : WrittenRow}

/-- The cells of a detached row are clear of what stands in front of them, if what follows
is. -/
theorem isClear_cells_append (wellFormed : row.WellFormed) (detached : row.Detached) {rest : Text}
    (clear : rest.IsClear) : Text.IsClear (cellsText row.cells ++ rest) := by
  obtain ⟨ruleGaps, cells⟩ := row
  cases cells with
  | nil => exact absurd rfl wellFormed.nonempty
  | cons cell others =>
      have first := wellFormed.cells cell List.mem_cons_self
      have free := detached cell rfl
      cases others with
      | nil => exact cell.isClear_text_append first free clear
      | cons next others =>
          have behind : Text.IsClear (('&' :: cellsText (next :: others)) ++ rest) := by
            rintro character ⟨⟩
            exact Or.inr (Or.inl rfl)
          have whole := cell.isClear_text_append first free behind
          rwa [← List.append_assoc, ← cellsText_cons_cons] at whole

theorem isClear_cellsText_append (wellFormed : row.WellFormed) (detached : row.Detached)
    (rest : Text) : Text.IsClear (cellsText row.cells ++ ("\\\\".toList ++ rest)) :=
  isClear_cells_append wellFormed detached (.backslash ('\\' :: rest))

theorem isClear_text_append (wellFormed : row.WellFormed) (detached : row.Detached)
    (rest : Text) : Text.IsClear (row.text ++ rest) := by
  have cells := isClear_cellsText_append wellFormed detached rest
  have textEq : row.text ++ rest = rulesText row.ruleGaps
      ++ (cellsText row.cells ++ ("\\\\".toList ++ rest)) := by
    simp [text]
  rw [textEq]
  cases gapsEq : row.ruleGaps with
  | nil => exact cells
  | cons gap others =>
      rw [← gapsEq]
      exact isClear_rulesText_append wellFormed.ruleGaps (by simp [gapsEq])

end WrittenRow

namespace Sheet

variable {sheet : Sheet}

theorem isClear_closingText (wellFormed : sheet.WellFormed) : Text.IsClear sheet.closingText :=
  isClear_rulesText_append_of_isClear wellFormed.closingGaps
    (isClear_of_isSpace wellFormed.closingGap)

theorem guarded_rows {closing : Text} {rows : List WrittenRow} (clear : closing.IsClear)
    (wellFormed : ∀ row ∈ rows, row.WellFormed) (detached : ∀ row ∈ rows, row.Detached) :
    LatexTabular.Guarded closing rows := by
  induction rows with
  | nil => trivial
  | cons row rest ih =>
      have rowWellFormed := wellFormed row List.mem_cons_self
      have rowDetached := detached row List.mem_cons_self
      have behind : Text.IsClear (rowsText rest ++ closing) := by
        cases rest with
        | nil => exact clear
        | cons next others =>
            rw [rowsText_cons, List.append_assoc]
            exact WrittenRow.isClear_text_append (wellFormed next (by simp))
              (detached next (by simp)) _
      refine ⟨fun _ => ?_, behind.optionalGroup?_eq_none, ?_⟩
      · exact (WrittenRow.isClear_cellsText_append rowWellFormed rowDetached _).endsRule
      · exact ih (fun other member => wellFormed other (List.mem_cons_of_mem _ member))
          (fun other member => detached other (List.mem_cons_of_mem _ member))

/-- A sheet of detached rows ends its rules and terminators where they are
written. -/
theorem guarded_of_detached (wellFormed : sheet.WellFormed)
    (detached : ∀ row ∈ sheet.rows, row.Detached) : sheet.Guarded :=
  guarded_rows (isClear_closingText wellFormed) wellFormed.rows detached

end Sheet

/-- A sheet with the specifier of a heading, all of whose rows fit the columns. -/
structure Sheet.Regular (heading : Heading) (sheet : Sheet) : Prop where
  wellFormed : sheet.WellFormed
  letters : heading.WellFormed
  specifier : sheet.specifier = heading.text
  fits : ∀ row ∈ sheet.rows, row.width ≤ heading.letters.length

namespace Sheet.Regular

variable {heading : Heading} {sheet : Sheet}

theorem columnCount (regular : sheet.Regular heading) :
    sheet.columnCount = heading.letters.length := by
  rw [Sheet.columnCount, regular.specifier, heading.columns_text regular.letters,
    heading.length_columns]

theorem shows (regular : sheet.Regular heading) : sheet.table.Shows (sheet.outline heading) :=
  shows_outline regular.wellFormed.nonempty regular.specifier regular.letters

/-- What a regular sheet says is read from it. -/
theorem readFrom (regular : sheet.Regular heading) (guarded : sheet.Guarded) :
    (sheet.outline heading).ReadFrom sheet.text := by
  have read := Sheet.readAll_text regular.wellFormed
  rw [Sheet.readTable_eq regular.wellFormed guarded] at read
  exact ⟨sheet.table, read, regular.shows⟩

theorem specifier_ne_nil (regular : sheet.Regular heading) : sheet.specifier ≠ [] := by
  rw [regular.specifier]
  intro empty
  have letters := (List.append_eq_nil_iff.mp empty).2
  rw [List.flatMap_eq_nil_iff] at letters
  cases lettersEq : heading.letters with
  | nil => exact regular.letters.nonempty lettersEq
  | cons letter rest => exact List.cons_ne_nil _ _ (letters letter (by simp [lettersEq]))

end Sheet.Regular

end LatexTabular
