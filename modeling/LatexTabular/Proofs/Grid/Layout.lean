import LatexTabular.Proofs.Grid.Basic
import LatexTabular.Proofs.Sheet.Parts
import LatexTabular.Proofs.Sheet.Regular

/-!
# Grids as sheets

A grid is a sheet of which the white space is known (`Grid.text_sheet`).  The white
space of an empty cell counts as standing behind it, so that each cell is detached.
-/

namespace LatexTabular

open Text

theorem Entry.Rendered.wellFormed {entry : Entry} (rendered : entry.Rendered)
    (narrow : entry.width < wordLimit) : entry.WellFormed := by
  cases entry with
  | plain content => exact rendered
  | merged number specifier content =>
      obtain ⟨numeral, positive, barred, plain⟩ := rendered
      exact ⟨numeral, positive, Nat.lt_of_le_of_lt (Nat.le_max_left _ _) narrow, barred, plain⟩

namespace WrittenCell

/-- An entry between a given white space and a blank. -/
def spaced (lead : Text) (entry : Entry) : WrittenCell :=
  if entry = .blank then ⟨[], .blank, lead ++ [' ']⟩ else ⟨lead, entry, [' ']⟩

theorem text_spaced (lead : Text) (entry : Entry) :
    (spaced lead entry).text = lead ++ (entry.text ++ [' ']) := by
  unfold spaced
  split
  next isBlank =>
    subst isBlank
    rfl
  next => exact List.append_assoc _ _ _

theorem entry_spaced (lead : Text) (entry : Entry) : (spaced lead entry).entry = entry := by
  unfold spaced
  split
  next isBlank => exact isBlank.symm
  next => rfl

theorem wellFormed_spaced {lead : Text} {entry : Entry} (space : lead.IsSpace)
    (wellFormed : entry.WellFormed) : (spaced lead entry).WellFormed := by
  unfold spaced
  split
  next => exact ⟨isSpace_nil, Entry.wellFormed_blank, space.append isSpace_blank, fun _ => rfl⟩
  next notBlank =>
    exact ⟨space, wellFormed, isSpace_blank, fun empty =>
      absurd (Entry.eq_blank_of_text_eq_nil empty) notBlank⟩

theorem detached_spaced {lead : Text} (entry : Entry) (nonempty : lead ≠ []) :
    (spaced lead entry).Detached := by
  unfold spaced
  split
  next =>
    refine Or.inr ?_
    rintro content ⟨⟩
    rfl
  next => exact Or.inl nonempty

end WrittenCell

/-- Entries with blanks around them, the first one behind the start of a line. -/
def spacedCells : List Entry → List WrittenCell
  | [] => []
  | entry :: rest => .spaced ['\n'] entry :: rest.map (.spaced [' '])

/-- Blanks belong to the cell in front of a separator and to the one behind it. -/
theorem blank_append_backText (entries : List Entry) :
    ' ' :: backText (entries.map (.spaced [' ']))
      = (entries.map Entry.text).flatMap (" & ".toList ++ ·) ++ [' '] := by
  induction entries with
  | nil => rfl
  | cons entry rest ih =>
      rw [List.map_cons, List.map_cons, List.flatMap_cons, List.append_assoc, ← ih, backText_cons,
        WrittenCell.text_spaced]
      simp

theorem intercalate_cons (separator first : Text) (rest : List Text) :
    separator.intercalate (first :: rest) = first ++ rest.flatMap (separator ++ ·) := by
  induction rest generalizing first with
  | nil => simp
  | cons next rest ih =>
      rw [List.intercalate_cons_cons, ih, List.flatMap_cons, List.append_assoc, List.append_assoc]

theorem cellsText_spacedCells {entries : List Entry} (nonempty : entries ≠ []) :
    cellsText (spacedCells entries)
      = '\n' :: " & ".toList.intercalate (entries.map Entry.text) ++ [' '] := by
  cases entries with
  | nil => exact absurd rfl nonempty
  | cons entry rest =>
      have behind := blank_append_backText rest
      rw [spacedCells, cellsText_cons, WrittenCell.text_spaced, List.map_cons, intercalate_cons]
      simpa using behind

theorem mem_spacedCells {cell : WrittenCell} {entries : List Entry}
    (member : cell ∈ spacedCells entries) :
    ∃ entry ∈ entries, cell = .spaced ['\n'] entry ∨ cell = .spaced [' '] entry := by
  cases entries with
  | nil => exact absurd member List.not_mem_nil
  | cons first rest =>
      rcases List.mem_cons.mp member with rfl | member
      · exact ⟨first, List.mem_cons_self, Or.inl rfl⟩
      · obtain ⟨entry, isEntry, rfl⟩ := List.mem_map.mp member
        exact ⟨entry, List.mem_cons_of_mem _ isEntry, Or.inr rfl⟩

theorem map_entry_spacedCells (entries : List Entry) :
    (spacedCells entries).map WrittenCell.entry = entries := by
  cases entries with
  | nil => rfl
  | cons first rest => simp [spacedCells, WrittenCell.entry_spaced, Function.comp_def]

namespace Grid

/-- The rules of a grid stand at the ends of lines, those of a sheet at their starts. -/
theorem rulesText_replicate_append (rules : Nat) (rest : Text) :
    rulesText (List.replicate rules ['\n']) ++ '\n' :: rest
      = '\n' :: (ruleLines rules ++ rest) := by
  induction rules with
  | zero => rfl
  | succ rules ih =>
      have first : rulesText (List.replicate (rules + 1) ['\n'])
          = '\n' :: ("\\hline".toList ++ rulesText (List.replicate rules ['\n'])) := by
        simp [rulesText, List.replicate_succ]
      have lines : ruleLines (rules + 1) = "\\hline\n".toList ++ ruleLines rules := by
        rw [ruleLines, repeated, List.replicate_succ, List.flatten_cons]
        rfl
      rw [first, lines, List.cons_append, List.append_assoc, ih]
      rfl

namespace Row

/-- A row of a grid with the white space around its tokens. -/
def written (row : Row) : WrittenRow :=
  ⟨List.replicate row.rules ['\n'], spacedCells row.entries⟩

variable {row : Row} {columnCount : Nat}

theorem text_written (nonempty : row.entries ≠ []) : row.written.text = row.text := by
  have cells := cellsText_spacedCells nonempty
  have rules := rulesText_replicate_append row.rules
    (" & ".toList.intercalate (row.entries.map Entry.text) ++ " \\\\".toList)
  rw [WrittenRow.text, written, cells, text]
  simpa using rules

theorem width_written (row : Row) : row.written.width = row.width := by
  have entries := map_entry_spacedCells row.entries
  have widths : row.written.cells.map (fun cell : WrittenCell => cell.entry.width)
      = row.entries.map Entry.width := by
    conv => rhs; rw [← entries, List.map_map]
    rfl
  rw [WrittenRow.width, widths, width]

theorem outline_written (row : Row) (columnCount : Nat) :
    row.written.outline columnCount = row.outline columnCount := by
  have entries := map_entry_spacedCells row.entries
  have cells : row.written.cells.map (fun cell : WrittenCell => cell.entry.outline)
      = row.entries.map Entry.outline := by
    conv => rhs; rw [← entries, List.map_map]
    rfl
  rw [WrittenRow.outline, outline, cells, width_written, written, List.length_replicate]

theorem detached_of_mem_written {cell : WrittenCell} (member : cell ∈ row.written.cells) :
    cell.Detached := by
  obtain ⟨entry, -, rfl | rfl⟩ := mem_spacedCells member
  · exact WrittenCell.detached_spaced entry (List.cons_ne_nil _ _)
  · exact WrittenCell.detached_spaced entry (List.cons_ne_nil _ _)

theorem WellFormed.width_lt (wellFormed : row.WellFormed columnCount)
    (limit : columnCount < wordLimit) {entry : Entry} (member : entry ∈ row.entries) :
    entry.width < wordLimit := by
  obtain ⟨before, behind, entriesEq⟩ := List.append_of_mem member
  have fits := wellFormed.fits
  rw [width, entriesEq, List.map_append, List.sum_append, List.map_cons, List.sum_cons] at fits
  omega

theorem WellFormed.written (wellFormed : row.WellFormed columnCount)
    (limit : columnCount < wordLimit) : row.written.WellFormed := by
  have newline : IsSpace ['\n'] := by
    intro character member
    obtain rfl := List.mem_singleton.mp member
    decide
  refine ⟨?_, ?_, ?_⟩
  · intro gap member
    obtain rfl := List.eq_of_mem_replicate member
    exact newline
  · intro empty
    have entries := map_entry_spacedCells row.entries
    rw [show spacedCells row.entries = [] from empty, List.map_nil] at entries
    exact wellFormed.nonempty entries.symm
  · intro cell member
    obtain ⟨entry, isEntry, spacedAs⟩ := mem_spacedCells member
    have entryWellFormed := (wellFormed.entries entry isEntry).wellFormed
      (wellFormed.width_lt limit isEntry)
    rcases spacedAs with rfl | rfl
    · exact WrittenCell.wellFormed_spaced newline entryWellFormed
    · exact WrittenCell.wellFormed_spaced isSpace_blank entryWellFormed

end Row

/-- A grid with the white space around its tokens. -/
def sheet (grid : Grid) : Sheet where
  lead := grid.lead
  specifier := grid.specifier
  rows := grid.rows.map Row.written
  closingGaps := List.replicate grid.closingRules ['\n']
  closingGap := ['\n']
  trail := grid.trail

variable {grid : Grid}

theorem text_sheet (wellFormed : grid.WellFormed) : grid.sheet.text = grid.text := by
  have rows : Sheet.rowsText (grid.rows.map Row.written) = grid.rows.flatMap Row.text := by
    rw [Sheet.rowsText, List.flatMap_map]
    exact List.flatMap_congr fun row member =>
      Row.text_written (wellFormed.rows row member).nonempty
  have closing := rulesText_replicate_append grid.closingRules []
  have closingText : grid.sheet.closingText = '\n' :: ruleLines grid.closingRules := by
    simpa [Sheet.closingText, sheet] using closing
  have opened : Sheet.opening ++ ['{'] = "\\begin\x7btabular\x7d\x7b".toList := by decide
  have front : grid.sheet.front = grid.lead ++ "\\begin\x7btabular\x7d\x7b".toList := by
    rw [Sheet.front, List.append_assoc, opened]
    rfl
  have body : grid.sheet.body
      = grid.rows.flatMap Row.text ++ '\n' :: ruleLines grid.closingRules := by
    rw [Sheet.body, closingText]
    exact congrArg (· ++ _) rows
  rw [Sheet.text, front, body, text, List.append_cons _ '}']
  rfl

/-- A document is longer than its specifier has letters. -/
theorem WellFormed.columnCount_lt (wellFormed : grid.WellFormed) :
    grid.columnCount + 1 < wordLimit := by
  have letters : grid.columnCount ≤ grid.specifier.length := List.countP_le_length
  have bytes : grid.specifier.length ≤ grid.specifier.size := Text.length_le_size _
  have opened : Text.size "\\begin\x7btabular\x7d\x7b".toList = 16 := by decide
  have size := wellFormed.size
  simp only [text, Text.size_append, opened] at size
  omega

theorem length_letters_outline (wellFormed : grid.WellFormed) :
    grid.outline.heading.letters.length = grid.columnCount :=
  Heading.length_letters_ofText wellFormed.specifier

/-- A grid is a regular sheet. -/
theorem WellFormed.regular (wellFormed : grid.WellFormed) :
    grid.sheet.Regular grid.outline.heading := by
  have limit : grid.columnCount < wordLimit := by
    have longer := wellFormed.columnCount_lt
    omega
  have newline : IsSpace ['\n'] := by
    intro character member
    obtain rfl := List.mem_singleton.mp member
    decide
  have letters := Heading.wellFormed_ofText wellFormed.specifier wellFormed.columns
  refine ⟨⟨wellFormed.lead, wellFormed.specifier, ?_, ?_, ?_, newline, wellFormed.trail⟩, letters,
    (Heading.text_ofText grid.specifier).symm, ?_⟩
  · simpa [sheet] using wellFormed.nonempty
  · intro row member
    obtain ⟨own, isRow, rfl⟩ := List.mem_map.mp member
    exact (wellFormed.rows own isRow).written limit
  · intro gap member
    obtain rfl := List.eq_of_mem_replicate member
    exact newline
  · intro row member
    obtain ⟨own, isRow, rfl⟩ := List.mem_map.mp member
    rw [Row.width_written, length_letters_outline wellFormed]
    exact (wellFormed.rows own isRow).fits

theorem outline_sheet (wellFormed : grid.WellFormed) :
    grid.sheet.outline grid.outline.heading = grid.outline := by
  have rows : (grid.rows.map Row.written).map (WrittenRow.outline grid.columnCount)
      = grid.rows.map (Row.outline grid.columnCount) := by
    rw [List.map_map]
    exact List.map_congr_left fun row _ => row.outline_written grid.columnCount
  rw [Sheet.outline, length_letters_outline wellFormed]
  simp only [sheet, rows, List.length_replicate]
  rfl

theorem detached_of_mem_sheet {row : WrittenRow} (member : row ∈ grid.sheet.rows) :
    ∀ cell ∈ row.cells, cell.Detached := by
  obtain ⟨own, -, rfl⟩ := List.mem_map.mp member
  exact fun cell isCell => Row.detached_of_mem_written isCell

theorem detached_sheet : ∀ row ∈ grid.sheet.rows, row.Detached := by
  intro row member cell isFirst
  exact detached_of_mem_sheet member cell (List.mem_of_mem_head? isFirst)

end Grid

end LatexTabular
