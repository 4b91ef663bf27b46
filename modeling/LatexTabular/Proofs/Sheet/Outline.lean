import LatexTabular.Proofs.Outline.Heading
import LatexTabular.Proofs.Sheet.Reading
import LatexTabular.Proofs.Table.Lookup

/-!
# What a sheet says

The outline of a sheet forgets the white space of its tokens.  The table of a sheet
shows this outline (`Sheet.shows_outline`).
-/

namespace LatexTabular

open Text Body

namespace Entry

/-- An entry without its text. -/
def outline : Entry → Outline.Cell
  | plain content => ⟨content, none⟩
  | merged number specifier content =>
      ⟨content, some ⟨Text.digitsValue number, specifier⟩⟩

theorem width_outline (entry : Entry) : entry.outline.width = entry.width := by
  cases entry <;> rfl

theorem content_outline (entry : Entry) : entry.outline.content = entry.content := by
  cases entry <;> rfl

theorem width_laid (start : Nat) (entry : Entry) : (entry.laid start).width = entry.width := by
  cases entry <;> rfl

theorem outer_laid (start : Nat) (entry : Entry) :
    (entry.laid start).outer = ⟨start, start + entry.text.size⟩ := by
  cases entry with
  | plain content => rfl
  | merged number specifier content =>
      have closed : Text.size ['}'] = 1 := by decide
      simp only [laid, Cell.outer, MergeText.place, text, MergeText.text, Text.size_append, closed,
        Nat.add_assoc]

/-- What stands in a merge in front of its specifier. -/
def headText (number : Text) : Text := '\\' :: MergeText.name ++ '{' :: number ++ ['}', '{']

theorem text_eq_headText (number specifier content : Text) :
    (merged number specifier content).text
      = headText number ++ specifier ++ (['}', '{'] ++ content ++ ['}']) := by
  simp [headText, text, MergeText.text, MergeText.preamble, mergeText]

theorem specifier_place (start : Nat) (number specifier content : Text) :
    ((mergeText number specifier content).place start).specifier
      = ⟨start + (headText number).size, start + (headText number).size + specifier.size⟩ := by
  have backslash : '\\'.utf8Size = 1 := by decide
  have opened : '{'.utf8Size = 1 := by decide
  have between : Text.size ['}', '{'] = 2 := by decide
  simp only [headText, MergeText.place, mergeText, Text.size_append, Text.size_cons, Text.size_nil,
    backslash, opened, between, Span.mk.injEq]
  omega

theorem outlineCell_laid {table : Table} {start : Nat} {entry : Entry}
    (spells : Spells table.document ⟨start, start + entry.text.size⟩ entry.text) :
    table.outlineCell (entry.laid start) = entry.outline := by
  cases entry with
  | plain content => rfl
  | merged number specifier content =>
      have slice := (spells.middle (text_eq_headText number specifier content)).slice_eq
      simp only [Table.outlineCell, laid, Option.map_some, outline, specifier_place, Table.slice,
        slice]
      rfl

end Entry

theorem layCells_cons_cons (start : Nat) (cell next : WrittenCell) (rest : List WrittenCell) :
    layCells start (cell :: next :: rest)
      = cell.entry.laid (start + cell.before.size)
        :: layCells (start + cell.text.size + 1) (next :: rest) := rfl

/-- The first of several cells, the separator behind it and the others stand side by side. -/
theorem spells_cells_cons_cons {document : Text} {start : Nat} {cell next : WrittenCell}
    {rest : List WrittenCell}
    (spells : Spells document ⟨start, start + (cellsText (cell :: next :: rest)).size⟩
      (cellsText (cell :: next :: rest))) :
    Spells document ⟨start, start + cell.text.size⟩ cell.text ∧
      Spells document ⟨start + cell.text.size, start + cell.text.size + 1⟩ ['&'] ∧
      Spells document ⟨start + cell.text.size + 1,
        start + cell.text.size + 1 + (cellsText (next :: rest)).size⟩ (cellsText (next :: rest)) := by
  have ampersand : Text.size ['&'] = 1 := by decide
  rw [cellsText_cons_cons] at spells
  have behind : Spells document _ (['&'] ++ cellsText (next :: rest)) := spells.back
  have separator := behind.front
  have others := behind.back
  rw [ampersand] at separator others
  exact ⟨spells.front, separator, others⟩

/-- What is read off an entry wherever it stands is read off all cells of a row. -/
theorem map_layCells {α : Type} {document : Text} {start : Nat} {cells : List WrittenCell}
    {read : Cell → α} {written : Entry → α}
    (each : ∀ (start : Nat) (entry : Entry),
      Spells document ⟨start, start + entry.text.size⟩ entry.text →
        read (entry.laid start) = written entry)
    (spells : Spells document ⟨start, start + (cellsText cells).size⟩ (cellsText cells)) :
    (layCells start cells).map read = cells.map fun cell => written cell.entry := by
  have ofCell {start : Nat} {cell : WrittenCell}
      (spells : Spells document ⟨start, start + cell.text.size⟩ cell.text) :
      read (cell.entry.laid (start + cell.before.size)) = written cell.entry :=
    each _ _ (spells.middle (show cell.text = cell.before ++ cell.entry.text ++ cell.after from rfl))
  induction cells generalizing start with
  | nil => rfl
  | cons cell rest ih =>
      cases rest with
      | nil => simpa [layCells] using ofCell spells
      | cons next rest =>
          obtain ⟨first, -, others⟩ := spells_cells_cons_cons spells
          rw [layCells_cons_cons, List.map_cons, ofCell first, ih others]
          rfl

theorem map_outlineCell_layCells {table : Table} {start : Nat} {cells : List WrittenCell}
    (spells : Spells table.document ⟨start, start + (cellsText cells).size⟩ (cellsText cells)) :
    (layCells start cells).map table.outlineCell = cells.map (·.entry.outline) :=
  map_layCells (fun _ _ => Entry.outlineCell_laid) spells

theorem totalWidth_layCells (start : Nat) (cells : List WrittenCell) :
    Row.totalWidth (layCells start cells) = (cells.map (·.entry.width)).sum := by
  induction cells generalizing start with
  | nil => rfl
  | cons cell rest ih => simp [layCells, Row.totalWidth, ih, Entry.width_laid]

theorem length_layRules (start : Nat) (gaps : List Text) :
    (layRules start gaps).length = gaps.length := by
  induction gaps generalizing start with
  | nil => rfl
  | cons gap rest ih => simp [layRules, ih]

/-- Rules stand within their text. -/
theorem bounds_of_mem_layRules {start : Nat} {gaps : List Text} {span : Span}
    (member : span ∈ layRules start gaps) :
    start < span.stop ∧ span.stop ≤ start + (rulesText gaps).size := by
  induction gaps generalizing start with
  | nil => simp [layRules] at member
  | cons gap rest ih =>
      rw [size_rulesText_cons]
      cases member with
      | head =>
          dsimp only
          omega
      | tail _ member =>
          have := ih member
          omega

namespace WrittenRow

/-- A row without its text, filled up to a number of columns. -/
def outline (columnCount : Nat) (row : WrittenRow) : Outline.Row where
  rules := row.ruleGaps.length
  cells := row.cells.map (·.entry.outline)
    ++ List.replicate (columnCount - row.width) Outline.Cell.blank

/-- The rules in front of a row count as its own, those behind it do not. -/
theorem countP_rules_laid (start : Nat) (row : WrittenRow) {closing : List Span}
    (behind : ∀ span ∈ closing, start + row.text.size < span.stop) :
    (layRules start row.ruleGaps ++ closing).countP (·.stop ≤ start + row.text.size)
      = row.ruleGaps.length ∧
    (layRules start row.ruleGaps ++ closing).countP (start + row.text.size < ·.stop)
      = closing.length := by
  have own : ∀ span ∈ layRules start row.ruleGaps, span.stop ≤ start + row.text.size := by
    intro span member
    have bounds := (bounds_of_mem_layRules member).2
    simp only [text, Text.size_append]
    omega
  constructor
  · have none : closing.countP (·.stop ≤ start + row.text.size) = 0 := by
      rw [List.countP_eq_zero]
      intro span member
      simpa using behind span member
    have all : (layRules start row.ruleGaps).countP (·.stop ≤ start + row.text.size)
        = (layRules start row.ruleGaps).length := by
      rw [List.countP_eq_length]
      intro span member
      simpa using own span member
    rw [List.countP_append, none, all, length_layRules, Nat.add_zero]
  · have none : (layRules start row.ruleGaps).countP (start + row.text.size < ·.stop) = 0 := by
      rw [List.countP_eq_zero]
      intro span member
      simpa using own span member
    have all : closing.countP (start + row.text.size < ·.stop) = closing.length := by
      rw [List.countP_eq_length]
      intro span member
      simpa using behind span member
    rw [List.countP_append, none, all, Nat.zero_add]

variable {table : Table} {start : Nat} {row : WrittenRow}

theorem outlineRow_laid (columnCount : Nat) {closing : List Span}
    (behind : ∀ span ∈ closing, start + row.text.size < span.stop)
    (spells : Spells table.document ⟨start, start + row.text.size⟩ row.text) :
    table.outlineRow (Row.padded columnCount
        { row.laid start with rules := layRules start row.ruleGaps ++ closing })
      = row.outline columnCount := by
  have inRow : row.text = rulesText row.ruleGaps ++ cellsText row.cells ++ "\\\\".toList := rfl
  have cells := map_outlineCell_layCells (spells.middle inRow)
  have width : Row.totalWidth (layCells (row.cellsStart start) row.cells) = row.width :=
    totalWidth_layCells _ _
  have rules := (countP_rules_laid start row behind).1
  have blank (offset : Nat) :
      table.outlineCell (Cell.blank offset) = Outline.Cell.blank := rfl
  simp only [Table.outlineRow, Row.padded, laid, outline, rules, width, List.map_append,
    List.map_replicate, blank]
  exact congrArg _ (congrArg (· ++ _) cells)

end WrittenRow

theorem layRows_cons_cons (start : Nat) (closing : List Span) (row next : WrittenRow)
    (rest : List WrittenRow) :
    layRows start closing (row :: next :: rest)
      = row.laid start :: layRows (start + row.text.size) closing (next :: rest) := rfl

theorem map_outlineRow_layRows {table : Table} {start : Nat} (columnCount : Nat)
    {closing : List Span} {rows : List WrittenRow}
    (behind : ∀ span ∈ closing, start + (Sheet.rowsText rows).size < span.stop)
    (spells : Spells table.document ⟨start, start + (Sheet.rowsText rows).size⟩
      (Sheet.rowsText rows)) :
    ((layRows start closing rows).map (Row.padded columnCount)).map table.outlineRow
      = rows.map (WrittenRow.outline columnCount) := by
  induction rows generalizing start with
  | nil => rfl
  | cons row rest ih =>
      rw [Sheet.rowsText_cons] at behind spells
      cases rest with
      | nil =>
          rw [show Sheet.rowsText [] = [] from rfl, List.append_nil] at behind
          simp only [layRows, List.map_cons, List.map_nil,
            WrittenRow.outlineRow_laid columnCount behind spells.front]
      | cons next rest =>
          rw [Text.size_append, ← Nat.add_assoc] at behind
          have others := @ih (start + row.text.size) behind spells.back
          have ofFirst := @WrittenRow.outlineRow_laid table start row columnCount [] (by simp)
            spells.front
          rw [List.append_nil] at ofFirst
          rw [layRows_cons_cons, List.map_cons, List.map_cons, others, List.map_cons]
          exact congrArg (· :: _) ofFirst

namespace Sheet

/-- A sheet without the white space of its tokens, for the heading that its specifier
writes. -/
def outline (sheet : Sheet) (heading : Heading) : Outline where
  heading := heading
  rows := sheet.rows.map (WrittenRow.outline heading.letters.length)
  closingRules := sheet.closingGaps.length

variable {sheet : Sheet}

theorem spells_rowsText (sheet : Sheet) :
    Spells sheet.text ⟨sheet.bodyStart, sheet.bodyStart + (rowsText sheet.rows).size⟩
      (rowsText sheet.rows) := by
  have closed : Text.size ['}'] = 1 := by decide
  have spells := Spells.of_append (sheet.front ++ sheet.specifier ++ ['}'])
    (rowsText sheet.rows) (sheet.closingText ++ closing ++ sheet.trail)
  have textEq : sheet.front ++ sheet.specifier ++ ['}'] ++ rowsText sheet.rows
      ++ (sheet.closingText ++ closing ++ sheet.trail) = sheet.text := by
    simp [text, body]
  have startEq : Text.size (sheet.front ++ sheet.specifier ++ ['}']) = sheet.bodyStart := by
    simp only [Text.size_append, closed]
    rfl
  rwa [textEq, startEq] at spells

theorem specifier_table (sheet : Sheet) : sheet.table.specifier = sheet.specifier := by
  have textEq : sheet.text
      = sheet.front ++ sheet.specifier ++ ('}' :: sheet.body ++ closing ++ sheet.trail) := by
    simp [text]
  simp only [Table.specifier, Table.slice, table, textEq]
  exact Text.slice_append _ _ _

theorem getLast?_layRows {start : Nat} {closing : List Span} {rows : List WrittenRow}
    (nonempty : rows ≠ []) :
    ∃ (offset : Nat) (row : WrittenRow), (layRows start closing rows).getLast?
        = some { row.laid offset with rules := layRules offset row.ruleGaps ++ closing } ∧
      offset + row.text.size = start + (rowsText rows).size := by
  induction rows generalizing start with
  | nil => exact absurd rfl nonempty
  | cons row rest ih =>
      cases rest with
      | nil => exact ⟨start, row, rfl, by simp [rowsText]⟩
      | cons next rest =>
          obtain ⟨offset, last, isLast, stop⟩ := @ih (start + row.text.size) (List.cons_ne_nil _ _)
          refine ⟨offset, last, ?_, ?_⟩
          · rw [layRows_cons_cons, List.getLast?_cons, isLast]
            rfl
          · rw [stop, rowsText_cons row, Text.size_append, Nat.add_assoc]

/-- The table of a sheet says what the sheet says. -/
theorem shows_outline {heading : Heading} (nonempty : sheet.rows ≠ [])
    (specifier : sheet.specifier = heading.text) (wellFormed : heading.WellFormed) :
    sheet.table.Shows (sheet.outline heading) := by
  have columns : sheet.table.columns = heading.columns := by
    rw [Table.columns, specifier_table, specifier, heading.columns_text wellFormed]
  have columnCount : sheet.columnCount = heading.letters.length := by
    rw [Sheet.columnCount, specifier, heading.columns_text wellFormed, heading.length_columns]
  have behind : ∀ span ∈ layRules (sheet.bodyStart + (rowsText sheet.rows).size)
      sheet.closingGaps, sheet.bodyStart + (rowsText sheet.rows).size < span.stop :=
    fun span member => (bounds_of_mem_layRules member).1
  constructor
  · rw [specifier_table, specifier]
    rfl
  · exact columns
  · have rows := @map_outlineRow_layRows sheet.table sheet.bodyStart sheet.columnCount _ _ behind
      sheet.spells_rowsText
    rw [columnCount] at rows
    simp only [table, laidRows, columnCount]
    exact rows
  · obtain ⟨offset, last, isLast, stop⟩ := @getLast?_layRows sheet.bodyStart
      (layRules (sheet.bodyStart + (rowsText sheet.rows).size) sheet.closingGaps) _ nonempty
    rw [← stop] at behind
    have rules := (last.countP_rules_laid offset behind).2
    simp only [Table.closingRules, table, laidRows, List.getLast?_map, isLast, Option.map_some,
      Option.getD_some, outline]
    rw [length_layRules] at rules
    rw [← stop]
    exact rules

end Sheet

end LatexTabular
