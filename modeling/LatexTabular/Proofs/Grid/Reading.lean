import LatexTabular.Proofs.Grid.Layout
import LatexTabular.Proofs.Sheet.Insertion
import Mathlib

/-!
# Reading a grid

Reading undoes writing: the only table of a grid says what the grid says, and the source
text of each of its tokens is what the grid has there (`Grid.read_text`).
-/

namespace LatexTabular

open Text

/-- The source texts of the tokens of a row. -/
structure Transcript where
  rules : List Text
  cells : List Text
  separators : List Text
  terminator : Option Text
  deriving DecidableEq, Repr

/-- Copy the tokens of a row from the document.  A merged cell is its whole command. -/
def Table.transcript (table : Table) (row : Row) : Transcript where
  rules := row.rules.map table.slice
  cells := row.cells.map fun cell => table.slice cell.outer
  separators := row.separators.map table.slice
  terminator := row.terminator.map table.slice

section Slices

variable {document : Text} {start : Nat}

theorem map_slice_layRules {gaps : List Text}
    (spells : Spells document ⟨start, start + (rulesText gaps).size⟩ (rulesText gaps)) :
    (layRules start gaps).map document.slice = List.replicate gaps.length "\\hline".toList := by
  have command : Text.size "\\hline".toList = 6 := by decide
  induction gaps generalizing start with
  | nil => rfl
  | cons gap rest ih =>
      rw [rulesText_cons] at spells
      have behind := spells.back
      have rule := behind.front
      have others := behind.back
      rw [command] at rule others
      rw [layRules, List.map_cons, rule.slice_eq, ih others, List.length_cons,
        List.replicate_succ]

theorem map_slice_laySeparators {cells : List WrittenCell}
    (spells : Spells document ⟨start, start + (cellsText cells).size⟩ (cellsText cells)) :
    (laySeparators start cells).map document.slice
      = List.replicate (cells.length - 1) "&".toList := by
  induction cells generalizing start with
  | nil => rfl
  | cons cell rest ih =>
      cases rest with
      | nil => rfl
      | cons next rest =>
          obtain ⟨-, separator, others⟩ := spells_cells_cons_cons spells
          have parted : laySeparators start (cell :: next :: rest)
              = ⟨start + cell.text.size, start + cell.text.size + 1⟩
                :: laySeparators (start + cell.text.size + 1) (next :: rest) := rfl
          rw [parted, List.map_cons, separator.slice_eq, ih others]
          rfl

theorem map_slice_layCells {cells : List WrittenCell}
    (spells : Spells document ⟨start, start + (cellsText cells).size⟩ (cellsText cells)) :
    (layCells start cells).map (fun cell => document.slice cell.outer)
      = cells.map (·.entry.text) := by
  refine map_layCells (fun start entry spells => ?_) spells
  rw [Entry.outer_laid]
  exact spells.slice_eq

end Slices

theorem Text.slice_point (text : Text) (offset : Nat) : slice text (.point offset) = [] := by
  have nothing (rest : Text) : takeBytes rest 0 = [] := by
    cases rest with
    | nil => rfl
    | cons head rest => simp [takeBytes, Nat.not_le.mpr head.utf8Size_pos]
  simp [slice, Span.point, Span.length, nothing]

namespace Grid

/-- The tokens of a row of a grid that is filled up to a number of columns, with rules
behind it. -/
def Row.transcript (columnCount closingRules : Nat) (row : Row) : Transcript where
  rules := List.replicate (row.rules + closingRules) "\\hline".toList
  cells := row.entries.map Entry.text ++ List.replicate (columnCount - row.width) []
  separators := List.replicate (row.entries.length - 1) "&".toList
  terminator := some "\\\\".toList

/-- The tokens of rows.  Rules behind the last row count as its own. -/
def transcripts (columnCount closingRules : Nat) : List Row → List Transcript
  | [] => []
  | [row] => [row.transcript columnCount closingRules]
  | row :: rest => row.transcript columnCount 0 :: transcripts columnCount closingRules rest

namespace Row

variable {table : Table} {start columnCount : Nat} {row : Row}

theorem transcript_laid {closing : List Span} {closingRules : Nat}
    (spells : Spells table.document ⟨start, start + row.written.text.size⟩ row.written.text)
    (closed : closing.map table.slice = List.replicate closingRules "\\hline".toList) :
    table.transcript (LatexTabular.Row.padded columnCount
        { row.written.laid start with rules := layRules start row.written.ruleGaps ++ closing })
      = row.transcript columnCount closingRules := by
  have rulesFirst : row.written.text = [] ++ rulesText row.written.ruleGaps
      ++ (cellsText row.written.cells ++ "\\\\".toList) := by
    simp [WrittenRow.text]
  have cellsNext : row.written.text = rulesText row.written.ruleGaps
      ++ cellsText row.written.cells ++ "\\\\".toList := rfl
  have terminatorLast : row.written.text = (rulesText row.written.ruleGaps
      ++ cellsText row.written.cells) ++ "\\\\".toList ++ [] := by
    rw [List.append_nil]
    rfl
  have entries := map_entry_spacedCells row.entries
  have texts : row.written.cells.map (fun cell : WrittenCell => cell.entry.text)
      = row.entries.map Entry.text := by
    conv => rhs; rw [← entries, List.map_map]
    rfl
  have count : row.written.cells.length = row.entries.length := by
    conv => rhs; rw [← entries, List.length_map]
    rfl
  have gaps : row.written.ruleGaps.length = row.rules := List.length_replicate
  have width : LatexTabular.Row.totalWidth (layCells (row.written.cellsStart start)
      row.written.cells) = row.width := by
    rw [totalWidth_layCells, ← width_written]
    rfl
  have rules := map_slice_layRules (spells.middle rulesFirst)
  have cells := map_slice_layCells (spells.middle cellsNext)
  have separators := map_slice_laySeparators (spells.middle cellsNext)
  have terminator := (spells.middle terminatorLast).slice_eq
  have terminatorSpan : (⟨row.written.cellsStart start + (cellsText row.written.cells).size,
        start + row.written.text.size⟩ : Span)
      = ⟨start + Text.size (rulesText row.written.ruleGaps ++ cellsText row.written.cells),
        start + Text.size (rulesText row.written.ruleGaps ++ cellsText row.written.cells)
          + Text.size "\\\\".toList⟩ := by
    rw [Text.size_append, WrittenRow.cellsStart, Nat.add_assoc start, Span.mk.injEq,
      ← Text.size_append, Nat.add_assoc start, ← Text.size_append]
    exact ⟨rfl, rfl⟩
  simp only [Text.size_nil, Nat.add_zero, gaps] at rules
  simp only [Table.transcript, LatexTabular.Row.padded, WrittenRow.laid, transcript, width,
    List.map_append, List.map_replicate, Option.map_some, Transcript.mk.injEq]
  refine ⟨?_, ?_, ?_, ?_⟩
  · rw [closed, List.replicate_add]
    exact congrArg (· ++ _) rules
  · rw [← texts]
    refine congrArg₂ (· ++ ·) cells (congrArg _ ?_)
    exact Text.slice_point _ _
  · rw [← count]
    exact separators
  · rw [terminatorSpan]
    exact congrArg some terminator

end Row

variable {grid : Grid}

theorem map_transcript_layRows {table : Table} {start columnCount closingRules : Nat}
    {closing : List Span} {rows : List Row}
    (spells : Spells table.document
      ⟨start, start + (Sheet.rowsText (rows.map Row.written)).size⟩
      (Sheet.rowsText (rows.map Row.written)))
    (closed : closing.map table.slice = List.replicate closingRules "\\hline".toList) :
    ((layRows start closing (rows.map Row.written)).map
        (LatexTabular.Row.padded columnCount)).map table.transcript
      = transcripts columnCount closingRules rows := by
  induction rows generalizing start with
  | nil => rfl
  | cons row rest ih =>
      rw [List.map_cons, Sheet.rowsText_cons] at spells
      have first := spells.front
      cases rest with
      | nil =>
          simp only [layRows, List.map_cons, List.map_nil, transcripts,
            Row.transcript_laid first closed]
      | cons next rest =>
          have others := @ih (start + row.written.text.size) spells.back
          have ofFirst := @Row.transcript_laid table start columnCount row [] 0 first rfl
          rw [List.append_nil] at ofFirst
          rw [List.map_cons, List.map_cons, layRows_cons_cons, List.map_cons, List.map_cons,
            transcripts, ← others]
          · exact congrArg (· :: _) ofFirst
          · exact List.cons_ne_nil _ _

/-- The rows of the table of a grid consist of the tokens of the grid. -/
theorem map_transcript_table (wellFormed : grid.WellFormed) :
    grid.sheet.table.rows.map grid.sheet.table.transcript
      = transcripts grid.columnCount grid.closingRules grid.rows := by
  have columnCount : grid.sheet.columnCount = grid.columnCount := by
    rw [wellFormed.regular.columnCount, length_letters_outline wellFormed]
  have gaps : grid.sheet.closingGaps.length = grid.closingRules := List.length_replicate
  have bodyParts : grid.sheet.text = (grid.sheet.front ++ grid.sheet.specifier ++ ['}']
      ++ Sheet.rowsText grid.sheet.rows) ++ rulesText grid.sheet.closingGaps
      ++ (grid.sheet.closingGap ++ Sheet.closing ++ grid.sheet.trail) := by
    simp [Sheet.text, Sheet.body, Sheet.closingText]
  have closedStart : Text.size (grid.sheet.front ++ grid.sheet.specifier ++ ['}']
      ++ Sheet.rowsText grid.sheet.rows)
      = grid.sheet.bodyStart + (Sheet.rowsText grid.sheet.rows).size := by
    have closed : Text.size ['}'] = 1 := by decide
    simp only [Text.size_append, closed]
    rfl
  have closingSpells := Spells.of_append (grid.sheet.front ++ grid.sheet.specifier ++ ['}']
    ++ Sheet.rowsText grid.sheet.rows) (rulesText grid.sheet.closingGaps)
    (grid.sheet.closingGap ++ Sheet.closing ++ grid.sheet.trail)
  rw [← bodyParts, closedStart] at closingSpells
  have closed := map_slice_layRules closingSpells
  rw [gaps] at closed
  have laid := @map_transcript_layRows grid.sheet.table grid.sheet.bodyStart
    grid.sheet.columnCount grid.closingRules _ grid.rows grid.sheet.spells_rowsText closed
  rw [columnCount] at laid
  simp only [Sheet.table, Sheet.laidRows, columnCount]
  exact laid

/-- The first table of a grid is its only one, stands in no float and says what the
grid says: its specifier, its rules, and row by row its cells with their contents,
widths and embedded specifiers, followed by as many blank ones as the row is short of.
Each token is the one that the grid has there. -/
theorem read_text (wellFormed : grid.WellFormed) :
    ∃ table, Table.readFirst grid.text = .ok table ∧
      Table.readAll grid.text = .ok [table] ∧
      table.float = none ∧ table.specifier = grid.specifier ∧
      table.columnCount = grid.columnCount ∧ table.Shows grid.outline ∧
      table.rows.map table.transcript
        = transcripts grid.columnCount grid.closingRules grid.rows := by
  have regular := wellFormed.regular
  have guarded := Sheet.guarded_of_detached regular.wellFormed detached_sheet
  have all := Sheet.readAll_text regular.wellFormed
  have first := Sheet.readFirst_text regular.wellFormed
  have shows := regular.shows
  rw [Sheet.readTable_eq regular.wellFormed guarded, text_sheet wellFormed] at all first
  rw [outline_sheet wellFormed] at shows
  refine ⟨grid.sheet.table, first, all, rfl, grid.sheet.specifier_table, ?_, shows,
    map_transcript_table wellFormed⟩
  rw [Table.columnCount, shows.columns, Heading.length_columns, length_letters_outline wellFormed]

/-- The sample has a rule, a merged cell, a short row and a rule behind the last row. -/
theorem read_text_sample : sample.WellFormed ∧
    ∃ table, Table.readFirst sample.text = .ok table ∧ table.columnCount = 3 ∧
      (table.rows.map table.transcript)[1]?
        = some ⟨[], ["c".toList, [], []], [], some "\\\\".toList⟩ := by
  have wellFormed : sample.WellFormed := by decide +kernel
  obtain ⟨table, read, -, -, -, columnCount, -, tokens⟩ := read_text wellFormed
  refine ⟨wellFormed, table, read, ?_, ?_⟩
  · rw [columnCount]
    decide
  · rw [tokens]
    rfl

end Grid

end LatexTabular
