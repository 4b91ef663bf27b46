import LatexTabular.Proofs.Border.Frame
import LatexTabular.Proofs.Border.OpenSheet
import LatexTabular.Proofs.Sheet.Parts

/-!
# Frames of open sheets

The rules of a row count as leading or trailing by their place beside its cells, of which the
last may be empty and then stands behind the rules in front of the terminator.  The table of an
open sheet has the frame that the sheet writes (`OpenSheet.frame_table`).
-/

namespace LatexTabular

open Text Body

theorem layCellsTo_ne_nil {stop? : Option Nat} {start : Nat} {cells : List WrittenCell}
    (nonempty : cells ≠ []) : layCellsTo stop? start cells ≠ [] := by
  cases cells with
  | nil => exact absurd rfl nonempty
  | cons cell rest =>
      cases rest with
      | nil =>
          unfold layCellsTo
          split <;> exact List.cons_ne_nil _ _
      | cons next rest => exact List.cons_ne_nil _ _

/-- The first cell starts within the text of the cells, unless it is an only one that is moved. -/
theorem exists_head?_layCellsTo {stop? : Option Nat} {start : Nat} {cells : List WrittenCell}
    (nonempty : cells ≠ []) (fills : stop? ≠ none → cells.map (·.entry.text) ≠ [[]]) :
    ∃ first, (layCellsTo stop? start cells).head? = some first ∧
      start ≤ first.extent.start ∧ first.extent.start ≤ start + (cellsText cells).size := by
  have laidStart (start : Nat) (entry : Entry) : (entry.laid start).extent.start = start := by
    cases entry <;> rfl
  cases cells with
  | nil => exact absurd rfl nonempty
  | cons cell rest =>
      cases rest with
      | nil =>
          unfold layCellsTo
          split
          next empty =>
            cases stop? with
            | none => exact ⟨_, rfl, Nat.le_refl _, Nat.le_add_right _ _⟩
            | some stop => exact absurd (by simp [empty]) (fills (Option.some_ne_none stop))
          next =>
            refine ⟨_, rfl, ?_⟩
            rw [laidStart]
            simp only [cellsText, WrittenCell.text, Text.size_append]
            omega
      | cons next rest =>
          refine ⟨_, rfl, ?_⟩
          rw [laidStart]
          simp only [cellsText_cons_cons, WrittenCell.text, Text.size_append]
          omega

/-- The last cell ends within the text of the cells, unless it is empty and moved. -/
theorem exists_getLast?_layCellsTo {stop? : Option Nat} {start : Nat} {cells : List WrittenCell}
    (nonempty : cells ≠ []) (wellFormed : ∀ cell ∈ cells, cell.WellFormed) :
    ∃ last offset, (layCellsTo stop? start cells).getLast? = some last ∧
      start ≤ offset ∧ offset ≤ start + (cellsText cells).size ∧
      ((∀ cell ∈ cells.getLast?, cell.after = []) → offset = start + (cellsText cells).size) ∧
      last.extent.stop = if cells.getLast?.map (·.entry.text) = some [] then stop?.getD offset
        else offset := by
  have laidStop (start : Nat) (entry : Entry) :
      (entry.laid start).extent.stop = start + entry.text.size := by
    cases entry <;> rfl
  induction cells generalizing start with
  | nil => exact absurd rfl nonempty
  | cons cell rest ih =>
      cases rest with
      | nil =>
          by_cases empty : cell.entry.text = []
          · have before := (wellFormed cell List.mem_cons_self).anchored empty
            refine ⟨.blank (stop?.getD start), start, by simp [layCellsTo, empty], Nat.le_refl _,
              Nat.le_add_right _ _, fun flush => ?_, ?_⟩
            · simp [cellsText, WrittenCell.text, empty, before, flush cell rfl]
            · simp [empty, Cell.blank, Span.point]
          · refine ⟨cell.entry.laid (start + cell.before.size),
              start + cell.before.size + cell.entry.text.size, by simp [layCellsTo, empty], ?_, ?_,
              fun flush => ?_, ?_⟩
            · omega
            · simp only [cellsText, WrittenCell.text, Text.size_append]
              omega
            · simp [cellsText, WrittenCell.text, flush cell rfl, Nat.add_assoc]
            · simp [empty, laidStop]
      | cons next rest =>
          obtain ⟨last, offset, isLast, begins, ends, flush, stop⟩ :=
            @ih (start + cell.text.size + 1) (List.cons_ne_nil _ _)
              fun other member => wellFormed other (List.mem_cons_of_mem _ member)
          have separator : '&'.utf8Size = 1 := by decide
          have size : (cellsText (cell :: next :: rest)).size
              = cell.text.size + (1 + (cellsText (next :: rest)).size) := by
            rw [cellsText_cons_cons, Text.size_append, Text.size_cons, separator]
          refine ⟨last, offset, ?_, by omega, by omega, fun after => ?_, ?_⟩
          · rw [layCellsTo_cons_cons, List.getLast?_cons, isLast]
            rfl
          · have := flush (by simpa using after)
            omega
          · simpa using stop

/-- Empty cells differ in their place only, so what ignores it is the same of cells that are
moved. -/
theorem map_layCellsTo {α : Type} {read : Cell → α}
    (unplaced : ∀ offset offset', read (.blank offset) = read (.blank offset'))
    (stop? : Option Nat) (start : Nat) (cells : List WrittenCell) :
    (layCellsTo stop? start cells).map read = (layCells start cells).map read := by
  induction cells generalizing start with
  | nil => rfl
  | cons cell rest ih =>
      cases rest with
      | nil =>
          unfold layCellsTo
          split
          next empty =>
            rw [layCells, layCells, Entry.eq_blank_of_text_eq_nil empty]
            exact congrArg (· :: []) (unplaced _ _)
          next => rfl
      | cons next rest =>
          rw [layCellsTo_cons_cons, layCells_cons_cons, List.map_cons, List.map_cons, ih]

/-- Rules start within their text and are not empty. -/
theorem start_of_mem_layRules {start : Nat} {gaps : List Text} {span : Span}
    (member : span ∈ layRules start gaps) : start ≤ span.start ∧ span.start < span.stop := by
  induction gaps generalizing start with
  | nil => exact absurd member List.not_mem_nil
  | cons gap rest ih =>
      cases member with
      | head =>
          dsimp only
          omega
      | tail _ member =>
          have := ih member
          omega

/-- Blank cells that fill up a row stand at its end and change no place of a rule. -/
theorem Table.frameRow_padded (table : Table) {row : Row} (columnCount : Nat)
    (nonempty : row.cells ≠ []) :
    table.frameRow (row.padded columnCount)
      = { table.frameRow row with
          cells := row.cells.map table.outlineCell
            ++ List.replicate (columnCount - Row.totalWidth row.cells) .blank } := by
  have blank (offset : Nat) : table.outlineCell (.blank offset) = Outline.Cell.blank := rfl
  have isLast := List.getLast?_eq_some_getLast nonempty
  generalize row.cells.getLast nonempty = last at isLast
  have first (others : List Cell) : (row.cells ++ others).head? = row.cells.head? := by
    rw [List.head?_append, Option.or_of_isSome (List.isSome_head?.mpr nonempty)]
  have stop (count : Nat) :
      (row.cells ++ List.replicate count (Cell.blank last.extent.stop)).getLast?.map
        (·.extent.stop) = some last.extent.stop := by
    rw [List.getLast?_append, isLast, List.getLast?_replicate]
    split <;> rfl
  simp only [frameRow, Row.padded, first, isLast, Option.map_some, Option.getD_some, stop,
    List.map_append, List.map_replicate, blank]

namespace WrittenRow

/-- A terminated row without its places, filled up to a number of columns. -/
def frame (columnCount : Nat) (row : WrittenRow) : Frame.Row where
  leading := row.ruleGaps.length
  trailing := 0
  rules := row.ruleGaps.length
  cells := (row.outline columnCount).cells
  separators := row.cells.length - 1
  terminated := true

/-- A row that nothing stands behind. -/
def ending (row : WrittenRow) : Ending := ⟨row, [], [], some ⟨[], []⟩⟩

theorem wellFormed_ending {row : WrittenRow} (wellFormed : row.WellFormed)
    (detached : row.Detached) : row.ending.WellFormed := by
  refine ⟨wellFormed, detached, ?_, Text.isSpace_nil, ?_, ?_, nofun, ?_⟩
  · exact fun gap member => absurd member List.not_mem_nil
  · rintro _ ⟨⟩ gap member
    exact absurd member List.not_mem_nil
  · rintro _ ⟨⟩
    exact Text.isSpace_nil
  · rintro (⟨⟨⟩⟩ | nonempty)
    exact absurd rfl nonempty

theorem laid_ending (start : Nat) {row : WrittenRow} (wellFormed : row.WellFormed) :
    row.ending.laid start = row.laid start := by
  have cells := @layCellsTo_none (row.cellsStart start) _ wellFormed.cells
  have size : (row.ending.terminatorStop start) = start + row.text.size := by
    have two : Text.size "\\\\".toList = 2 := by decide
    simp only [Ending.terminatorStop, Ending.rulesStop, Ending.rulesStart, ending, opened, text,
      Text.size_append, two, rulesText, List.flatMap_nil, Text.size_nil]
    omega
  have terminatorStart : row.ending.rulesStop start + row.ending.gap.size
      = row.cellsStart start + (cellsText row.cells).size := by
    simp only [Ending.rulesStop, Ending.rulesStart, ending, opened, cellsStart, Text.size_append,
      rulesText, List.flatMap_nil, Text.size_nil]
    omega
  have anchor : row.ending.anchor? start = none := rfl
  have rules : row.ending.closingRules start = [] := rfl
  simp only [Ending.laid, anchor, rules, size, terminatorStart]
  simp only [ending, layRules, List.append_nil, cells, Option.map_some, laid]

end WrittenRow

namespace Ending

/-- The number of rules behind the terminator. -/
def closingCount (ending : Ending) : Nat := (ending.closing.map (·.gaps.length)).getD 0

/-- The number of rules behind the last cell. -/
def trailing (ending : Ending) : Nat :=
  (if ending.row.EndsBlank then 0 else ending.gaps.length) + ending.closingCount

/-- An ending without its places, filled up to a number of columns. -/
def frame (columnCount : Nat) (ending : Ending) : Frame.Row :=
  { ending.row.frame columnCount with
    trailing := ending.trailing
    rules := ending.row.ruleGaps.length + (ending.gaps.length + ending.closingCount)
    terminated := ending.closing.isSome }

variable {table : Table} {start : Nat} {ending : Ending}

theorem length_closingRules (start : Nat) (ending : Ending) :
    (ending.closingRules start).length = ending.closingCount := by
  unfold closingRules closingCount
  cases ending.closing with
  | none => rfl
  | some closing => exact length_layRules _ _

theorem start_of_mem_closingRules {span : Span} (member : span ∈ ending.closingRules start) :
    ending.terminatorStop start ≤ span.start ∧ span.start < span.stop := by
  unfold closingRules at member
  cases closed : ending.closing with
  | none =>
      rw [closed] at member
      exact absurd member List.not_mem_nil
  | some closing =>
      rw [closed] at member
      exact start_of_mem_layRules member

theorem size_cells (start : Nat) (ending : Ending) :
    ending.row.cellsStart start + (cellsText ending.row.cells).size = ending.rulesStart start := by
  simp only [rulesStart, WrittenRow.opened, WrittenRow.cellsStart, Text.size_append, Nat.add_assoc]

/-- The first cell of an ending starts in front of the rules behind the cells. -/
theorem exists_head?_laid (wellFormed : ending.WellFormed) :
    ∃ first, (ending.laid start).cells.head? = some first ∧
      ending.row.cellsStart start ≤ first.extent.start ∧
      first.extent.start ≤ ending.rulesStart start := by
  rw [← size_cells]
  refine exists_head?_layCellsTo wellFormed.row.nonempty fun moved => ?_
  refine wellFormed.fills (Or.inr fun none => moved ?_)
  rw [anchor?, if_pos none]

/-- The last cell of an ending ends in front of these rules, or behind them if it is empty. -/
theorem exists_getLast?_laid (wellFormed : ending.WellFormed) :
    ∃ last, (ending.laid start).cells.getLast? = some last ∧
      ending.row.cellsStart start ≤ last.extent.stop ∧
      last.extent.stop ≤ ending.rulesStop start ∧
      (¬ ending.row.EndsBlank → last.extent.stop ≤ ending.rulesStart start) ∧
      (ending.row.EndsBlank → ending.gaps ≠ [] → last.extent.stop = ending.rulesStop start) ∧
      (ending.closing = none → last.extent.stop
        = if ending.row.EndsBlank then ending.rulesStop start else ending.rulesStart start) := by
  obtain ⟨last, offset, isLast, begins, ends, flush, stop⟩ := @exists_getLast?_layCellsTo
    (ending.anchor? start) (ending.row.cellsStart start) _ wellFormed.row.nonempty
    wellFormed.row.cells
  have rules : ending.rulesStart start ≤ ending.rulesStop start := Nat.le_add_right _ _
  rw [size_cells] at ends flush
  have stopEq : last.extent.stop = if ending.row.EndsBlank ∧ ending.gaps ≠ []
      then ending.rulesStop start else offset := by
    have blank : (ending.row.cells.getLast?.map (·.entry.text) = some []) = ending.row.EndsBlank :=
      rfl
    simp only [stop, anchor?, blank]
    by_cases moves : ending.row.EndsBlank <;> by_cases gapsEq : ending.gaps = [] <;>
      simp [moves, gapsEq]
  refine ⟨last, isLast, ?_, ?_, fun filled => ?_, fun blank nonempty => ?_, fun unclosed => ?_⟩
  · rw [stopEq]
    split_ifs <;> omega
  · rw [stopEq]
    split_ifs <;> omega
  · rw [stopEq, if_neg fun both => filled both.1]
    exact ends
  · rw [stopEq, if_pos ⟨blank, nonempty⟩]
  · rw [stopEq, flush (wellFormed.flush unclosed)]
    by_cases gapsEq : ending.gaps = []
    · have same : ending.rulesStop start = ending.rulesStart start := by
        rw [rulesStop, gapsEq]
        rfl
      simp [gapsEq, same]
    · simp [gapsEq]

/-- The rules in front of the cells of an ending lead, those behind them do not. -/
theorem countP_leading {first : Cell}
    (begins : ending.row.cellsStart start ≤ first.extent.start)
    (ends : first.extent.start ≤ ending.rulesStart start) :
    (ending.laid start).rules.countP (·.stop ≤ first.extent.start)
      = ending.row.ruleGaps.length := by
  have front : (layRules start ending.row.ruleGaps).countP (·.stop ≤ first.extent.start)
      = (layRules start ending.row.ruleGaps).length := by
    rw [List.countP_eq_length]
    intro span member
    have := (bounds_of_mem_layRules member).2
    rw [WrittenRow.cellsStart] at begins
    simpa using by omega
  have behind : (layRules (ending.rulesStart start) ending.gaps
      ++ ending.closingRules start).countP (·.stop ≤ first.extent.start) = 0 := by
    rw [List.countP_eq_zero]
    intro span member
    rcases List.mem_append.mp member with inRules | inClosing
    · have := bounds_of_mem_layRules inRules
      simpa using by omega
    · have := start_of_mem_closingRules inClosing
      rw [terminatorStop, rulesStop] at this
      simpa using by omega
  rw [laid, List.countP_append, front, behind, length_layRules, Nat.add_zero]

/-- The rules behind the cells of an ending trail, unless the last cell stands behind them. -/
theorem countP_trailing (wellFormed : ending.WellFormed) {last : Cell}
    (isLast : (ending.laid start).cells.getLast? = some last) :
    (ending.laid start).rules.countP (last.extent.stop ≤ ·.start) = ending.trailing := by
  obtain ⟨_, isLast', begins, ends, filled, moved, -⟩ := @exists_getLast?_laid start _ wellFormed
  obtain rfl := Option.some.inj (isLast.symm.trans isLast')
  have front : (layRules start ending.row.ruleGaps).countP (last.extent.stop ≤ ·.start) = 0 := by
    rw [List.countP_eq_zero]
    intro span member
    have := (bounds_of_mem_layRules member).2
    have := start_of_mem_layRules member
    rw [WrittenRow.cellsStart] at begins
    simpa using by omega
  have middle : (layRules (ending.rulesStart start) ending.gaps).countP
      (last.extent.stop ≤ ·.start)
        = if ending.row.EndsBlank then 0 else ending.gaps.length := by
    split
    next blank =>
      rw [List.countP_eq_zero]
      intro span member
      have nonempty : ending.gaps ≠ [] := by
        rintro none
        rw [none] at member
        exact absurd member List.not_mem_nil
      have := moved blank nonempty
      have := (bounds_of_mem_layRules member).2
      have := start_of_mem_layRules member
      rw [rulesStop] at *
      simpa using by omega
    next blank =>
      rw [← length_layRules (ending.rulesStart start), List.countP_eq_length]
      intro span member
      have := filled blank
      have := start_of_mem_layRules member
      simpa using by omega
  have behind : (ending.closingRules start).countP (last.extent.stop ≤ ·.start)
      = (ending.closingRules start).length := by
    rw [List.countP_eq_length]
    intro span member
    have := start_of_mem_closingRules member
    rw [terminatorStop] at this
    simpa using by omega
  rw [laid, List.countP_append, List.countP_append, front, middle, behind, length_closingRules,
    Nat.zero_add, trailing]

/-- The row of an ending has its frame. -/
theorem frameRow_laid (wellFormed : ending.WellFormed) (columnCount : Nat)
    (spells : Spells table.document ⟨start, start + ending.text.size⟩ ending.text) :
    table.frameRow ((ending.laid start).padded columnCount) = ending.frame columnCount := by
  have nonempty : (ending.laid start).cells ≠ [] := layCellsTo_ne_nil wellFormed.row.nonempty
  obtain ⟨first, isFirst, begins, ends⟩ := @exists_head?_laid start _ wellFormed
  have isLast := List.getLast?_eq_some_getLast nonempty
  generalize (ending.laid start).cells.getLast nonempty = last at isLast
  have leading := countP_leading begins ends
  have trailing := countP_trailing wellFormed isLast
  have length : (ending.laid start).rules.length = ending.row.ruleGaps.length
      + (ending.gaps.length + ending.closingCount) := by
    simp only [laid, List.length_append, length_layRules, length_closingRules]
  have parts : ending.text = rulesText ending.row.ruleGaps ++ cellsText ending.row.cells
      ++ (rulesText ending.gaps ++ (ending.gap ++ ending.closingText)) := rfl
  have cells : (ending.laid start).cells.map table.outlineCell
      = ending.row.cells.map (·.entry.outline) := by
    refine (map_layCellsTo (fun _ _ => rfl) _ _ _).trans ?_
    exact map_outlineCell_layCells (spells.middle parts)
  have width : Row.totalWidth (ending.laid start).cells = ending.row.width := by
    have widths : (ending.laid start).cells.map Cell.width
        = (layCells (ending.row.cellsStart start) ending.row.cells).map Cell.width :=
      map_layCellsTo (fun _ _ => rfl) _ _ _
    rw [Row.totalWidth_eq_sum, widths, ← Row.totalWidth_eq_sum, totalWidth_layCells,
      WrittenRow.width]
  have separators : (ending.laid start).separators.length = ending.row.cells.length - 1 :=
    length_laySeparators _ _
  have terminated : (ending.laid start).terminator.isSome = ending.closing.isSome :=
    Option.isSome_map
  rw [Table.frameRow_padded table columnCount nonempty]
  simp only [Table.frameRow, isFirst, isLast, Option.map_some, Option.getD_some, leading, trailing,
    length, cells, width, separators, terminated]
  rfl

end Ending

namespace WrittenRow

variable {table : Table} {start : Nat} {row : WrittenRow}

theorem text_ending (row : WrittenRow) : row.ending.text = row.text := by
  simp [Ending.text, ending, Ending.closingText, Closing.text, rulesText, text, opened]

theorem frame_ending (columnCount : Nat) (row : WrittenRow) :
    row.ending.frame columnCount = row.frame columnCount := by
  have none : row.ending.trailing = 0 := ite_self (0 : Nat)
  rw [Ending.frame, none]
  rfl

/-- So has a terminated row. -/
theorem frameRow_laid (wellFormed : row.WellFormed) (detached : row.Detached) (columnCount : Nat)
    (spells : Spells table.document ⟨start, start + row.text.size⟩ row.text) :
    table.frameRow ((row.laid start).padded columnCount) = row.frame columnCount := by
  rw [← text_ending] at spells
  have framed := Ending.frameRow_laid (wellFormed_ending wellFormed detached) columnCount spells
  rwa [laid_ending start wellFormed, frame_ending] at framed

end WrittenRow

theorem map_frameRow_layRows {table : Table} {start : Nat} {rows : List WrittenRow}
    (wellFormed : ∀ row ∈ rows, row.WellFormed) (detached : ∀ row ∈ rows, row.Detached)
    (columnCount : Nat) (spells : Spells table.document
      ⟨start, start + (Sheet.rowsText rows).size⟩ (Sheet.rowsText rows)) :
    ((layRows start [] rows).map (Row.padded columnCount)).map table.frameRow
      = rows.map (WrittenRow.frame columnCount) := by
  induction rows generalizing start with
  | nil => rfl
  | cons row rest ih =>
      rw [Sheet.rowsText_cons] at spells
      rw [layRows_nil_cons, List.map_cons, List.map_cons, List.map_cons,
        WrittenRow.frameRow_laid (wellFormed row List.mem_cons_self)
          (detached row List.mem_cons_self) columnCount spells.front,
        ih (fun other member => wellFormed other (List.mem_cons_of_mem _ member))
          (fun other member => detached other (List.mem_cons_of_mem _ member)) spells.back]

namespace OpenSheet

/-- What an open sheet says, with its rules. -/
def frame (sheet : OpenSheet) : Frame where
  specifier := sheet.specifier
  rows := sheet.rows.map (WrittenRow.frame (sheet.specifier.countP isLetter))
    ++ [sheet.ending.frame (sheet.specifier.countP isLetter)]

variable {sheet : OpenSheet}

theorem spells_body (sheet : OpenSheet) :
    Spells sheet.text ⟨sheet.bodyStart, sheet.bodyStart + sheet.body.size⟩ sheet.body := by
  have closed : Text.size ['}'] = 1 := by decide
  have spells := Spells.of_append (sheet.unread.front ++ sheet.specifier ++ ['}']) sheet.body
    (Sheet.closing ++ sheet.trail)
  have textEq : sheet.unread.front ++ sheet.specifier ++ ['}'] ++ sheet.body
      ++ (Sheet.closing ++ sheet.trail) = sheet.text := by
    rw [text_eq]
    simp [Sheet.front, unread]
  have startEq : Text.size (sheet.unread.front ++ sheet.specifier ++ ['}']) = sheet.bodyStart := by
    simp only [Text.size_append, closed]
    rfl
  rwa [textEq, startEq] at spells

theorem columnCount_unread (wellFormed : sheet.WellFormed) :
    sheet.unread.columnCount = sheet.specifier.countP isLetter :=
  (Specifier.columns_of_isBarred wellFormed.specifier).2

/-- The table of an open sheet has its frame. -/
theorem frame_table (wellFormed : sheet.WellFormed) : sheet.table.frame = sheet.frame := by
  have spells : Spells sheet.text _ (Sheet.rowsText sheet.rows ++ sheet.ending.text) :=
    sheet.spells_body
  have rows := @map_frameRow_layRows sheet.table sheet.bodyStart _ wellFormed.rows
    wellFormed.detached (sheet.specifier.countP isLetter) spells.front
  have ending := @Ending.frameRow_laid sheet.table sheet.endingStart _ wellFormed.ending
    (sheet.specifier.countP isLetter) spells.back
  have specifier : sheet.table.specifier = sheet.specifier := sheet.unread.specifier_table
  rw [Table.frame, specifier, frame, ← rows, ← ending]
  simp only [table, laidRows, columnCount_unread wellFormed, List.map_append, List.map_cons,
    List.map_nil]

end OpenSheet

end LatexTabular
