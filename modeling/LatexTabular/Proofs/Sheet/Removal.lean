import LatexTabular.Command.Removal
import LatexTabular.Proofs.Sheet.Gaps

/-!
# Columns removed from a row

The edits that remove columns from a row as it is read close the gap that the removed
cells leave in the row as it is written (`WrittenRow.rewrites_removeCells`).  Cells
that only fill the row have no text and go without an edit.
-/

namespace LatexTabular

open Text

variable {left right : Nat}

theorem Entry.extent_laid (offset : Nat) (entry : Entry) :
    (entry.laid offset).extent = ⟨offset, offset + entry.text.size⟩ := by
  cases entry <;> rfl

theorem getElem?_layCells (start : Nat) (before : List WrittenCell) (cell : WrittenCell)
    (behind : List WrittenCell) :
    (layCells start (before ++ cell :: behind))[before.length]?
      = some (cell.entry.laid (start + (frontText before).size + cell.before.size)) := by
  have length := length_layCells start before
  rw [layCells_append, List.getElem?_append_right (Nat.le_of_eq length), length, Nat.sub_self]
  rfl

theorem getElem?_laySeparators (start : Nat) (before : List WrittenCell)
    (cell next : WrittenCell) (behind : List WrittenCell) :
    (laySeparators start (before ++ cell :: next :: behind))[before.length]?
      = some ⟨start + (frontText before).size + cell.text.size,
        start + (frontText before).size + cell.text.size + 1⟩ := by
  have separator : '&'.utf8Size = 1 := by decide
  induction before generalizing start with
  | nil => rfl
  | cons first rest ih =>
      obtain ⟨second, others, restEq⟩ :=
        List.exists_cons_of_ne_nil (show rest ++ cell :: next :: behind ≠ [] by simp)
      have inRest := ih (start + first.text.size + 1)
      rw [restEq] at inRest
      rw [List.cons_append, restEq, laySeparators, List.length_cons, List.getElem?_cons_succ, inRest]
      · simp only [frontText_cons, Text.size_append, Text.size_cons, separator, Nat.add_assoc]
      · simp

theorem take_layCells (start count : Nat) (cells : List WrittenCell) :
    (layCells start cells).take count = layCells start (cells.take count) := by
  induction cells generalizing start count with
  | nil => simp [layCells]
  | cons cell rest ih =>
      cases count with
      | zero => rfl
      | succ count => simp only [layCells, List.take_succ_cons, ih]

/-- Shrinking alone rewrites a row of cells. -/
theorem rewrites_cellsText_shrunk {cells : List WrittenCell}
    (wellFormed : ∀ cell ∈ cells, cell.WellFormed) (start index first : Nat) :
    Rewrites start (cellsText cells)
      (shrinkEdits left right index first (layCells start cells))
      (cellsText (shrunkCells left right first cells)) := by
  cases cells with
  | nil => exact .refl _ _
  | cons cell rest =>
      have ofFirst := @WrittenCell.rewrites_shrunk left right _ (wellFormed cell List.mem_cons_self)
        start index first
      have others := @rewrites_backText_shrunk left right rest
        (fun other member => wellFormed other (List.mem_cons_of_mem _ member))
        (start + cell.text.size) (index + 1) (first + cell.entry.width)
      rw [layCells_cons, shrinkEdits_cons, Entry.width_laid, shrunkCells, cellsText_cons,
        cellsText_cons]
      exact ofFirst.append others

namespace WrittenRow

/-- A row as it is read, with some rules and filled up to a number of columns. -/
def filled (columnCount start : Nat) (rules : List Span) (row : WrittenRow) : Row :=
  Row.padded columnCount { row.laid start with rules }

variable {columnCount start : Nat} {rules : List Span} {row : WrittenRow}

/-- Where the cells stand that fill a row. -/
def fillStart (start : Nat) (row : WrittenRow) : Nat :=
  ((layCells (row.cellsStart start) row.cells).getLast?.map (·.extent.stop)).getD start

theorem cells_filled (columnCount start : Nat) (rules : List Span) (row : WrittenRow) :
    (row.filled columnCount start rules).cells
      = layCells (row.cellsStart start) row.cells
        ++ List.replicate (columnCount - row.width) (Cell.blank (row.fillStart start)) := by
  have width : Row.totalWidth (layCells (row.cellsStart start) row.cells) = row.width :=
    totalWidth_layCells _ _
  simp only [filled, Row.padded, laid, width]
  rfl

theorem separators_filled (columnCount start : Nat) (rules : List Span) (row : WrittenRow) :
    (row.filled columnCount start rules).separators
      = laySeparators (row.cellsStart start) row.cells := rfl

theorem fillStart_eq {front : List WrittenCell} {last : WrittenCell}
    (cellsEq : row.cells = front ++ [last]) :
    row.fillStart start = entryStop (row.cellsStart start) front last := by
  have isLast : (layCells (row.cellsStart start) row.cells).getLast?
      = some (last.entry.laid
        (row.cellsStart start + (frontText front).size + last.before.size)) := by
    rw [cellsEq, layCells_append, layCells_cons]
    simp [layCells]
  rw [fillStart, isLast, Option.map_some, Option.getD_some, Entry.extent_laid]
  rfl

theorem getElem?_cells_filled {front behind : List WrittenCell} {cell : WrittenCell}
    (cellsEq : row.cells = front ++ cell :: behind) :
    (row.filled columnCount start rules).cells[front.length]?
      = some (cell.entry.laid
        (row.cellsStart start + (frontText front).size + cell.before.size)) := by
  have written := getElem?_layCells (row.cellsStart start) front cell behind
  have length := length_layCells (row.cellsStart start) (front ++ cell :: behind)
  rw [cells_filled, cellsEq, List.getElem?_append_left (by rw [length]; simp)]
  exact written

/-- The last cell that goes with a run ends where the last written one of them does. -/
theorem exists_cell_filled {front behind : List WrittenCell} {last : WrittenCell} {index : Nat}
    (cellsEq : row.cells = front ++ last :: behind)
    (atEnd : index = front.length ∨ behind = [] ∧ front.length ≤ index)
    (within : index < (row.filled columnCount start rules).cells.length) :
    ∃ cell, (row.filled columnCount start rules).cells[index]? = some cell ∧
      cell.extent.stop = entryStop (row.cellsStart start) front last := by
  by_cases isWritten : index = front.length
  · subst isWritten
    exact ⟨_, getElem?_cells_filled cellsEq, congrArg Span.stop (Entry.extent_laid _ _)⟩
  · obtain ⟨rfl, le⟩ := atEnd.resolve_left isWritten
    have length := length_layCells (row.cellsStart start) (front ++ [last])
    have behindWritten : (layCells (row.cellsStart start) (front ++ [last])).length ≤ index := by
      rw [length, List.length_append, List.length_singleton]
      omega
    refine ⟨.blank (row.fillStart start), ?_, fillStart_eq cellsEq⟩
    rw [cells_filled, cellsEq, List.length_append, List.length_replicate] at within
    rw [cells_filled, cellsEq, List.getElem?_append_right behindWritten,
      List.getElem?_replicate_of_lt (by omega)]

/-- Behind a cell a run goes from the end of that cell. -/
theorem runSpan_of_previous {before removed behind : List WrittenCell}
    {previous last : WrittenCell} {count : Nat}
    (cellsEq : row.cells = before ++ [previous] ++ (removed ++ [last] ++ behind))
    (atEnd : count = removed.length + 1 ∨ behind = [] ∧ removed.length + 1 ≤ count)
    (within : before.length + 1 + count ≤ (row.filled columnCount start rules).cells.length) :
    Plan.RunSpan (row.filled columnCount start rules) (before.length + 1)
      (before.length + 1 + count - 1) ⟨entryStop (row.cellsStart start) before previous,
        entryStop (row.cellsStart start) (before ++ [previous] ++ removed) last⟩ := by
  have atLast : row.cells = before ++ [previous] ++ removed ++ last :: behind := by
    simp [cellsEq]
  have atPrevious : row.cells = before ++ previous :: (removed ++ [last] ++ behind) := by
    simp [cellsEq]
  obtain ⟨lastCell, isLast, lastStop⟩ := @exists_cell_filled columnCount start rules _ _ _ _
    (before.length + 1 + count - 1) atLast
    (atEnd.imp (fun _ => by simp; omega) (fun both => ⟨both.1, by simp; omega⟩)) (by omega)
  obtain ⟨previousCell, isPrevious, previousStop⟩ := @exists_cell_filled columnCount start rules
    _ _ _ _ before.length atPrevious (Or.inl rfl) (by omega)
  rw [← previousStop, ← lastStop]
  exact .fromPrevious (Nat.succ_ne_zero _) isPrevious isLast

/-- At the front of a row a run goes up to the next cell. -/
theorem runSpan_of_next {removed behind : List WrittenCell} {first next : WrittenCell}
    (cellsEq : row.cells = first :: removed ++ next :: behind) :
    Plan.RunSpan (row.filled columnCount start rules) 0 (0 + (removed.length + 1) - 1)
      ⟨row.cellsStart start + first.before.size,
        row.cellsStart start + (frontText (first :: removed)).size⟩ := by
  have separator : Text.size ['&'] = 1 := by decide
  obtain ⟨front, last, runEq⟩ : ∃ front last, first :: removed = front ++ [last] :=
    ⟨_, _, (List.dropLast_append_getLast (List.cons_ne_nil first removed)).symm⟩
  have length : front.length = removed.length := by
    have lengths := congrArg List.length runEq
    simp only [List.length_cons, List.length_append, List.length_nil] at lengths
    omega
  have atLast : row.cells = front ++ last :: next :: behind := by simp [cellsEq, runEq]
  have atFirst : row.cells = [] ++ first :: (removed ++ next :: behind) := cellsEq
  have isFirst := @getElem?_cells_filled columnCount start rules _ _ _ _ atFirst
  have isLast := @getElem?_cells_filled columnCount start rules _ _ _ _ atLast
  have isSeparator := getElem?_laySeparators (row.cellsStart start) front last next behind
  rw [← atLast, ← separators_filled columnCount start rules] at isSeparator
  have index : 0 + (removed.length + 1) - 1 = front.length := by omega
  have goes := Plan.RunSpan.toNext rfl isFirst (index ▸ isLast) (index ▸ isSeparator)
  simpa only [Entry.extent_laid, runEq, frontText_append, frontText_singleton, Text.size_append,
    separator, frontText_nil, Text.size_nil, Nat.add_zero, Nat.add_assoc] using goes

/-- All cells of a row go from the first to the last one. -/
theorem runSpan_of_all {removed : List WrittenCell} {first last : WrittenCell} {count : Nat}
    (cellsEq : row.cells = removed ++ [last]) (isFirst : (removed ++ [last]).head? = some first)
    (atEnd : removed.length + 1 ≤ count)
    (within : count ≤ (row.filled columnCount start rules).cells.length) :
    Plan.RunSpan (row.filled columnCount start rules) 0 (0 + count - 1)
      ⟨row.cellsStart start + first.before.size,
        entryStop (row.cellsStart start) removed last⟩ := by
  obtain ⟨rest, restEq⟩ := List.head?_eq_some_iff.mp isFirst
  have atFirst : row.cells = [] ++ first :: rest := cellsEq.trans restEq
  have firstCell := @getElem?_cells_filled columnCount start rules _ _ _ _ atFirst
  obtain ⟨lastCell, isLast, lastStop⟩ := @exists_cell_filled columnCount start rules _ _ _ _
    (0 + count - 1) cellsEq (Or.inr ⟨rfl, by omega⟩) (by omega)
  have noSeparator : (row.filled columnCount start rules).separators[0 + count - 1]? = none := by
    have length := length_laySeparators (row.cellsStart start) row.cells
    rw [List.getElem?_eq_none_iff, separators_filled, length, cellsEq]
    simp
    omega
  have goes := Plan.RunSpan.toEnd rfl firstCell isLast noSeparator
  rwa [Entry.extent_laid, lastStop] at goes

/-- A run behind a cell goes with the separator in front of it. -/
theorem removeRun_of_previous {before removed behind : List WrittenCell}
    {previous last : WrittenCell} {count : Nat}
    (cellsEq : row.cells = before ++ [previous] ++ (removed ++ [last] ++ behind))
    (atEnd : count = removed.length + 1 ∨ behind = [] ∧ removed.length + 1 ≤ count)
    (within : before.length + 1 + count ≤ (row.filled columnCount start rules).cells.length) :
    Plan.removeRun (row.filled columnCount start rules) (List.range' (before.length + 1) count)
      = [.deletion ⟨entryStop (row.cellsStart start) before previous,
        entryStop (row.cellsStart start) (before ++ [previous] ++ removed) last⟩] := by
  have separator : Text.size ['&'] = 1 := by decide
  have goes : (⟨entryStop (row.cellsStart start) before previous,
      entryStop (row.cellsStart start) (before ++ [previous] ++ removed) last⟩
        : Span).isEmpty = false := by
    simp only [Span.isEmpty, entryStop, frontText_append, frontText_singleton, Text.size_append,
      WrittenCell.text, separator, decide_eq_false_iff_not]
    omega
  rw [Plan.removeRun_eq (by omega) (runSpan_of_previous cellsEq atEnd within), goes]
  rfl

/-- A run at the front of a row goes with the separator behind it. -/
theorem removeRun_of_next {removed behind : List WrittenCell} {first next : WrittenCell}
    (cellsEq : row.cells = first :: removed ++ next :: behind) :
    Plan.removeRun (row.filled columnCount start rules) (List.range' 0 (removed.length + 1))
      = [.deletion ⟨row.cellsStart start + first.before.size,
        row.cellsStart start + (frontText (first :: removed)).size⟩] := by
  have goes : (⟨row.cellsStart start + first.before.size,
      row.cellsStart start + (frontText (first :: removed)).size⟩ : Span).isEmpty = false := by
    simp only [Span.isEmpty, frontText_cons, Text.size_append, decide_eq_false_iff_not,
      WrittenCell.text, Text.size_cons]
    have := '&'.utf8Size_pos
    omega
  rw [Plan.removeRun_eq (Nat.succ_ne_zero _) (runSpan_of_next cellsEq), goes]
  rfl

/-- Cells that only fill the row go without an edit. -/
theorem removeRun_of_le {first count : Nat} (nonempty : row.cells ≠ [])
    (behind : row.cells.length ≤ first)
    (within : first + count ≤ (row.filled columnCount start rules).cells.length) :
    Plan.removeRun (row.filled columnCount start rules) (List.range' first count) = [] := by
  obtain ⟨front, last, cellsEq⟩ : ∃ front last, row.cells = front ++ [last] :=
    ⟨_, _, (List.dropLast_append_getLast nonempty).symm⟩
  rw [cellsEq, List.length_append, List.length_singleton] at behind
  by_cases none : count = 0
  · subst none
    rfl
  · obtain ⟨lastCell, isLast, lastStop⟩ := @exists_cell_filled columnCount start rules _ _ _ _
      (first + count - 1) cellsEq (Or.inr ⟨rfl, by omega⟩) (by omega)
    obtain ⟨previous, isPrevious, previousStop⟩ := @exists_cell_filled columnCount start rules
      _ _ _ _ (first - 1) cellsEq (Or.inr ⟨rfl, by omega⟩) (by omega)
    have goes : Plan.RunSpan (row.filled columnCount start rules) first (first + count - 1)
        ⟨previous.extent.stop, lastCell.extent.stop⟩ := .fromPrevious (by omega) isPrevious isLast
    have empty : (⟨previous.extent.stop, lastCell.extent.stop⟩ : Span).isEmpty = true := by
      simp [Span.isEmpty, previousStop, lastStop]
    rw [Plan.removeRun_eq none goes, empty]
    rfl

section Parts

variable {before removed behind : List WrittenCell}

/-- The edits that shrink cells of a row around a run that goes. -/
theorem shrinkEdits_filled (cellsEq : row.cells = before ++ (removed ++ behind))
    (removes : ∀ index, ∀ place ∈ Row.placedFrom index (before.map (·.entry.width)).sum
      (layCells (row.cellsStart start + (frontText before).size) removed),
        Plan.Removes left right place) :
    shrinkEdits left right 0 0 (row.filled columnCount start rules).cells
      = shrinkEdits left right 0 0 (layCells (row.cellsStart start) before)
        ++ shrinkEdits left right (before.length + removed.length)
          ((before ++ removed).map (·.entry.width)).sum
          (layCells (row.cellsStart start + (frontText (before ++ removed)).size) behind) := by
  have none : shrinkEdits left right before.length (before.map (·.entry.width)).sum
      (layCells (row.cellsStart start + (frontText before).size) removed) = [] :=
    shrinkEdits_of_removes (removes _)
  rw [cells_filled, shrinkEdits_append, shrinkEdits_replicate_blank, List.append_nil, cellsEq,
    layCells_append, shrinkEdits_append, length_layCells, totalWidth_layCells, Nat.zero_add,
    Nat.zero_add, layCells_append, shrinkEdits_append, length_layCells, totalWidth_layCells, none,
    List.nil_append, frontText_append, Text.size_append, List.map_append, List.sum_append,
    Nat.add_assoc]

/-- The edits of a run that goes, with those that shrink the cells around it. -/
theorem rewrites_run {count : Nat} (wellFormed : row.WellFormed) (nonempty : removed ≠ [])
    (cellsEq : row.cells = before ++ (removed ++ behind))
    (atEnd : count = removed.length ∨ behind = [] ∧ removed.length ≤ count)
    (within : before.length + count ≤ (row.filled columnCount start rules).cells.length) :
    Rewrites (row.cellsStart start) (cellsText row.cells)
      (shrinkEdits left right 0 0 (layCells (row.cellsStart start) before)
        ++ shrinkEdits left right (before.length + removed.length)
          ((before ++ removed).map (·.entry.width)).sum
          (layCells (row.cellsStart start + (frontText (before ++ removed)).size) behind)
        ++ Plan.removeRun (row.filled columnCount start rules) (List.range' before.length count))
      (cellsText (closeGap (shrunkCells left right 0 before) removed
        (shrunkCells left right ((before ++ removed).map (·.entry.width)).sum behind))) := by
  have behindWellFormed : ∀ cell ∈ behind, cell.WellFormed :=
    fun cell member => wellFormed.cells cell (by simp [cellsEq, member])
  obtain ⟨run, last, rfl⟩ : ∃ run last, removed = run ++ [last] :=
    ⟨_, _, (List.dropLast_append_getLast nonempty).symm⟩
  rw [List.length_append, List.length_singleton] at atEnd
  rcases List.eq_nil_or_concat before with rfl | ⟨others, previous, beforeEq⟩
  · obtain ⟨first, rest, runEq⟩ := List.exists_cons_of_ne_nil nonempty
    have isFirst : (run ++ [last]).head? = some first := by rw [runEq, List.head?_cons]
    cases behind with
    | nil =>
        have all : row.cells = run ++ [last] := by simpa using cellsEq
        have goes := @runSpan_of_all columnCount start rules _ _ _ _ count all isFirst
          (by omega) (by simpa using within)
        rw [List.length_nil, Plan.removeRun_eq (by omega) goes, all]
        exact rewrites_closeGap_of_all isFirst
    | cons next behind =>
        have exact : count = rest.length + 1 := by
          have lengths := congrArg List.length runEq
          simp only [List.length_append, List.length_cons, List.length_nil] at lengths
          rcases atEnd with count | impossible
          · omega
          · exact absurd impossible.1 (List.cons_ne_nil _ _)
        rw [runEq, List.nil_append] at cellsEq
        have rewrites := @rewrites_closeGap_of_next left right (row.cellsStart start)
          (0 + (first :: rest).length)
          ((first :: rest).map fun cell : WrittenCell => cell.entry.width).sum
          rest behind first next behindWellFormed
        rw [exact, List.length_nil, removeRun_of_next cellsEq, runEq, cellsEq]
        exact rewrites.perm List.perm_append_comm
  · obtain rfl : before = others ++ [previous] := by simpa using beforeEq
    rw [List.length_append, List.length_singleton] at within
    have rewrites := @rewrites_closeGap_of_previous left right (row.cellsStart start) 0 0
      ((others ++ [previous]).length + (run ++ [last]).length)
      ((others ++ [previous] ++ (run ++ [last])).map (·.entry.width)).sum
      others run behind previous last
      (fun cell member => wellFormed.cells cell (by
        rw [cellsEq]
        exact List.mem_append_left _ member))
      behindWellFormed
    rw [← cellsEq] at rewrites
    refine rewrites.perm ?_
    rw [List.length_append, List.length_singleton, removeRun_of_previous cellsEq atEnd within,
      List.append_assoc]
    exact List.Perm.append_left _ List.perm_append_comm

end Parts

/-- A row without a run of its cells, and with the cells around it shrunk. -/
def withoutRun (left right first count : Nat) (row : WrittenRow) : WrittenRow :=
  { row with
    cells := closeGap (shrunkCells left right 0 (row.cells.take first))
      ((row.cells.drop first).take count)
      (shrunkCells left right ((row.cells.take (first + count)).map (·.entry.width)).sum
        (row.cells.drop (first + count))) }

/-- The cells of a row as it is read, parted where those of the row as it is written
are. -/
theorem parts_filled {before removed behind : List Cell}
    (cellsEq : (row.filled columnCount start rules).cells = before ++ (removed ++ behind))
    (written : before.length < row.cells.length) :
    before = layCells (row.cellsStart start) (row.cells.take before.length) ∧
      ∃ others, removed = layCells (row.cellsStart start
          + (frontText (row.cells.take before.length)).size)
        ((row.cells.drop before.length).take removed.length) ++ others := by
  have parts := layCells_append (row.cellsStart start) (row.cells.take before.length)
    (row.cells.drop before.length)
  have length : before.length
      = (layCells (row.cellsStart start) (row.cells.take before.length)).length := by
    rw [length_layCells, List.length_take]
    omega
  rw [List.take_append_drop] at parts
  rw [cells_filled, parts, List.append_assoc] at cellsEq
  obtain ⟨beforeEq, restEq⟩ := List.append_inj cellsEq length.symm
  refine ⟨beforeEq.symm, ?_⟩
  have taken := congrArg (List.take removed.length) restEq
  rw [List.take_left, List.take_append, take_layCells] at taken
  exact ⟨_, taken.symm⟩

theorem totalWidth_eq {cells : List Cell} {start : Nat} {written : List WrittenCell}
    (cellsEq : cells = layCells start written) :
    Row.totalWidth cells = (written.map (·.entry.width)).sum := by
  rw [cellsEq]
  exact totalWidth_layCells _ _

/-- The written cells of a row are parted as all of its cells are. -/
theorem parted_written {before removed behind : List Cell}
    (cellsEq : (row.filled columnCount start rules).cells = before ++ (removed ++ behind))
    (parted : Plan.Parted left right 0 before removed behind) :
    Plan.Parted left right 0
      (layCells (row.cellsStart start) (row.cells.take before.length))
      (layCells (row.cellsStart start + (frontText (row.cells.take before.length)).size)
        ((row.cells.drop before.length).take removed.length))
      (layCells (row.cellsStart start
          + (frontText (row.cells.take (before.length + removed.length))).size)
        (row.cells.drop (before.length + removed.length))) := by
  have length := length_layCells (row.cellsStart start) row.cells
  constructor
  · intro index place member
    refine parted.keepsBefore index place ?_
    have front := congrArg (List.take before.length) cellsEq
    rw [List.take_left, cells_filled, List.take_append, take_layCells] at front
    rw [← front, Row.placedFrom_append]
    exact List.mem_append_left _ member
  · intro index place member
    by_cases written : before.length < row.cells.length
    · obtain ⟨beforeEq, others, removedEq⟩ := parts_filled cellsEq written
      refine parted.removes index place ?_
      rw [← beforeEq] at member
      rw [removedEq, Row.placedFrom_append]
      exact List.mem_append_left _ member
    · rw [List.drop_of_length_le (Nat.le_of_not_lt written), List.take_nil] at member
      exact absurd member List.not_mem_nil
  · intro index place member
    by_cases written : before.length + removed.length < row.cells.length
    · refine parted.keepsBehind index place ?_
      have whole : (row.filled columnCount start rules).cells
          = (before ++ removed) ++ (behind ++ []) := by simp [cellsEq]
      obtain ⟨frontEq, others, behindEq⟩ := parts_filled whole
        (by rw [List.length_append]; exact written)
      have all : (row.cells.drop (before.length + removed.length)).length ≤ behind.length := by
        have lengths := congrArg List.length cellsEq
        rw [cells_filled, List.length_append, length, List.length_append, List.length_append]
          at lengths
        rw [List.length_drop]
        omega
      rw [List.length_append] at frontEq behindEq
      rw [List.take_of_length_le all] at behindEq
      have widthEq := totalWidth_eq frontEq
      rw [Row.totalWidth_append, List.take_add, List.map_append, List.sum_append,
        ← totalWidth_layCells (row.cellsStart start) (row.cells.take before.length),
        ← totalWidth_layCells (row.cellsStart start
          + (frontText (row.cells.take before.length)).size)
          ((row.cells.drop before.length).take removed.length)] at widthEq
      rw [Nat.add_assoc, ← widthEq, ← Nat.add_assoc] at member
      rw [behindEq, Row.placedFrom_append]
      exact List.mem_append_left _ member
    · rw [List.drop_of_length_le (Nat.le_of_not_lt written)] at member
      exact absurd member List.not_mem_nil

/-- Where no written cell goes, none that fills the row leaves an edit. -/
theorem removeRun_of_take_eq_nil {first count : Nat} (nonempty : row.cells ≠ [])
    (within : first + count ≤ (row.filled columnCount start rules).cells.length)
    (none : (row.cells.drop first).take count = []) :
    Plan.removeRun (row.filled columnCount start rules) (List.range' first count) = [] := by
  by_cases behindWritten : row.cells.length ≤ first
  · exact removeRun_of_le nonempty behindWritten within
  · have zero : count = 0 := by
      have length := congrArg List.length none
      rw [List.length_take, List.length_drop, List.length_nil] at length
      omega
    rw [zero]
    rfl

/-- Where no written cell goes, the cells that stay shrink only. -/
theorem cells_withoutRun_of_take_eq_nil {first count : Nat}
    (none : (row.cells.drop first).take count = []) :
    (row.withoutRun left right first count).cells = shrunkCells left right 0 row.cells := by
  have stays : row.cells.take (first + count) = row.cells.take first := by
    rw [List.take_add, none, List.append_nil]
  have whole : row.cells = row.cells.take first ++ row.cells.drop (first + count) := by
    rw [← stays, List.take_append_drop]
  conv => rhs; rw [whole]
  rw [withoutRun, none, closeGap_nil, shrunkCells_append, Nat.zero_add, stays]

/-- The edits that remove columns from a row leave the row without the cells that
take these columns. -/
theorem rewrites_removeCells {before removed behind : List Cell} (wellFormed : row.WellFormed)
    (cellsEq : (row.filled columnCount start rules).cells = before ++ (removed ++ behind))
    (parted : Plan.Parted left right 0 before removed behind) :
    Rewrites start row.text (Plan.removeCells left right (row.filled columnCount start rules))
      (row.withoutRun left right before.length removed.length).text := by
  have within : before.length + removed.length
      ≤ (row.filled columnCount start rules).cells.length := by
    rw [cellsEq, List.length_append, List.length_append]
    omega
  have edits : Plan.removeCells left right (row.filled columnCount start rules)
      = shrinkEdits left right 0 0 (row.filled columnCount start rules).cells
        ++ Plan.removeRun (row.filled columnCount start rules)
          (List.range' before.length removed.length) := Plan.removeCells_eq cellsEq parted
  rw [edits]
  refine rewrites_text ?_
  by_cases none : (row.cells.drop before.length).take removed.length = []
  · change Rewrites _ _ _ (cellsText (row.withoutRun left right _ _).cells)
    rw [removeRun_of_take_eq_nil wellFormed.nonempty within none, List.append_nil, cells_filled,
      shrinkEdits_append, shrinkEdits_replicate_blank, List.append_nil,
      cells_withoutRun_of_take_eq_nil none]
    exact rewrites_cellsText_shrunk wellFormed.cells (row.cellsStart start) 0 0
  · have written : before.length < row.cells.length := by
      by_contra behindWritten
      exact none (by rw [List.drop_of_length_le (Nat.le_of_not_lt behindWritten), List.take_nil])
    have taken : row.cells.take before.length
        ++ (row.cells.drop before.length).take removed.length
          = row.cells.take (before.length + removed.length) := List.take_add.symm
    have writtenEq : row.cells = row.cells.take before.length
        ++ ((row.cells.drop before.length).take removed.length
          ++ row.cells.drop (before.length + removed.length)) := by
      rw [← List.append_assoc, taken, List.take_append_drop]
    have removes : ∀ index, ∀ place ∈ Row.placedFrom index
        ((row.cells.take before.length).map (·.entry.width)).sum
        (layCells (row.cellsStart start + (frontText (row.cells.take before.length)).size)
          ((row.cells.drop before.length).take removed.length)),
        Plan.Removes left right place := by
      have removes := (parted_written cellsEq parted).removes
      rwa [totalWidth_layCells, Nat.zero_add] at removes
    have frontLength : (row.cells.take before.length).length = before.length := by
      rw [List.length_take]
      omega
    have atEnd : removed.length = ((row.cells.drop before.length).take removed.length).length
        ∨ row.cells.drop (before.length + removed.length) = []
          ∧ ((row.cells.drop before.length).take removed.length).length ≤ removed.length := by
      rw [List.length_take, List.length_drop, List.drop_eq_nil_iff]
      omega
    have rewrites := @rewrites_run left right columnCount start rules row _ _ _ removed.length
      wellFormed none writtenEq atEnd (by rw [frontLength]; exact within)
    rw [frontLength, taken] at rewrites
    rw [shrinkEdits_filled writtenEq removes, frontLength, taken]
    exact rewrites

end WrittenRow

end LatexTabular
