import LatexTabular.Proofs.Edit.Batch
import LatexTabular.Proofs.Table.Columns
import LatexTabular.Proofs.Table.Layout

/-!
# Where rows and columns are removed

Whole rows go with their spans.  From any other row one run of cells goes, with
one separator, while the numbers that shrink stand in front of that run or behind
it.
-/

namespace LatexTabular

namespace Plan

variable {document : Text} {row : Row}

/-- A run of cells goes with a stretch of its row that reaches into none of the
other cells. -/
theorem RunSpan.bounds {first last : Nat} {span : Span} (goes : RunSpan row first last span)
    (laidOut : row.LaidOut document) (ordered : first ≤ last) :
    span.Fits document ∧ row.span.start ≤ span.start ∧ span.stop ≤ row.span.stop ∧
      ∀ index cell, row.cells[index]? = some cell →
        (index < first → cell.extent.stop ≤ span.start) ∧
        (last < index → span.stop ≤ cell.extent.start) := by
  have laid := laidOut.cells
  have placed {index : Nat} {cell : Cell} (isCell : row.cells[index]? = some cell) :=
    laid.of_mem (List.mem_of_getElem? isCell)
  cases goes with
  | toNext atFront isFirst isLast isSeparator =>
      obtain ⟨firstPlaced, firstBegins, -⟩ := placed isFirst
      obtain ⟨fits, -, separatorEnds, others⟩ := laid.of_separator isSeparator
      have firstOrdered := firstPlaced.extent.ordered
      have firstEnds := (others first _ isFirst).1 ordered
      have separatorOrdered := fits.ordered
      refine ⟨firstPlaced.extent.join fits (Or.inl rfl) (Or.inr rfl) (by omega), firstBegins,
        separatorEnds, fun index cell isCell => ⟨fun before => by omega, ?_⟩⟩
      exact (others index cell isCell).2
  | toEnd atFront isFirst isLast noSeparator =>
      obtain ⟨firstPlaced, firstBegins, -⟩ := placed isFirst
      obtain ⟨lastPlaced, -, lastEnds⟩ := placed isLast
      have firstOrdered := firstPlaced.extent.ordered
      have lastBehind := laid.stop_le_stop ordered isFirst isLast
      refine ⟨firstPlaced.extent.join lastPlaced.extent (Or.inl rfl) (Or.inr rfl) (by omega),
        firstBegins, lastEnds, fun index cell isCell => ⟨fun before => by omega, ?_⟩⟩
      exact fun behind => laid.stop_le_start behind isLast isCell
  | fromPrevious inside isPrevious isLast =>
      obtain ⟨previousPlaced, previousBegins, -⟩ := placed isPrevious
      obtain ⟨lastPlaced, -, lastEnds⟩ := placed isLast
      have previousOrdered := previousPlaced.extent.ordered
      have lastBehind := laid.stop_le_stop (by omega) isPrevious isLast
      refine ⟨previousPlaced.extent.join lastPlaced.extent (Or.inr rfl) (Or.inr rfl) lastBehind,
        previousBegins.trans previousOrdered, lastEnds, fun index cell isCell => ⟨?_, ?_⟩⟩
      · exact fun before => laid.stop_le_stop (by omega) isCell isPrevious
      · exact fun behind => laid.stop_le_start behind isLast isCell

/-- The numbers that shrink stand in their cells. -/
theorem within_shrink {start stop left right : Nat} {index first : Nat} {cells : List Cell}
    (placed : ∀ cell ∈ cells, cell.Placed document ∧ start ≤ cell.extent.start ∧
      cell.extent.stop ≤ stop)
    (ordered : cells.Pairwise fun first second => first.extent.stop ≤ second.extent.start) :
    Batch.Within document start stop
      ((Row.placedFrom index first cells).filterMap (shrink? left right)) := by
  rw [← Row.map_cell_placedFrom index first cells, List.pairwise_map] at ordered
  have isCell (place : Nat × ColumnRange × Cell)
      (member : place ∈ Row.placedFrom index first cells) : place.2.2 ∈ cells :=
    (Row.mem_of_mem_placedFrom member).1
  rw [List.filterMap_eq_flatMap_toList]
  refine .flatMap ordered (fun place member => (placed _ (isCell place member)).2) ?_
  intro place member
  refine .toList ?_
  intro edit found
  obtain ⟨merge, merged, spanEq⟩ := span_of_shrink? found
  obtain ⟨mergePlaced, sameStart, inCell⟩ :=
    (placed _ (isCell place member)).1.merge merge merged
  have inMerge := mergePlaced.number_within
  rw [spanEq]
  exact ⟨mergePlaced.number, by omega, by omega⟩

/-- Columns are removed from a row within its span. -/
theorem within_removeCells (laidOut : row.LaidOut document) (left right : Nat) :
    Batch.Within document row.span.start row.span.stop (removeCells left right row) := by
  obtain ⟨before, removed, behind, cellsEq, parted⟩ := exists_parted left right 0 row.cells
  have laid := laidOut.cells
  rw [removeCells_eq cellsEq parted]
  have shrunk : Batch.Within document row.span.start row.span.stop
      (row.placed.filterMap (shrink? left right)) :=
    within_shrink (fun cell member => laid.of_mem member) laid.pairwise
  rcases removeRun_eq_nil_or row (List.range' before.length removed.length) with
    noRun | ⟨first, last, span, isFirst, isLast, goes, run⟩
  · rw [noRun, List.append_nil]
    exact shrunk
  · have positive : removed.length ≠ 0 := by
      intro none
      simp [none] at isFirst
    obtain rfl : before.length = first := by simpa [List.head?_range', positive] using isFirst
    obtain rfl : before.length + removed.length - 1 = last := by
      simpa [List.getLast?_range', positive] using isLast
    obtain ⟨fits, begins, ends, others⟩ := goes.bounds laidOut (by omega)
    rw [run]
    refine shrunk.append (.singleton fits begins ends) ?_
    intro edit member other otherMember
    obtain rfl := List.mem_singleton.mp otherMember
    obtain ⟨place, isPlace, shrinks⟩ := List.mem_filterMap.mp member
    obtain ⟨merge, merged, spanEq⟩ := span_of_shrink? shrinks
    obtain ⟨placed, -, -⟩ := laid.of_mem (Row.mem_of_mem_placedFrom isPlace).1
    obtain ⟨mergePlaced, sameStart, inCell⟩ := placed.merge merge merged
    have inMerge := mergePlaced.number_within
    rw [Edit.Apart, spanEq]
    dsimp only [Edit.deletion]
    rw [Row.placed, cellsEq, Row.placedFrom_append, Row.placedFrom_append, List.mem_append,
      List.mem_append] at isPlace
    rcases isPlace with inBefore | inRemoved | inBehind
    · obtain ⟨index, isCell⟩ := List.mem_iff_getElem?.mp (Row.mem_of_mem_placedFrom inBefore).1
      have indexLt := (List.getElem?_eq_some_iff.mp isCell).1
      have := (others index _ (by rw [cellsEq, List.getElem?_append_left indexLt, isCell])).1 indexLt
      exact Or.inl (by omega)
    · rw [shrink?_eq_none (parted.removes _ place inRemoved)] at shrinks
      simp at shrinks
    · obtain ⟨index, isCell⟩ := List.mem_iff_getElem?.mp (Row.mem_of_mem_placedFrom inBehind).1
      have := (others (before.length + (removed.length + index)) _ (by
        rw [cellsEq, List.getElem?_append_right (Nat.le_add_right _ _), Nat.add_sub_cancel_left,
          List.getElem?_append_right (Nat.le_add_right _ _), Nat.add_sub_cancel_left,
          isCell])).2 (by omega)
      exact Or.inr (by omega)

section Plans

variable {table : Table} {selection : Selection} {options : Options}

/-- Edits with the cell that is selected behind them, if there are any edits. -/
def unlessEmpty (batch : Batch) (chosen : Selection) : Plan :=
  if batch.isEmpty then nothing else ⟨batch, some chosen⟩

/-- Edits that are none are no plan, which makes no difference to the edits. -/
theorem batch_unlessEmpty (batch : Batch) (chosen : Selection) :
    (unlessEmpty batch chosen).batch = batch := by
  unfold unlessEmpty
  split
  next isEmpty => exact (List.isEmpty_iff.mp isEmpty).symm
  next => rfl

/-- A selection over all rows has all of them. -/
theorem rows_of_coversAllRows (allRows : selection.coversAllRows table = true) :
    selection.rows table = table.rows := by
  rw [Selection.coversAllRows, Bool.and_eq_true, beq_iff_eq, decide_eq_true_eq] at allRows
  obtain ⟨fromTop, toBottom⟩ := allRows
  rw [Selection.rows, fromTop, List.drop_zero]
  apply List.take_of_length_le
  rw [Selection.height, fromTop, Nat.sub_zero]
  exact toBottom

/-- What removing plans, by what of a table is selected over its full height and width. -/
inductive Removal (table : Table) (selection : Selection) (options : Options) : Plan → Prop where
  | noRows (none : table.rows = []) : Removal table selection options nothing
  | everything (some : table.rows ≠ []) (allRows : selection.coversAllRows table = true)
      (allColumns : selection.coversAllColumns table = true) :
      Removal table selection options (emptyTable table options)
  | rows (some : table.rows ≠ []) (notAllRows : selection.coversAllRows table = false)
      (allColumns : selection.coversAllColumns table = true) :
      Removal table selection options (unlessEmpty
        ((selection.rows table).map fun row => .deletion row.span)
        (.single (min selection.bounds.top (table.rowCount - selection.height - 1))
          (min selection.bounds.left (table.columnCount - 1))))
  | columns (some : table.rows ≠ []) (allRows : selection.coversAllRows table = true)
      (notAllColumns : selection.coversAllColumns table = false) :
      Removal table selection options (unlessEmpty
        (table.rows.flatMap (removeCells selection.bounds.left selection.bounds.right)
          ++ [⟨table.specifierSpan, Specifier.render (table.columns.take selection.bounds.left
            ++ table.columns.drop (selection.bounds.right + 1))⟩])
        (.single (min selection.bounds.top (table.rowCount - 1))
          (min selection.bounds.left (table.columnCount - selection.width - 1))))
  | nothingWhole (some : table.rows ≠ []) (notAllRows : selection.coversAllRows table = false)
      (notAllColumns : selection.coversAllColumns table = false) :
      Removal table selection options nothing

theorem removal (table : Table) (selection : Selection) (options : Options) :
    Removal table selection options (removeRowsOrColumns table selection options) := by
  cases isEmpty : table.rows.isEmpty with
  | true =>
      rw [removeRowsOrColumns, if_pos isEmpty]
      exact .noRows (List.isEmpty_iff.mp isEmpty)
  | false =>
      have some : table.rows ≠ [] := List.isEmpty_eq_false_iff.mp isEmpty
      cases allRows : selection.coversAllRows table <;>
        cases allColumns : selection.coversAllColumns table
      case true.true =>
        have planned := @Removal.everything _ _ options some allRows allColumns
        simpa [removeRowsOrColumns, isEmpty, Selection.coversTable, allRows, allColumns]
          using planned
      case false.true =>
        have planned := @Removal.rows _ _ options some allRows allColumns
        rw [List.map_eq_flatMap] at planned
        simpa [removeRowsOrColumns, unlessEmpty, isEmpty, Selection.coversTable, allRows,
          allColumns] using planned
      case true.false =>
        have planned := @Removal.columns _ _ options some allRows allColumns
        simpa [removeRowsOrColumns, unlessEmpty, isEmpty, Selection.coversTable, allRows,
          allColumns, rows_of_coversAllRows allRows] using planned
      case false.false =>
        have planned := @Removal.nothingWhole _ _ options some allRows allColumns
        simpa [removeRowsOrColumns, isEmpty, Selection.coversTable, allRows, allColumns]
          using planned

end Plans

section Table

variable {table : Table} {bodyStart bodyStop : Nat}

/-- Of the whole table one row and one column stay. -/
theorem within_emptyTable (laidOut : table.LaidOut bodyStart bodyStop) (options : Options) :
    Batch.Within table.document table.specifierSpan.start bodyStop
      (emptyTable table options).batch := by
  have specifierOrdered := laidOut.specifier.ordered
  have beforeBody := laidOut.specifier_lt_body
  have body := laidOut.rows.start_le_stop
  have specifier (text : Text) : Batch.Within table.document table.specifierSpan.start
      table.specifierSpan.stop [⟨table.specifierSpan, text⟩] :=
    .singleton laidOut.specifier (Nat.le_refl _) (Nat.le_refl _)
  unfold emptyTable
  refine (specifier _).append_of_le ?_ (Nat.le_of_lt beforeBody) (by omega) (by omega)
  split
  next first last isFirst isLast =>
    obtain ⟨firstLaidOut, begins, -⟩ := laidOut.rows.of_mem (List.mem_of_mem_head? isFirst)
    obtain ⟨lastLaidOut, -, ends⟩ := laidOut.rows.of_mem (List.mem_of_mem_getLast? isLast)
    have ordered : first.span.start ≤ last.span.stop := by
      have lastOrdered := lastLaidOut.span.ordered
      obtain ⟨rest, rowsEq⟩ := List.head?_eq_some_iff.mp isFirst
      have lastIn := List.mem_of_mem_getLast? isLast
      rw [rowsEq] at lastIn
      rcases List.mem_cons.mp lastIn with rfl | inRest
      · exact lastOrdered
      · have follows := laidOut.rows.pairwise
        rw [rowsEq] at follows
        have next := (List.pairwise_cons.mp follows).1 last inRest
        have firstOrdered := firstLaidOut.span.ordered
        omega
    exact .singleton (firstLaidOut.span.join lastLaidOut.span (Or.inl rfl) (Or.inr rfl) ordered)
      begins ends
  next => exact .nil

theorem within_removeRowsOrColumns (laidOut : table.LaidOut bodyStart bodyStop)
    (selection : Selection) (options : Options) :
    Batch.Within table.document table.specifierSpan.start bodyStop
      (removeRowsOrColumns table selection options).batch := by
  have specifierOrdered := laidOut.specifier.ordered
  have beforeBody := laidOut.specifier_lt_body
  have body := laidOut.rows.start_le_stop
  have isPart : (selection.rows table).Sublist table.rows :=
    (List.take_sublist _ _).trans (List.drop_sublist _ _)
  have planned := removal table selection options
  generalize removeRowsOrColumns table selection options = plan at planned ⊢
  cases planned with
  | noRows none => exact .nil
  | everything some allRows allColumns => exact within_emptyTable laidOut options
  | rows some notAllRows allColumns =>
      rw [batch_unlessEmpty, List.map_eq_flatMap]
      have deleted : Batch.Within table.document bodyStart bodyStop
          ((selection.rows table).flatMap fun row => [.deletion row.span]) :=
        .flatMap (laidOut.rows.pairwise.sublist isPart)
          (fun row member => (laidOut.rows.of_mem (isPart.subset member)).2)
          fun row member => .singleton (laidOut.rows.of_mem (isPart.subset member)).1.span
            (Nat.le_refl _) (Nat.le_refl _)
      exact deleted.mono (Nat.le_of_lt (Nat.lt_of_le_of_lt specifierOrdered beforeBody))
        (Nat.le_refl _)
  | columns some allRows notAllColumns =>
      rw [batch_unlessEmpty]
      have removed : Batch.Within table.document bodyStart bodyStop
          (table.rows.flatMap (removeCells selection.bounds.left selection.bounds.right)) :=
        .flatMap laidOut.rows.pairwise (fun row member => (laidOut.rows.of_mem member).2)
          fun row member => within_removeCells (laidOut.rows.of_mem member).1 _ _
      exact removed.append_of_ge (.singleton laidOut.specifier (Nat.le_refl _) (Nat.le_refl _))
        (Nat.le_of_lt beforeBody) (Nat.le_of_lt (Nat.lt_of_le_of_lt specifierOrdered beforeBody))
        (Nat.le_of_lt (Nat.lt_of_lt_of_le beforeBody body))
  | nothingWhole some notAllRows notAllColumns => exact .nil

end Table

end Plan

end LatexTabular
