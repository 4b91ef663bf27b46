import LatexTabular.Command.Basic
import LatexTabular.Options

/-!
# Removing rows and columns

Rows selected over their full width go as a whole, columns selected over their
full height go cell by cell.  A merged cell that is only partly selected shrinks.
Of the whole table one blank cell stays.
-/

namespace LatexTabular.Plan

/-- How many of the columns of a cell lie between two columns, which count. -/
def coveredColumns (range : ColumnRange) (left right : Nat) : Nat :=
  min range.last right + 1 - max range.first left

/-- The text to remove with the cells from index `first` to index `last` of a
row: also one separator, the one in front or, at the start of the row, the one
behind. -/
def removalSpan? (row : Row) (first last : Nat) : Option Span := do
  let lastCell ← row.cells[last]?
  if first = 0 then
    let firstCell ← row.cells[first]?
    match row.separators[last]? with
    | some separator => some ⟨firstCell.extent.start, separator.stop⟩
    | none => some ⟨firstCell.extent.start, lastCell.extent.stop⟩
  else
    let previous ← row.cells[first - 1]?
    some ⟨previous.extent.stop, lastCell.extent.stop⟩

/-- Remove a run of neighbouring cells, given by their indices. -/
def removeRun (row : Row) (run : List Nat) : List Edit :=
  match run.head?, run.getLast? with
  | some first, some last =>
      match removalSpan? row first last with
      | some span => if span.isEmpty then [] else [.deletion span]
      | none => []
  | _, _ => []

/-- Remove the columns from `left` to `right` from a row. -/
def removeCells (left right : Nat) (row : Row) : List Edit :=
  let covered := row.placed.map fun (index, range, cell) =>
    (index, cell, coveredColumns range left right)
  let shrunk := covered.filterMap fun (_, cell, count) =>
    match cell.merge with
    | some merge =>
        if 0 < count && count < cell.width then
          some ⟨merge.number, Text.ofNumber (cell.width - count)⟩
        else none
    | none => none
  let removed := covered.filterMap fun (index, cell, count) =>
    if count = cell.width then some index else none
  shrunk ++ (removed.splitBy fun index next => next == index + 1).flatMap (removeRun row)

/-- Reduce a table to its first column and one blank row. -/
def emptyTable (table : Table) (options : Options) : Plan :=
  let columns := (table.columns.take 1).map fun column =>
    { column with leftRules := 0, rightRules := 0 }
  let rows : List Edit :=
    match table.rows.head?, table.rows.getLast? with
    | some first, some last =>
        [⟨⟨first.span.start, last.span.stop⟩, options.rowTerminator⟩]
    | _, _ => []
  { batch := ⟨table.specifierSpan, Specifier.render columns⟩ :: rows
    selection := some (.single 0 0) }

/-- Remove the fully selected rows and columns.  The cell that takes the place of
the first one removed is selected. -/
def removeRowsOrColumns (table : Table) (selection : Selection)
    (options : Options) : Plan :=
  let bounds := selection.bounds
  let wholeRows := selection.coversAllColumns table
  let wholeColumns := selection.coversAllRows table
  if table.rows.isEmpty then nothing
  else if selection.coversTable table then emptyTable table options
  else
    let fromRows : List Edit :=
      (selection.rows table).flatMap fun row =>
        if wholeRows then [.deletion row.span]
        else if wholeColumns then removeCells bounds.left bounds.right row
        else []
    let fromSpecifier : List Edit :=
      if wholeColumns then
        let kept := table.columns.take bounds.left
          ++ table.columns.drop (bounds.right + 1)
        [⟨table.specifierSpan, Specifier.render kept⟩]
      else []
    let batch := fromRows ++ fromSpecifier
    if batch.isEmpty then nothing
    else
      let rowsLeft := table.rowCount - if wholeRows then selection.height else 0
      let columnsLeft :=
        table.columnCount - if wholeColumns then selection.width else 0
      { batch
        selection :=
          some (.single (min bounds.top (rowsLeft - 1))
            (min bounds.left (columnsLeft - 1))) }

end LatexTabular.Plan
