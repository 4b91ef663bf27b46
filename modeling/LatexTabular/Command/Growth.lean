import LatexTabular.Command.Basic
import LatexTabular.Options

/-!
# New rows and columns

A new row is empty and gets as many cells as the table has columns.  A new column
is empty, flush left and without rules; a merged cell on both sides of it grows
by one column instead of being split.
-/

namespace LatexTabular.Plan

/-- Insert a row below the last or above the first selected row.  A row inserted
below is selected. -/
def insertRow (table : Table) (selection : Selection) (below : Bool)
    (options : Options) : Plan :=
  let bounds := selection.bounds
  match table.rows[if below then bounds.bottom else bounds.top]? with
  | none => nothing
  | some row =>
      let lastColumn := table.columnCount - 1
      let terminator :=
        if below && row.terminator.isNone then [' '] ++ options.rowTerminator
        else []
      let text :=
        terminator ++ ['\n'] ++ Text.repeated lastColumn options.cellSeparator
          ++ options.rowTerminator
      { batch :=
          [.insertion (if below then row.span.stop else row.span.start) text]
        selection :=
          if below then
            some ⟨⟨bounds.bottom + 1, 0⟩, ⟨bounds.bottom + 1, lastColumn⟩⟩
          else some selection }

/-- The edit that makes room in a row beside the cell over a column.  Blank cells
that only fill a short row have no text to make room in. -/
def roomInRow (column : Nat) (after : Bool) (options : Options) (row : Row) :
    List Edit :=
  match row.cellIndex? column, row.cellAt? column, row.columnsAt? column with
  | some index, some cell, some range =>
      if row.separators.length < index then []
      else
        let splits := if after then range.last != column else range.first != column
        let besideCell : Edit :=
          .insertion (if after then cell.outer.stop else cell.outer.start)
            options.cellSeparator
        match cell.merge with
        | some merge =>
            if splits then [⟨merge.number, Text.ofNumber (merge.columns + 1)⟩]
            else [besideCell]
        | none => [besideCell]
  | _, _, _ => []

/-- Insert a column after the last or before the first selected column, where the
selection is widened to whole merged cells.  A column inserted after is
selected. -/
def insertColumn (table : Table) (selection : Selection) (after : Bool)
    (options : Options) : Plan :=
  let widened := selection.widened table
  let bounds := widened.bounds
  let column := if after then bounds.right else bounds.left
  let index := if after then bounds.right + 1 else bounds.left
  let columns :=
    table.columns.insertIdx (min index table.columnCount) (.plain .left)
  { batch :=
      table.rows.flatMap (roomInRow column after options)
        ++ [⟨table.specifierSpan, Specifier.render columns⟩]
    selection :=
      if after then some ⟨⟨0, index⟩, ⟨table.rowCount - 1, index⟩⟩
      else some widened }

end LatexTabular.Plan
