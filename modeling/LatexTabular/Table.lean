import LatexTabular.Column

/-!
# Tables

A table is what one tabular of a document says: its column specifier, its rows
and their cells, each with its place in the document, and the caption and label
of the float around it.  All spans speak about the document at the time of
reading.

A cell may be merged over several columns, so cells of a row and columns of the
table are counted apart: `Row.cellIndex?` and `Row.columnsAt?` find the cell over
a column.
-/

namespace LatexTabular

/-- The `\multicolumn` command of a merged cell. -/
structure Merge where
  span : Span
  /-- The number of columns as written, which may be zero. -/
  columns : Nat
  /-- Where that number stands. -/
  number : Span
  /-- The specifier of the merged cell. -/
  specifier : Span
  /-- The command up to its content. -/
  preamble : Span
  /-- The brace after the content. -/
  postamble : Span
  deriving DecidableEq, Repr

/-- A cell of a table. -/
structure Cell where
  /-- The text of the cell; of a merged cell, the text it shows. -/
  content : Text
  contentSpan : Span
  /-- Everything that stands in the cell, from its first to its last token. -/
  extent : Span
  merge : Option Merge
  deriving DecidableEq, Repr

namespace Cell

/-- A cell without text at an offset. -/
def blank (offset : Nat) : Cell := ⟨[], .point offset, .point offset, none⟩

/-- The number of columns a cell takes, at least one. -/
def width (cell : Cell) : Nat :=
  match cell.merge with
  | some merge => max merge.columns 1
  | none => 1

/-- The command of a merged cell, the text of another. -/
def outer (cell : Cell) : Span :=
  match cell.merge with
  | some merge => merge.span
  | none => cell.contentSpan

end Cell

/-- The columns from `first` to `last`, both included. -/
structure ColumnRange where
  first : Nat
  last : Nat
  deriving DecidableEq, Repr

/-- A row of a table. -/
structure Row where
  /-- From the end of the row above to the end of the terminator, or of the last
  cell. -/
  span : Span
  /-- The horizontal rules that stand in the row. -/
  rules : List Span
  /-- The written cells, then the blank ones that fill a short row. -/
  cells : List Cell
  /-- The separators between the written cells. -/
  separators : List Span
  terminator : Option Span
  deriving DecidableEq, Repr

namespace Row

/-- The number of columns that cells take side by side. -/
def totalWidth : List Cell → Nat
  | [] => 0
  | cell :: rest => cell.width + totalWidth rest

/-- The index of the cell over a column, in cells that start at column zero. -/
def indexIn? : List Cell → (column : Nat) → Option Nat
  | [], _ => none
  | cell :: rest, column =>
      if column < cell.width then some 0
      else (indexIn? rest (column - cell.width)).map (· + 1)

/-- The columns of the cell over a column, in cells that start at column
`first`. -/
def columnsIn? (first : Nat) : List Cell → (column : Nat) → Option ColumnRange
  | [], _ => none
  | cell :: rest, column =>
      let last := first + cell.width - 1
      if column ≤ last then some ⟨first, last⟩
      else columnsIn? (last + 1) rest column

def cellIndex? (row : Row) (column : Nat) : Option Nat :=
  indexIn? row.cells column

def columnsAt? (row : Row) (column : Nat) : Option ColumnRange :=
  columnsIn? 0 row.cells column

/-- The cell over a column. -/
def cellAt? (row : Row) (column : Nat) : Option Cell := do
  row.cells[← row.cellIndex? column]?

/-- Every cell with its index and its columns, where the first of them has index
`index` and starts at column `first`. -/
def placedFrom (index first : Nat) : List Cell → List (Nat × ColumnRange × Cell)
  | [] => []
  | cell :: rest =>
      (index, ⟨first, first + cell.width - 1⟩, cell)
        :: placedFrom (index + 1) (first + cell.width) rest

/-- Every cell of a row with its index and its columns. -/
def placed (row : Row) : List (Nat × ColumnRange × Cell) :=
  placedFrom 0 0 row.cells

/-- Fill a row with blank cells up to a number of columns.  They stand at the
end of the last cell. -/
def padded (columnCount : Nat) (row : Row) : Row :=
  let offset := (row.cells.getLast?.map (·.extent.stop)).getD row.span.start
  { row with
    cells := row.cells
      ++ List.replicate (columnCount - totalWidth row.cells) (.blank offset) }

end Row

/-- The caption and the label of a float. -/
structure Captioning where
  caption : Option Span
  label : Option Span
  deriving DecidableEq, Repr

/-- One tabular of a document. -/
structure Table where
  document : Text
  /-- The tabular with its delimiters. -/
  span : Span
  specifierSpan : Span
  rows : List Row
  /-- The caption and label of the float around the tabular, if there is one. -/
  float : Option Captioning
  deriving DecidableEq, Repr

namespace Table

/-- The text of a span of the document. -/
def slice (table : Table) (span : Span) : Text := table.document.slice span

/-- The text of the column specifier. -/
def specifier (table : Table) : Text := table.slice table.specifierSpan

def columns (table : Table) : List Column := Specifier.columns table.specifier

def rowCount (table : Table) : Nat := table.rows.length

/-- The number of columns the specifier declares; wider rows add none. -/
def columnCount (table : Table) : Nat := table.columns.length

def cellIndex? (table : Table) (row column : Nat) : Option Nat := do
  (← table.rows[row]?).cellIndex? column

def cellAt? (table : Table) (row column : Nat) : Option Cell := do
  (← table.rows[row]?).cellAt? column

def columnsAt? (table : Table) (row column : Nat) : Option ColumnRange := do
  (← table.rows[row]?).columnsAt? column

def caption (table : Table) : Option Span := do (← table.float).caption

def label (table : Table) : Option Span := do (← table.float).label

/-- The merges of a table, row by row. -/
def merges (table : Table) : List Merge :=
  table.rows.flatMap fun row => row.cells.filterMap (·.merge)

end Table

end LatexTabular
