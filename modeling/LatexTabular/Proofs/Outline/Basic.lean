import LatexTabular.Selection
import LatexTabular.Table.Read
import Mathlib.Algebra.GroupWithZero.Nat

/-!
# Outlines of tables

An outline is what a table says, apart from the places and the white space of its
tokens: the letters and bars of its specifier, and its rows with the cells that
take the columns side by side, the blank ones that fill a short row included.
Inserting and removing rows and columns is defined here on outlines, without
regard to any text, and `Table.Shows` relates a table to its outline.
-/

namespace LatexTabular

/-- A letter of a specifier with the number of bars behind it. -/
structure Letter where
  letter : Char
  bars : Nat
  deriving DecidableEq, Repr

namespace Letter

def text (letter : Letter) : Text := letter.letter :: List.replicate letter.bars '|'

/-- The column a letter makes behind a number of bars. -/
def column (leftBars : Nat) (letter : Letter) : Column where
  alignment := .ofLetter letter.letter
  leftRules := leftBars
  rightRules := letter.bars
  markup := [letter.letter]

/-- The letter of a new column. -/
def plain : Letter := ⟨'l', 0⟩

end Letter

/-- A specifier of letters and bars: the number of bars in front of the first
letter, and the letters. -/
structure Heading where
  bars : Nat
  letters : List Letter
  deriving DecidableEq, Repr

namespace Heading

def text (heading : Heading) : Text :=
  List.replicate heading.bars '|' ++ heading.letters.flatMap Letter.text

/-- Read letters and bars from the right, where the bars so far stand in front of the
letters so far. -/
def ofText : Text → Heading
  | [] => ⟨0, []⟩
  | character :: rest =>
      let heading := ofText rest
      if character = '|' then { heading with bars := heading.bars + 1 }
      else ⟨0, ⟨character, heading.bars⟩ :: heading.letters⟩

/-- The columns of a heading.  The bars in front belong to the first one. -/
def columns (heading : Heading) : List Column :=
  match heading.letters with
  | [] => []
  | first :: rest => first.column heading.bars :: rest.map (Letter.column 0)

/-- Insert a column, of which an index of zero puts the bars in front behind. -/
def insertColumn (index : Nat) (heading : Heading) : Heading :=
  if index = 0 then ⟨0, { Letter.plain with bars := heading.bars } :: heading.letters⟩
  else { heading with letters := heading.letters.insertIdx index .plain }

/-- Remove the columns from `left` to `right`.  The bars in front go with the first
one. -/
def removeColumns (left right : Nat) (heading : Heading) : Heading where
  bars := if left = 0 then 0 else heading.bars
  letters := heading.letters.take left ++ heading.letters.drop (right + 1)

/-- The first letter alone. -/
def cleared (heading : Heading) : Heading where
  bars := 0
  letters := (heading.letters.take 1).map fun letter => { letter with bars := 0 }

end Heading

namespace Outline

/-- What a merged cell says besides its content. -/
structure Merge where
  columns : Nat
  specifier : Text
  deriving DecidableEq, Repr

/-- A cell without its place. -/
structure Cell where
  content : Text
  merge : Option Merge
  deriving DecidableEq, Repr

namespace Cell

def blank : Cell := ⟨[], none⟩

/-- The number of columns a cell takes. -/
def width (cell : Cell) : Nat :=
  match cell.merge with
  | some merge => max merge.columns 1
  | none => 1

/-- A merged cell with another number of columns. -/
def resized (columns : Nat) (cell : Cell) : Cell :=
  { cell with merge := cell.merge.map fun merge => { merge with columns } }

end Cell

/-- The number of columns that cells take side by side. -/
def totalWidth (cells : List Cell) : Nat := (cells.map Cell.width).sum

/-- Insert a column into cells: a blank cell between two cells, and one more column
for a merged cell that lies on both sides. -/
def insertColumnIn : (index : Nat) → List Cell → List Cell
  | _, [] => [.blank]
  | index, cell :: rest =>
      if index = 0 then .blank :: cell :: rest
      else if index < cell.width then cell.resized (cell.width + 1) :: rest
      else cell :: insertColumnIn (index - cell.width) rest

/-- How many of `width` columns from `first` on lie between two columns, which
count. -/
def coveredCount (left right first width : Nat) : Nat :=
  min (first + width) (right + 1) - max first left

/-- Remove the columns from `left` to `right` from cells that start at column
`first`: a cell that lies wholly there goes, a merged cell that lies partly there
loses these columns. -/
def removeColumnsIn (left right : Nat) : (first : Nat) → List Cell → List Cell
  | _, [] => []
  | first, cell :: rest =>
      let others := removeColumnsIn left right (first + cell.width) rest
      let count := coveredCount left right first cell.width
      if count = cell.width then others
      else if count = 0 then cell :: others
      else cell.resized (cell.width - count) :: others

/-- A row without its place. -/
structure Row where
  /-- The number of horizontal rules in front of the cells. -/
  rules : Nat
  cells : List Cell
  deriving DecidableEq, Repr

end Outline

/-- What a table says. -/
structure Outline where
  heading : Heading
  rows : List Outline.Row
  /-- The number of horizontal rules behind the last row. -/
  closingRules : Nat
  deriving DecidableEq, Repr

namespace Outline

/-- Insert a row of blank cells. -/
def insertRow (index : Nat) (outline : Outline) : Outline :=
  let row : Row := ⟨0, List.replicate outline.heading.letters.length .blank⟩
  { outline with rows := outline.rows.insertIdx index row }

/-- Insert a blank column. -/
def insertColumn (index : Nat) (outline : Outline) : Outline :=
  { outline with
    heading := outline.heading.insertColumn index
    rows := outline.rows.map fun row => { row with cells := insertColumnIn index row.cells } }

/-- Remove the rows from `top` to `bottom`. -/
def removeRows (top bottom : Nat) (outline : Outline) : Outline :=
  { outline with rows := outline.rows.take top ++ outline.rows.drop (bottom + 1) }

/-- Remove the columns from `left` to `right`. -/
def removeColumns (left right : Nat) (outline : Outline) : Outline :=
  { outline with
    heading := outline.heading.removeColumns left right
    rows := outline.rows.map fun row =>
      { row with cells := removeColumnsIn left right 0 row.cells } }

/-- Reduce to the first column and one blank cell. -/
def cleared (outline : Outline) : Outline :=
  { outline with heading := outline.heading.cleared, rows := [⟨0, [.blank]⟩] }

/-- Remove the rows or columns that lie wholly between two corners.  Nothing is removed
if there are none. -/
def remove (bounds : Bounds) (outline : Outline) : Outline :=
  let allColumns := bounds.left == 0 && outline.heading.letters.length ≤ bounds.right + 1
  let allRows := bounds.top == 0 && outline.rows.length ≤ bounds.bottom + 1
  match allRows, allColumns with
  | true, true => outline.cleared
  | false, true => outline.removeRows bounds.top bounds.bottom
  | true, false => outline.removeColumns bounds.left bounds.right
  | false, false => outline

end Outline

namespace Table

/-- A cell of a table without its place. -/
def outlineCell (table : Table) (cell : Cell) : Outline.Cell where
  content := cell.content
  merge := cell.merge.map fun merge => ⟨merge.columns, table.slice merge.specifier⟩

/-- A row of a table without its place. -/
def outlineRow (table : Table) (row : Row) : Outline.Row where
  rules := row.rules.countP (·.stop ≤ row.span.stop)
  cells := row.cells.map table.outlineCell

/-- The number of rules that stand behind the last row. -/
def closingRules (table : Table) : Nat :=
  ((table.rows.getLast?).map fun row =>
    row.rules.countP (row.span.stop < ·.stop)).getD 0

/-- A table says what an outline says. -/
structure Shows (table : Table) (outline : Outline) : Prop where
  specifier : table.specifier = outline.heading.text
  columns : table.columns = outline.heading.columns
  rows : table.rows.map table.outlineRow = outline.rows
  closingRules : table.closingRules = outline.closingRules

end Table

/-- An outline is read from a document if it is that of the only table in it. -/
def Outline.ReadFrom (outline : Outline) (document : Text) : Prop :=
  ∃ table, Table.readAll document = .ok [table] ∧ table.Shows outline

end LatexTabular
