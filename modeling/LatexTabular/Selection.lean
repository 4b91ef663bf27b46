import LatexTabular.Error
import LatexTabular.Table

/-!
# Selections

A selection is a rectangle of cells given by two opposite corners.  This module
tells what of a table it covers and widens it to the merged cells it touches.
-/

namespace LatexTabular

/-- A row and a column of a table. -/
structure Position where
  row : Nat
  column : Nat
  deriving DecidableEq, Repr

/-- A rectangle by two opposite corners, in the order in which it was drawn. -/
structure Selection where
  anchor : Position
  focus : Position
  deriving DecidableEq, Repr

/-- The sides of a rectangle, which belong to it. -/
structure Bounds where
  left : Nat
  right : Nat
  top : Nat
  bottom : Nat
  deriving DecidableEq, Repr

namespace Row

/-- The first column of the cell over a column; the column itself where no cell
is. -/
def cellStart (column : Nat) (row : Row) : Nat :=
  ((row.columnsAt? column).map (·.first)).getD column

/-- The last column of the cell over a column; the column itself where no cell
is. -/
def cellEnd (column : Nat) (row : Row) : Nat :=
  ((row.columnsAt? column).map (·.last)).getD column

/-- A cell ends within the columns of its row. -/
theorem last_lt_of_columnsIn? {first column : Nat} {cells : List Cell}
    {range : ColumnRange} (found : columnsIn? first cells column = some range) :
    range.last < first + totalWidth cells := by
  induction cells generalizing first with
  | nil => simp [columnsIn?] at found
  | cons cell rest ih =>
      have positive : 0 < cell.width := by
        unfold Cell.width
        split <;> omega
      simp only [columnsIn?] at found
      simp only [totalWidth]
      split at found
      · obtain rfl := Option.some.inj found
        dsimp only
        omega
      · have := ih found
        omega

theorem cellEnd_lt_of_lt {column : Nat} {row : Row}
    (wider : column < row.cellEnd column) :
    row.cellEnd column < totalWidth row.cells := by
  unfold cellEnd at wider ⊢
  cases found : row.columnsAt? column with
  | none => simp [found] at wider
  | some range => simpa [found] using last_lt_of_columnsIn? found

end Row

namespace Selection

/-- The selection of one cell. -/
def single (row column : Nat) : Selection := ⟨⟨row, column⟩, ⟨row, column⟩⟩

/-- The sides of a selection, whichever corners are given. -/
def bounds (selection : Selection) : Bounds where
  left := min selection.anchor.column selection.focus.column
  right := max selection.anchor.column selection.focus.column
  top := min selection.anchor.row selection.focus.row
  bottom := max selection.anchor.row selection.focus.row

def width (selection : Selection) : Nat :=
  selection.bounds.right - selection.bounds.left + 1

def height (selection : Selection) : Nat :=
  selection.bounds.bottom - selection.bounds.top + 1

/-- Whether a selection reaches over all columns of a table. -/
def coversAllColumns (selection : Selection) (table : Table) : Bool :=
  selection.bounds.left == 0 && table.columnCount ≤ selection.bounds.right + 1

/-- Whether a selection reaches over all rows of a table. -/
def coversAllRows (selection : Selection) (table : Table) : Bool :=
  selection.bounds.top == 0 && table.rowCount ≤ selection.bounds.bottom + 1

def coversTable (selection : Selection) (table : Table) : Bool :=
  selection.coversAllRows table && selection.coversAllColumns table

/-- Whether a row is selected over its full width. -/
def coversRow (selection : Selection) (table : Table) (row : Nat) : Bool :=
  selection.bounds.top ≤ row && row ≤ selection.bounds.bottom
    && selection.coversAllColumns table

/-- Whether a column is selected over its full height. -/
def coversColumn (selection : Selection) (table : Table) (column : Nat) : Bool :=
  selection.bounds.left ≤ column && column ≤ selection.bounds.right
    && selection.coversAllRows table

/-- The merged cell that a selection lies in, if it lies in one. -/
def merge? (selection : Selection) (table : Table) : Option Merge := do
  let bounds := selection.bounds
  let row ← if bounds.top = bounds.bottom then table.rows[bounds.top]? else none
  let first ← row.cellIndex? bounds.left
  let last ← row.cellIndex? bounds.right
  if first = last then (← row.cells[first]?).merge else none

/-- The rows of a table that a selection reaches over. -/
def rows (selection : Selection) (table : Table) : List Row :=
  (table.rows.drop selection.bounds.top).take selection.height

/-- The least first column of the cells over a column. -/
def leastStart (rows : List Row) (column : Nat) : Nat :=
  rows.foldl (fun least row => min least (row.cellStart column)) column

/-- The greatest last column of the cells over a column. -/
def greatestEnd (rows : List Row) (column : Nat) : Nat :=
  rows.foldl (fun greatest row => max greatest (row.cellEnd column)) column

/-- Move a left side leftwards until it splits no cell of the rows. -/
def widenLeft (rows : List Row) (column : Nat) : Nat :=
  if leastStart rows column < column then
    widenLeft rows (leastStart rows column)
  else column
termination_by column

/-- The width of the widest row. -/
def greatestWidth (rows : List Row) : Nat :=
  rows.foldl (fun greatest row => max greatest (Row.totalWidth row.cells)) 0

private theorem le_foldl_max (value : Row → Nat) (rows : List Row) (least : Nat) :
    least ≤ rows.foldl (fun greatest row => max greatest (value row)) least := by
  induction rows generalizing least with
  | nil => simp
  | cons row rest ih => exact Nat.le_trans (Nat.le_max_left ..) (ih _)

private theorem foldl_max_mono (value : Row → Nat) (rows : List Row)
    {least other : Nat} (le : least ≤ other) :
    rows.foldl (fun greatest row => max greatest (value row)) least
      ≤ rows.foldl (fun greatest row => max greatest (value row)) other := by
  induction rows generalizing least other with
  | nil => simpa
  | cons row rest ih => exact ih (by dsimp only; omega)

/-- A right side that moves stays within the widest row. -/
theorem greatestEnd_lt_of_lt {rows : List Row} {column : Nat}
    (wider : column < greatestEnd rows column) :
    greatestEnd rows column < greatestWidth rows := by
  suffices ∀ least,
      rows.foldl (fun greatest row => max greatest (row.cellEnd column)) least
          = least ∨
        rows.foldl (fun greatest row => max greatest (row.cellEnd column)) least
          ≤ column ∨
        rows.foldl (fun greatest row => max greatest (row.cellEnd column)) least
          < greatestWidth rows by
    rcases this column with same | le | lt
    · rw [greatestEnd, same] at wider
      omega
    · rw [greatestEnd] at wider
      omega
    · exact lt
  clear wider
  induction rows with
  | nil => intro least; simp
  | cons row rest ih =>
      intro least
      have widest : Row.totalWidth row.cells ≤ greatestWidth (row :: rest) :=
        Nat.le_trans (Nat.le_max_right ..) (le_foldl_max _ _ _)
      have restWidth : greatestWidth rest ≤ greatestWidth (row :: rest) :=
        foldl_max_mono _ _ (Nat.zero_le _)
      have inRow := @Row.cellEnd_lt_of_lt column row
      simp only [List.foldl_cons]
      rcases ih (max least (row.cellEnd column)) with same | le | lt
      · rw [same]
        omega
      · exact Or.inr (Or.inl le)
      · omega

/-- Move a right side rightwards until it splits no cell of the rows. -/
def widenRight (rows : List Row) (column : Nat) : Nat :=
  if column < greatestEnd rows column then
    widenRight rows (greatestEnd rows column)
  else column
termination_by greatestWidth rows - column
decreasing_by
  have := greatestEnd_lt_of_lt ‹_›
  omega

/-- Widen a selection until it splits no merged cell of its rows. -/
def widened (selection : Selection) (table : Table) : Selection :=
  let bounds := selection.bounds
  let rows := selection.rows table
  ⟨⟨bounds.top, widenLeft rows bounds.left⟩,
    ⟨bounds.bottom, widenRight rows bounds.right⟩⟩

/-- Check that both corners lie in a table.  A row outside it is reported
first. -/
def validate (selection : Selection) (table : Table) : Except EditError Unit :=
  let bounds := selection.bounds
  if table.rowCount ≤ bounds.bottom then
    .error (.rowOutside bounds.bottom table.rowCount)
  else if table.columnCount ≤ bounds.right then
    .error (.columnOutside bounds.right table.columnCount)
  else .ok ()

end Selection

end LatexTabular
