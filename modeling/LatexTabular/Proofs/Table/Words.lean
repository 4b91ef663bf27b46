import LatexTabular.Proofs.Sheet.Growth
import LatexTabular.Proofs.Specifier.Normal
import LatexTabular.Proofs.Table.Layout

/-!
# Columns counted in machine words

Columns are counted with numbers of any size here.  The same loops over the cells of a row are
taken once more with sums that must fit a machine word each (`Row.widthInWords?`,
`Row.indexInWords?`, `Row.columnsInWords?`).  They come to the same if the whole row fits, and
filling a row that fits does not make it too wide (`Table.totalWidth_cells`).
-/

namespace LatexTabular

namespace Text

/-- A number, if it fits a machine word. -/
def word? (value : Nat) : Option Nat := if value < wordLimit then some value else none

theorem word?_of_lt {value : Nat} (fits : value < wordLimit) : word? value = some value :=
  if_pos fits

@[simp] theorem word?_eq_some_iff {value word : Nat} :
    word? value = some word ↔ value < wordLimit ∧ value = word := by
  unfold word?
  split <;> simp_all

end Text

open Text (wordLimit word?)

namespace Row

/-- The width of cells, added to a sum cell by cell. -/
def widthInWords? (sum : Nat) : List Cell → Option Nat
  | [] => some sum
  | cell :: rest => do widthInWords? (← word? (sum + cell.width)) rest

/-- The index of the cell over a column, in cells that start at column `stop` and of which the
first has the index `index`.  The end of each cell is found in front of the lookup in the next. -/
def indexInWords? (stop index : Nat) : List Cell → (column : Nat) → Option (Option Nat)
  | [], _ => some none
  | cell :: rest, column => do
      let stop ← word? (stop + cell.width)
      if column < stop then return some index else indexInWords? stop (index + 1) rest column

/-- The columns of the cell over a column, in cells that start at column `first`. -/
def columnsInWords? (first : Nat) : List Cell → (column : Nat) → Option (Option ColumnRange)
  | [], _ => some none
  | cell :: rest, column => do
      let last := (← word? (first + cell.width)) - 1
      if column ≤ last then return some ⟨first, last⟩
      else columnsInWords? (← word? (last + 1)) rest column

section Cells

variable {cells : List Cell} {first : Nat}

/-- The width of cells is added up without leaving the words if it fits one itself. -/
theorem widthInWords?_eq (fits : first < wordLimit) :
    widthInWords? first cells = word? (first + totalWidth cells) := by
  induction cells generalizing first with
  | nil => exact (Text.word?_of_lt fits).symm
  | cons cell rest ih =>
      rw [widthInWords?, totalWidth, ← Nat.add_assoc]
      by_cases next : first + cell.width < wordLimit
      · rw [Text.word?_of_lt next]
        exact ih next
      · have beyond : ¬ first + cell.width + totalWidth rest < wordLimit := by omega
        simp [word?, next, beyond]

theorem indexInWords?_of_lt (within : first + totalWidth cells < wordLimit) {index column : Nat}
    (behind : first ≤ column) :
    indexInWords? first index cells column
      = some ((indexIn? cells (column - first)).map (· + index)) := by
  induction cells generalizing first index with
  | nil => rfl
  | cons cell rest ih =>
      rw [totalWidth, ← Nat.add_assoc] at within
      have fits : first + cell.width < wordLimit := by omega
      simp only [indexInWords?, Text.word?_of_lt fits, Option.bind_eq_bind, Option.bind_some,
        indexIn?]
      by_cases inCell : column < first + cell.width
      · have inFirst : column - first < cell.width := by omega
        simp [inCell, inFirst]
      · have behindFirst : ¬ column - first < cell.width := by omega
        rw [if_neg inCell, if_neg behindFirst, ih within (Nat.not_lt.mp inCell), Nat.sub_sub,
          Option.map_map]
        simp [Function.comp_def, Nat.add_assoc, Nat.add_comm 1]

theorem columnsInWords?_of_lt (within : first + totalWidth cells < wordLimit) (column : Nat) :
    columnsInWords? first cells column = some (columnsIn? first cells column) := by
  induction cells generalizing first with
  | nil => rfl
  | cons cell rest ih =>
      have positive := cell.width_pos
      rw [totalWidth, ← Nat.add_assoc] at within
      have fits : first + cell.width < wordLimit := by omega
      have next : first + cell.width - 1 + 1 = first + cell.width := by omega
      simp only [columnsInWords?, Text.word?_of_lt fits, Option.bind_eq_bind, Option.bind_some,
        columnsIn?, next, ih within]
      split <;> rfl

end Cells

/-- The written cells of a row, without those that fill it. -/
def written (row : Row) : List Cell := row.cells.take (row.separators.length + 1)

theorem written_padded {columnCount : Nat} {row : Row}
    (alternate : row.cells.length = row.separators.length + 1) :
    (row.padded columnCount).written = row.cells := by
  simp [written, padded, ← alternate]

end Row

namespace Body

theorem length_cellsOf (start : Nat) (closed : List (List Lexeme × Lexeme)) (last : List Lexeme) :
    (cellsOf start closed last).length = closed.length + 1 := by
  induction closed generalizing start with
  | nil => rfl
  | cons part rest ih => simp [cellsOf, ih]

/-- A row has one more cell than separators. -/
theorem length_cells_of_mem_rowsOf {start : Nat} {lexemes : List Lexeme} {row : Row}
    (member : row ∈ rowsOf start lexemes) : row.cells.length = row.separators.length + 1 := by
  have alternate (start : Nat) (lexemes : List Lexeme) (terminator : Option Lexeme) :
      (rowOf start lexemes terminator).cells.length
        = (rowOf start lexemes terminator).separators.length + 1 := by
    simp [rowOf, length_cellsOf]
  simp only [rowsOf] at member
  generalize (segments _ lexemes).1 = closed at member
  generalize (segments _ lexemes).2 = last at member
  induction start, closed using rowsFrom_induction last with
  | row start isRow rowsEq =>
      rw [rowsEq] at member
      obtain rfl := List.mem_singleton.mp member
      exact alternate ..
  | nothing start noRow rowsEq => simp [rowsEq] at member
  | rules start lexemes terminator noRow rowsEq =>
      rw [rowsEq] at member
      obtain rfl := List.mem_singleton.mp member
      exact alternate start lexemes (some terminator)
  | cons start lexemes terminator rest _ rowsEq ih =>
      rw [rowsEq] at member
      rcases List.mem_cons.mp member with rfl | inRest
      · exact alternate ..
      · exact ih inRest

end Body

namespace Table

open Markup Body

variable {document : Text} {tabular : Environment} {table : Table}

/-- The rows of a table are filled up to the columns that it has. -/
theorem totalWidth_cells (member : tabular ∈ tabulars (environments document))
    (found : ofTabular document (environments document) tabular = .ok table) {row : Row}
    (isRow : row ∈ table.rows) :
    Row.totalWidth row.cells = max (Row.totalWidth row.written) table.columnCount := by
  obtain ⟨-, -, lexemes, -, hasBody⟩ := exists_body_of_ofTabular (List.mem_filter.mp member).1 found
  rw [hasBody.rows] at isRow
  obtain ⟨other, isOther, rfl⟩ := List.mem_map.mp isRow
  rw [Row.totalWidth_padded, Row.written_padded (length_cells_of_mem_rowsOf isOther), Nat.max_comm]

end Table

end LatexTabular
