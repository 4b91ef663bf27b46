import LatexTabular.Proofs.Text.Numeral
import LatexTabular.Table.Read
import Mathlib.Algebra.GroupWithZero.Nat

/-!
# Tables as they are written

A sheet is a table together with the white space between its tokens: a document
with one tabular whose cells are plain texts or `\multicolumn` commands.
`Sheet.text` is the document and `Sheet.table` the table it should be read as,
each token at its place.
-/

namespace LatexTabular

open Markup Body

namespace Text

/-- A character without a meaning of its own in a table. -/
def isOrdinary (character : Char) : Bool :=
  character != '\\' && character != '\x7b' && character != '\x7d' && character != '&'
    && character != '%'

/-- A text without markup and without white space at its ends. -/
structure IsPlain (text : Text) : Prop where
  ordinary : ∀ character ∈ text, isOrdinary character = true
  head : ∀ character ∈ text.head?, isBlank character = false
  last : ∀ character ∈ text.getLast?, isBlank character = false

/-- A specifier of letters and bars. -/
def IsBarred (text : Text) : Prop := ∀ character ∈ text, isLetter character = true ∨ character = '|'

/-- A text of white space only. -/
def IsSpace (text : Text) : Prop := ∀ character ∈ text, isSpace character = true

end Text

/-- What stands in a cell: a text, or a `\multicolumn` with its number, its
specifier and its content. -/
inductive Entry where
  | plain (content : Text)
  | merged (number specifier content : Text)
  deriving DecidableEq, Repr

namespace Entry

/-- The parts of a `\multicolumn` without white space between its arguments. -/
def mergeText (number specifier content : Text) : MergeText where
  numberGap := []
  number := number
  specifierGap := []
  specifier := specifier
  contentGap := []
  content := content
  columns := Text.digitsValue number

def text : Entry → Text
  | plain content => content
  | merged number specifier content => (mergeText number specifier content).text

def content : Entry → Text
  | plain content => content
  | merged _ _ content => content

/-- The number of columns an entry takes. -/
def width : Entry → Nat
  | plain _ => 1
  | merged number _ _ => max (Text.digitsValue number) 1

/-- The entry of an empty cell. -/
def blank : Entry := plain []

/-- An entry that is read as it is written. -/
def WellFormed : Entry → Prop
  | plain content => content.IsPlain
  | merged number specifier content =>
      Text.IsNumeral number ∧ 1 ≤ Text.digitsValue number ∧
        Text.digitsValue number < Text.wordLimit ∧ specifier.IsBarred ∧ content.IsPlain

/-- The cell that an entry makes at an offset. -/
def laid (start : Nat) (entry : Entry) : Cell :=
  let extent : Span := ⟨start, start + entry.text.size⟩
  match entry with
  | plain content => ⟨content, extent, extent, none⟩
  | merged number specifier content =>
      let parts := mergeText number specifier content
      { content := content
        contentSpan := Text.trimmedSpan (start + parts.preamble.size) content
        extent := extent
        merge := some (parts.place start) }

end Entry

/-- An entry with the white space around it. -/
structure WrittenCell where
  before : Text
  entry : Entry
  after : Text
  deriving DecidableEq, Repr

namespace WrittenCell

def text (cell : WrittenCell) : Text := cell.before ++ cell.entry.text ++ cell.after

/-- A cell that is read as it is written.  An empty cell stands at its front. -/
structure WellFormed (cell : WrittenCell) : Prop where
  before : cell.before.IsSpace
  entry : cell.entry.WellFormed
  after : cell.after.IsSpace
  anchored : cell.entry.text = [] → cell.before = []

end WrittenCell

/-- The text of cells, with a separator between any two. -/
def cellsText : List WrittenCell → Text
  | [] => []
  | [cell] => cell.text
  | cell :: rest => cell.text ++ '&' :: cellsText rest

/-- The cells that start at an offset. -/
def layCells (start : Nat) : List WrittenCell → List Cell
  | [] => []
  | cell :: rest =>
      cell.entry.laid (start + cell.before.size)
        :: layCells (start + cell.text.size + 1) rest

/-- The separators between cells that start at an offset. -/
def laySeparators (start : Nat) : List WrittenCell → List Span
  | [] => []
  | [_] => []
  | cell :: rest =>
      ⟨start + cell.text.size, start + cell.text.size + 1⟩
        :: laySeparators (start + cell.text.size + 1) rest

/-- Horizontal rules, each behind some white space. -/
def rulesText (gaps : List Text) : Text := gaps.flatMap (· ++ "\\hline".toList)

/-- The rules that start at an offset. -/
def layRules (start : Nat) : List Text → List Span
  | [] => []
  | gap :: rest =>
      ⟨start + gap.size, start + gap.size + 6⟩ :: layRules (start + gap.size + 6) rest

/-- A row with its rules and its terminator. -/
structure WrittenRow where
  /-- The white space in front of each rule. -/
  ruleGaps : List Text
  cells : List WrittenCell
  deriving DecidableEq, Repr

namespace WrittenRow

def text (row : WrittenRow) : Text :=
  rulesText row.ruleGaps ++ cellsText row.cells ++ "\\\\".toList

/-- The number of columns the cells of a row take. -/
def width (row : WrittenRow) : Nat := (row.cells.map (·.entry.width)).sum

/-- Where the cells of a row start. -/
def cellsStart (start : Nat) (row : WrittenRow) : Nat :=
  start + (rulesText row.ruleGaps).size

/-- The row that starts at an offset. -/
def laid (start : Nat) (row : WrittenRow) : Row where
  span := ⟨start, start + row.text.size⟩
  rules := layRules start row.ruleGaps
  cells := layCells (row.cellsStart start) row.cells
  separators := laySeparators (row.cellsStart start) row.cells
  terminator :=
    some ⟨row.cellsStart start + (cellsText row.cells).size, start + row.text.size⟩

end WrittenRow

/-- The rows that start at an offset.  Rules behind the last one belong to it. -/
def layRows (start : Nat) (closing : List Span) : List WrittenRow → List Row
  | [] => []
  | [row] => [{ row.laid start with rules := layRules start row.ruleGaps ++ closing }]
  | row :: rest => row.laid start :: layRows (start + row.text.size) closing rest

/-- A document with one tabular. -/
structure Sheet where
  /-- What stands in front of the tabular. -/
  lead : Text
  specifier : Text
  rows : List WrittenRow
  /-- The white space in front of each rule behind the last row. -/
  closingGaps : List Text
  /-- The white space in front of the closing delimiter. -/
  closingGap : Text
  /-- What stands behind the tabular. -/
  trail : Text
  deriving DecidableEq, Repr

namespace Sheet

/-- The opening delimiter. -/
def opening : Text := "\\begin\x7btabular\x7d".toList

/-- The closing delimiter. -/
def closing : Text := "\\end\x7btabular\x7d".toList

def rowsText (rows : List WrittenRow) : Text := rows.flatMap WrittenRow.text

/-- What follows the last row. -/
def closingText (sheet : Sheet) : Text := rulesText sheet.closingGaps ++ sheet.closingGap

def body (sheet : Sheet) : Text := rowsText sheet.rows ++ sheet.closingText

/-- Everything in front of the column specifier. -/
def front (sheet : Sheet) : Text := sheet.lead ++ opening ++ ['{']

def text (sheet : Sheet) : Text :=
  sheet.front ++ sheet.specifier ++ '}' :: sheet.body ++ closing ++ sheet.trail

def specifierSpan (sheet : Sheet) : Span :=
  ⟨sheet.front.size, sheet.front.size + sheet.specifier.size⟩

/-- Where the body starts. -/
def bodyStart (sheet : Sheet) : Nat := sheet.specifierSpan.stop + 1

/-- The tabular with its delimiters. -/
def tabular (sheet : Sheet) : Environment where
  name := "tabular".toList
  opening := ⟨sheet.lead.size, sheet.lead.size + opening.size⟩
  closing :=
    ⟨sheet.bodyStart + sheet.body.size, sheet.bodyStart + sheet.body.size + closing.size⟩

def columnCount (sheet : Sheet) : Nat := (Specifier.columns sheet.specifier).length

/-- The rows of a sheet before they are filled up. -/
def laidRows (sheet : Sheet) : List Row :=
  layRows sheet.bodyStart
    (layRules (sheet.bodyStart + (rowsText sheet.rows).size) sheet.closingGaps) sheet.rows

/-- The table that a sheet is to be read as. -/
def table (sheet : Sheet) : Table where
  document := sheet.text
  span := sheet.tabular.span
  specifierSpan := sheet.specifierSpan
  rows := sheet.laidRows.map (Row.padded sheet.columnCount)
  float := none

end Sheet

end LatexTabular
