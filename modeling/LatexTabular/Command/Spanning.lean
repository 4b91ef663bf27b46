import LatexTabular.Command.Basic
import LatexTabular.Options

/-!
# Merged cells

Merging replaces neighbouring cells of one row by one `\multicolumn` with their
contents side by side.  Splitting a merged cell leaves its content in the first
of as many cells as it had columns.
-/

namespace LatexTabular.Plan

/-- The command that merges columns. -/
def mergeText (range : ColumnRange) (column : Column) (content : Text) : Text :=
  "\\multicolumn".toList ++ ['\x7b'] ++ Text.ofNumber (range.last + 1 - range.first)
    ++ ['\x7d', '\x7b'] ++ Specifier.render [column] ++ ['\x7d', '\x7b'] ++ content
    ++ ['\x7d']

/-- The column of a new merged cell.  It can keep the outer rules of the columns
it covers. -/
def mergedColumn (table : Table) (range : ColumnRange) (options : Options) :
    Column :=
  let plain := Column.plain options.mergeAlignment
  if options.mergeKeepsRules then
    { plain with
      leftRules := (table.columns[range.first]?.map (·.leftRules)).getD 0
      rightRules := (table.columns[range.last]?.map (·.rightRules)).getD 0 }
  else plain

/-- Merge the selected cells, which must lie in one row and be more than one.
Merged cells among them are taken in whole. -/
def mergeCells (table : Table) (selection : Selection) (options : Options) : Batch :=
  let bounds := selection.bounds
  let edit? : Option Edit := do
    let row ← if bounds.top = bounds.bottom then table.rows[bounds.top]? else none
    let first ← row.cellIndex? bounds.left
    let last ← row.cellIndex? bounds.right
    let leftmost ← row.columnsAt? bounds.left
    let rightmost ← row.columnsAt? bounds.right
    let cells := (row.cells.drop first).take (last + 1 - first)
    let firstCell ← cells.head?
    let lastCell ← cells.getLast?
    let range : ColumnRange := ⟨leftmost.first, rightmost.last⟩
    let content := Text.trim (List.intercalate [' '] (cells.map (·.content)))
    if first = last then none
    else
      some ⟨⟨firstCell.outer.start, lastCell.outer.stop⟩,
        mergeText range (mergedColumn table range options) content⟩
  edit?.toList

/-- Split the merged cell at the first corner of the selection. -/
def unmergeCells (table : Table) (selection : Selection) (options : Options) :
    Batch :=
  match (table.cellAt? selection.anchor.row selection.anchor.column).bind (·.merge) with
  | some merge =>
      [.deletion merge.preamble,
        ⟨merge.postamble,
          Text.repeated (merge.columns - 1) options.bareSeparator⟩]
  | none => []

end LatexTabular.Plan
