import LatexTabular.Command.Basic
import LatexTabular.Options

/-!
# Borders and alignment

Borders concern the whole table: the rules in its specifier and in those of its
merged cells, and the horizontal rules of its rows.  Alignment concerns the
columns that are selected over their full height, or the merged cell that the
selection lies in.
-/

namespace LatexTabular.Plan

/-- A rule in front of the cells of a row that has none there. -/
def leadingRule (options : Options) (row : Row) : List Edit :=
  let firstCell := (row.cells.head?.map (·.extent.start)).getD row.span.stop
  if row.rules.any (·.stop ≤ firstCell) then []
  else
    [.insertion row.span.start ([' '] ++ options.horizontalRule ++ [' '])]

/-- A rule after the last row, if none stands there.  A row without a terminator
gets one in front of the rule. -/
def trailingRule (options : Options) (row : Row) : List Edit :=
  let lastCell := (row.cells.getLast?.map (·.extent.stop)).getD row.span.start
  if row.rules.any (lastCell ≤ ·.start) then []
  else
    let terminator :=
      if row.terminator.isNone then [' '] ++ options.rowTerminator else []
    [.insertion row.span.stop (terminator ++ [' '] ++ options.horizontalRule)]

/-- A rule in front of every row and one after the last. -/
def rulesForRows (options : Options) : List Row → List Edit
  | [] => []
  | [row] => leadingRule options row ++ trailingRule options row
  | row :: rest => leadingRule options row ++ rulesForRows options rest

/-- Give the whole table the borders of a theme. -/
def setBorders (table : Table) (theme : BorderTheme) (options : Options) : Batch :=
  let rewrite : Text → Text :=
    match theme with
    | .noBorders => Specifier.removeRules
    | .fullyBordered => Specifier.addRules
  let rewritten (span : Span) : List Edit :=
    Edit.revision span (table.slice span) (rewrite (table.slice span))
  let horizontal : List Edit :=
    match theme with
    | .noBorders => table.rows.flatMap fun row => row.rules.map Edit.deletion
    | .fullyBordered => rulesForRows options table.rows
  rewritten table.specifierSpan ++ horizontal
    ++ table.merges.flatMap fun merge => rewritten merge.specifier

/-- Align the columns of a specifier that `picked` accepts by their index. -/
def alignColumns (picked : Nat → Bool) (alignment : Alignment)
    (columns : List Column) : List Column :=
  columns.mapIdx fun index column =>
    if picked index then column.align alignment else column

/-- Align the picked columns of the specifier in a span.  If all of them have
the alignment already, nothing is planned. -/
def realign (table : Table) (span : Span) (picked : Nat → Bool)
    (alignment : Alignment) : List Edit :=
  let columns := Specifier.columns (table.slice span)
  let aligned := alignColumns picked alignment columns
  if aligned = columns then []
  else Edit.revision span (table.slice span) (Specifier.render aligned)

/-- Align the merged cell the selection lies in, or else the columns selected
over their full height. -/
def setAlignment (table : Table) (selection : Selection) (alignment : Alignment) :
    Batch :=
  match selection.merge? table with
  | some merge => realign table merge.specifier (fun _ => true) alignment
  | none => realign table table.specifierSpan (selection.coversColumn table) alignment

end LatexTabular.Plan
