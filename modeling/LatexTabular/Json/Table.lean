import LatexTabular.Json.Command
import LatexTabular.Table

/-!
# Tables as JSON

The structure of a table is shown in two parts: `table` holds the cells and
columns, `positions` the places of cells, rows and the tabular.  Separators and
the caption and label follow.
-/

namespace LatexTabular

def Span.toJson (span : Span) : Json :=
  .ofMembers [("from", .natural span.start), ("to", .natural span.stop)]

/-- The value of something that may be missing. -/
def Json.ofOption {α : Type} (write : α → Json) : Option α → Json
  | some value => write value
  | none => null

def Column.toJson (column : Column) : Json :=
  .ofMembers [("alignment", column.alignment.toJson),
    ("border_left", .natural column.leftRules),
    ("border_right", .natural column.rightRules),
    ("content", .string column.markup)]

def Merge.toJson (merge : Merge) : Json :=
  .ofMembers [("from", .natural merge.span.start), ("to", .natural merge.span.stop),
    ("column_span", .natural merge.columns), ("span", merge.number.toJson),
    ("columns", merge.specifier.toJson), ("preamble", merge.preamble.toJson),
    ("postamble", merge.postamble.toJson)]

def Cell.toJson (cell : Cell) : Json :=
  .ofMembers [("content", .string cell.content),
    ("from", .natural cell.contentSpan.start), ("to", .natural cell.contentSpan.stop),
    ("multi_column", .ofOption Merge.toJson cell.merge)]

def Captioning.toJson (captioning : Captioning) : Json :=
  .ofMembers [("caption", .ofOption Span.toJson captioning.caption),
    ("label", .ofOption Span.toJson captioning.label)]

/-- The place of a row and of its rules. -/
def Row.placeJson (row : Row) : Json :=
  .ofMembers [("from", .natural row.span.start), ("to", .natural row.span.stop),
    ("hlines", .array (row.rules.map Span.toJson))]

namespace Table

/-- The cells and columns of a table. -/
def contentsJson (table : Table) : Json :=
  .ofMembers
    [("rows", .array (table.rows.map fun row =>
        .ofMembers [("cells", .array (row.cells.map Cell.toJson))])),
      ("columns", .array (table.columns.map Column.toJson))]

/-- The places of the parts of a table. -/
def positionsJson (table : Table) : Json :=
  .ofMembers
    [("cells", .array (table.rows.map fun row =>
        .array (row.cells.map (·.extent.toJson)))),
      ("column_declarations", table.specifierSpan.toJson),
      ("row_positions", .array (table.rows.map Row.placeJson)),
      ("tabular", table.span.toJson)]

def toJson (table : Table) : Json :=
  .ofMembers
    [("table", table.contentsJson),
      ("positions", table.positionsJson),
      ("cell_separators", .array (table.rows.map fun row =>
        .array (row.separators.map Span.toJson))),
      ("row_separators",
        .array ((table.rows.filterMap (·.terminator)).map Span.toJson)),
      ("environment", .ofOption Captioning.toJson table.float)]

end Table

end LatexTabular
