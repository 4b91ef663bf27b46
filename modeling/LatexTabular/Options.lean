import LatexTabular.Column

/-!
# Options of the edits

The markup that edits write can be chosen, so that documents with a style of
their own keep it.
-/

namespace LatexTabular

/-- What edits write and how they treat what they find. -/
structure Options where
  /-- Written between two new cells. -/
  cellSeparator : Text := " &".toList
  /-- Written at the end of a new row. -/
  rowTerminator : Text := "\\\\".toList
  /-- Written where a table gets a horizontal rule. -/
  horizontalRule : Text := "\\hline".toList
  /-- The caption of a table that has none. -/
  defaultCaption : Text := "\\caption\x7bCaption\x7d".toList
  /-- The label of a table that has neither a caption nor a label. -/
  defaultLabel : Text := "\\label\x7btab:my_table\x7d".toList
  /-- The alignment of a newly merged cell. -/
  mergeAlignment : Alignment := .center
  /-- Whether a newly merged cell keeps the outer rules of its columns. -/
  mergeKeepsRules : Bool := true
  /-- The number of blank lines a moved caption may replace. -/
  blankLines : Nat := 2
  deriving DecidableEq, Repr, Inhabited

namespace Options

/-- The options under which merged cells have no rules. -/
def legacy : Options := { mergeKeepsRules := false }

/-- The cell separator without blank characters around it. -/
def bareSeparator (options : Options) : Text := Text.trim options.cellSeparator

end Options

end LatexTabular
