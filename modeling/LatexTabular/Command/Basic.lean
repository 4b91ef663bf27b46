import LatexTabular.Edit
import LatexTabular.Selection
import LatexTabular.Text.Line

/-!
# Commands

A command says what is to be done to a table.  Planning it yields a batch of
edits for the document and the selection to show afterwards.
-/

namespace LatexTabular

/-- The rules a table can be given as a whole. -/
inductive BorderTheme where
  /-- No rule anywhere. -/
  | noBorders
  /-- A rule around every cell. -/
  | fullyBordered
  deriving DecidableEq, Repr

/-- What is to be done to a table. -/
inductive Command where
  | setBorders (theme : BorderTheme)
  | setAlignment (alignment : Alignment)
  | insertRow (below : Bool)
  | insertColumn (after : Bool)
  | removeRowsOrColumns
  | mergeCells
  | unmergeCells
  | moveCaption (side : Side)
  | removeCaption
  deriving DecidableEq, Repr

namespace Command

/-- The name of a command, without its parameters. -/
def name : Command → Text
  | setBorders _ => "set_borders".toList
  | setAlignment _ => "set_alignment".toList
  | insertRow _ => "insert_row".toList
  | insertColumn _ => "insert_column".toList
  | removeRowsOrColumns => "remove_rows_or_columns".toList
  | mergeCells => "merge_cells".toList
  | unmergeCells => "unmerge_cells".toList
  | moveCaption _ => "move_caption".toList
  | removeCaption => "remove_caption".toList

/-- Whether a command looks at the selection.  The others concern the whole
table. -/
def usesSelection : Command → Bool
  | setBorders _ | moveCaption _ | removeCaption => false
  | _ => true

end Command

/-- The edits of a command and the selection to show afterwards; without one the
selection stays.  A command that does not apply has no edits. -/
structure Plan where
  batch : Batch
  selection : Option Selection
  deriving DecidableEq, Repr

namespace Plan

/-- Leave the document and the selection alone. -/
def nothing : Plan := ⟨[], none⟩

/-- Edits that leave the selection alone. -/
def ofBatch (batch : Batch) : Plan := ⟨batch, none⟩

end Plan

end LatexTabular
