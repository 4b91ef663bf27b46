import LatexTabular.Command.Captions
import LatexTabular.Command.Growth
import LatexTabular.Command.Removal
import LatexTabular.Command.Spanning
import LatexTabular.Command.Style
import LatexTabular.Table.Read

/-!
# Planning and applying commands

`Command.plan` plans any command for a table, and `Command.apply` reads the
table, plans the command and applies its edits.  A `Session` carries a document
and a selection from one command to the next.
-/

namespace LatexTabular

namespace Command

/-- Plan a command for a table. -/
def plan (command : Command) (table : Table) (selection : Selection)
    (options : Options) : Plan :=
  match command with
  | setBorders theme => .ofBatch (Plan.setBorders table theme options)
  | setAlignment alignment => .ofBatch (Plan.setAlignment table selection alignment)
  | insertRow below => Plan.insertRow table selection below options
  | insertColumn after => Plan.insertColumn table selection after options
  | removeRowsOrColumns => Plan.removeRowsOrColumns table selection options
  | mergeCells => .ofBatch (Plan.mergeCells table selection options)
  | unmergeCells => .ofBatch (Plan.unmergeCells table selection options)
  | moveCaption side => .ofBatch (Plan.moveCaption table side options)
  | removeCaption => .ofBatch (Plan.removeCaption table)

end Command

/-- A changed document, the edits that changed it, and the selection to show. -/
structure Applied where
  document : Text
  batch : Batch
  selection : Option Selection
  deriving DecidableEq, Repr

/-- The offset of a table: the given one, or else the start of the first
table. -/
def Table.offsetIn (document : Text) : Option Nat → Except EditError Nat
  | some offset => .ok offset
  | none => return (← Table.readFirst document).span.start

namespace Command

/-- Read the table around an offset, plan a command for it and apply the edits.
Without a selection the first cell is selected. -/
def apply (command : Command) (document : Text) (offset : Nat)
    (selection : Option Selection) (options : Options) :
    Except EditError Applied := do
  let table ← Table.readAt document offset
  let selected := selection.getD (.single 0 0)
  if command.usesSelection then selected.validate table
  let plan := command.plan table selected options
  return ⟨← plan.batch.apply document, plan.batch, plan.selection⟩

end Command

/-- A document under edit and what is selected in it. -/
structure Session where
  document : Text
  selection : Option Selection
  deriving DecidableEq, Repr

namespace Session

/-- Apply a command.  If it fails, document and selection stay; otherwise the
document is replaced, and the selection if the command yields one. -/
def apply (session : Session) (command : Command) (offset : Option Nat)
    (options : Options) : Session × Except EditError Applied :=
  let outcome := do
    let offset ← Table.offsetIn session.document offset
    command.apply session.document offset session.selection options
  match outcome with
  | .ok applied =>
      (⟨applied.document, applied.selection.orElse fun _ => session.selection⟩,
        outcome)
  | .error _ => (session, outcome)

end Session

end LatexTabular
