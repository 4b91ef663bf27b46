import LatexTabular.Command.Basic
import LatexTabular.Json.Basic

/-!
# Commands, selections and edits as JSON

A command is an object whose member `command` names it, with its parameters as
further members.  Members that the command does not have are ignored.
-/

namespace LatexTabular

namespace Alignment

/-- The name of an alignment. -/
def name : Alignment → String
  | left => "left"
  | center => "center"
  | right => "right"

def ofJson? (value : Json) : Option Alignment := do
  let given ← value.asName?
  [left, center, right].find? fun alignment => alignment.name.toList == given

def toJson (alignment : Alignment) : Json := .string alignment.name.toList

end Alignment

namespace BorderTheme

/-- The name of a theme. -/
def name : BorderTheme → String
  | noBorders => "no_borders"
  | fullyBordered => "fully_bordered"

def ofJson? (value : Json) : Option BorderTheme := do
  let given ← value.asName?
  [noBorders, fullyBordered].find? fun theme => theme.name.toList == given

def toJson (theme : BorderTheme) : Json := .string theme.name.toList

end BorderTheme

namespace Side

/-- The name of a side. -/
def name : Side → String
  | above => "above"
  | below => "below"

def ofJson? (value : Json) : Option Side := do
  let given ← value.asName?
  [above, below].find? fun side => side.name.toList == given

def toJson (side : Side) : Json := .string side.name.toList

end Side

namespace Command

/-- The parameter of a command with its name, if the command has one. -/
def parameter? : Command → Option (String × Json)
  | setBorders theme => some ("theme", theme.toJson)
  | setAlignment alignment => some ("alignment", alignment.toJson)
  | insertRow below => some ("below", .bool below)
  | insertColumn after => some ("after", .bool after)
  | moveCaption side => some ("target", side.toJson)
  | removeRowsOrColumns | mergeCells | unmergeCells | removeCaption => none

def toJson (command : Command) : Json :=
  .ofMembers (("command", .string command.name) :: command.parameter?.toList)

/-- The command an object describes, if its name is known and its parameter is
there and of the right type. -/
def ofJson? (value : Json) : Option Command := do
  match String.ofList (← (← value.member? "command").asString?) with
  | "set_borders" =>
      return setBorders (← BorderTheme.ofJson? (← value.member? "theme"))
  | "set_alignment" =>
      return setAlignment (← Alignment.ofJson? (← value.member? "alignment"))
  | "insert_row" => return insertRow (← (← value.member? "below").asBool?)
  | "insert_column" => return insertColumn (← (← value.member? "after").asBool?)
  | "remove_rows_or_columns" => return removeRowsOrColumns
  | "merge_cells" => return mergeCells
  | "unmerge_cells" => return unmergeCells
  | "move_caption" => return moveCaption (← Side.ofJson? (← value.member? "target"))
  | "remove_caption" => return removeCaption
  | _ => none

end Command

def Position.toJson (position : Position) : Json :=
  .ofMembers [("cell", .natural position.column), ("row", .natural position.row)]

def Selection.toJson (selection : Selection) : Json :=
  .ofMembers [("from", selection.anchor.toJson), ("to", selection.focus.toJson)]

/-- An edit with its members in the order of their names. -/
def Edit.toJson (edit : Edit) : Json :=
  .ofMembers [("from", .natural edit.span.start), ("insert", .string edit.replacement),
    ("to", .natural edit.span.stop)]

end LatexTabular
