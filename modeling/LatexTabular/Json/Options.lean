import LatexTabular.Json.Command
import LatexTabular.Options

/-!
# Options as JSON

Options are an object whose members set single options; those not given keep
their defaults.  An array gives the first options in order.
-/

namespace LatexTabular.Options

/-- One option: its name, how a value sets it, and its value. -/
structure Field where
  name : String
  set? : Json → Options → Option Options
  get : Options → Json

/-- All options, in order. -/
def fields : List Field :=
  [⟨"cell_separator",
      fun value options => value.asString?.map ({ options with cellSeparator := · }),
      (.string ·.cellSeparator)⟩,
    ⟨"row_terminator",
      fun value options => value.asString?.map ({ options with rowTerminator := · }),
      (.string ·.rowTerminator)⟩,
    ⟨"hline",
      fun value options => value.asString?.map ({ options with horizontalRule := · }),
      (.string ·.horizontalRule)⟩,
    ⟨"default_caption",
      fun value options => value.asString?.map ({ options with defaultCaption := · }),
      (.string ·.defaultCaption)⟩,
    ⟨"default_label",
      fun value options => value.asString?.map ({ options with defaultLabel := · }),
      (.string ·.defaultLabel)⟩,
    ⟨"merge_alignment",
      fun value options =>
        (Alignment.ofJson? value).map ({ options with mergeAlignment := · }),
      (·.mergeAlignment.toJson)⟩,
    ⟨"merge_inherits_borders",
      fun value options => value.asBool?.map ({ options with mergeKeepsRules := · }),
      (.bool ·.mergeKeepsRules)⟩,
    ⟨"blank_lines_to_consume",
      fun value options => value.asNatural?.map ({ options with blankLines := · }),
      (.natural ·.blankLines)⟩]

/-- The option with a name. -/
def field? (name : Text) : Option Field :=
  fields.find? fun field => field.name.toList == name

/-- The options that a JSON value describes.  Members with other names are
ignored, and no option may be given twice. -/
def ofJson? : Json → Option Options
  | .object members =>
      let known := members.filterMap fun (name, value) =>
        (field? name).map fun field => (field, value)
      if (known.map (·.1.name)).eraseDups.length = known.length then
        known.foldlM (fun options (field, value) => field.set? value options) {}
      else none
  | .array values =>
      if values.length ≤ fields.length then
        (fields.zip values).foldlM
          (fun options (field, value) => field.set? value options) {}
      else none
  | _ => none

def toJson (options : Options) : Json :=
  .ofMembers (fields.map fun field => (field.name, field.get options))

end LatexTabular.Options
