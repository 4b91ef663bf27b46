import LatexTabular.Markup.Environment
import LatexTabular.Markup.Group
import LatexTabular.Table
import LatexTabular.Text.Word

/-!
# The float around a tabular

A float environment may hold a caption and a label beside its tabular.  The
first of each counts that stands outside the tabular and outside comments.
-/

namespace LatexTabular.Captioning

open Markup

/-- The commands of a float. -/
inductive Command where
  | caption
  | label
  deriving DecidableEq, Repr

/-- The name of a command of a float. -/
def Command.name : Command → Text
  | caption => "caption".toList
  | label => "label".toList

/-- A command of a float with its arguments. -/
structure Occurrence where
  command : Command
  span : Span
  deriving DecidableEq, Repr

/-- The command at the front of a text that starts at `offset`.  Its name must
end where a word ends. -/
def occurrence? (offset : Nat) (text : Text) : Option Occurrence :=
  let read (command : Command) : Option Occurrence := do
    let rest ← Text.after? ('\\' :: command.name) text
    if Text.wordEnds rest then
      let stop := offset + 1 + command.name.size + (arguments 1 rest).size
      some ⟨command, ⟨offset, stop⟩⟩
    else none
  (read .caption).orElse fun _ => read .label

/-- The commands in a text that starts at `offset`, in their order. -/
def occurrencesFrom (offset : Nat) : Text → List Occurrence
  | [] => []
  | head :: rest =>
      let others := occurrencesFrom (offset + head.utf8Size) rest
      match occurrence? offset (head :: rest) with
      | some occurrence => occurrence :: others
      | none => others

/-- The caption and the label of a float around a tabular. -/
def ofFloat (document : Text) (float : Environment) (tabular : Span) :
    Captioning :=
  let occurrences :=
    (occurrencesFrom float.interior.start
        (document.slice float.interior)).filter fun occurrence =>
      !tabular.covers occurrence.span.start
        && !isCommented document occurrence.span.start
  let first (command : Command) : Option Span :=
    (occurrences.find? (·.command == command)).map (·.span)
  ⟨first .caption, first .label⟩

/-- The environments that are floats. -/
def floatNames : List Text :=
  ["table".toList, "table*".toList, "sidewaystable".toList, "wraptable".toList]

/-- The caption and label that belong to a tabular: those of the innermost float
around it. -/
def ofTabular? (document : Text) (environments : List Environment)
    (tabular : Span) : Option Captioning :=
  let floats := environments.filter fun float =>
    floatNames.contains float.name && float.span.contains tabular
      && float.span.start < tabular.start
  floats.getLast?.map (ofFloat document · tabular)

end LatexTabular.Captioning
