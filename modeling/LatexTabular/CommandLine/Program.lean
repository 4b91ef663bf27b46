import LatexTabular.Command.Apply
import LatexTabular.CommandLine.Arguments
import LatexTabular.Json.Options
import LatexTabular.Json.Printer
import LatexTabular.Json.Reader
import LatexTabular.Json.Table

/-!
# The command line program

`run` reads the arguments, the options and the document, applies one command and
writes the result.  Files and the standard input are reached through a `Host`, so
that the program is a plain function wherever the host is one.
-/

namespace LatexTabular.CommandLine

/-- The files and the input of a program.  Reading and writing can fail. -/
structure Host (m : Type → Type) where
  load : (path : Text) → m (Option Text)
  input : m (Option Text)
  save : (path content : Text) → m Bool

/-- How a run of the program ends. -/
inductive Outcome where
  /-- The arguments make no request. -/
  | misused (fault : Fault)
  /-- A file could not be read or written, or does not hold options. -/
  | unreachable
  /-- The table could not be read or edited. -/
  | failed (error : EditError)
  /-- The program did its work, with texts for the output and for the user. -/
  | done (output messages : Text)
  deriving DecidableEq, Repr

namespace Outcome

/-- The exit code of the program. -/
def exitCode : Outcome → Nat
  | done _ _ => 0
  | unreachable | failed _ => 1
  | misused _ => 2

/-- What the program writes to the standard output. -/
def output : Outcome → Text
  | done output _ => output
  | _ => []

end Outcome

/-- The version of the library. -/
def version : Text := "0.2.0".toList

def versionText : Text := "tabedit ".toList ++ version ++ ['\n']

/-- How the program is called. -/
def usageText : Text :=
  ("Usage: tabedit [OPTIONS] [INPUT_FILE] <COMMAND>\n\n"
    ++ "Commands: borders none|full, align left|center|right, insert-row [--above],\n"
    ++ "  insert-column [--before], remove, merge, unmerge,\n"
    ++ "  caption above|below|remove, inspect\n\n"
    ++ "Options: -o/--output FILE, --at OFFSET, -s/--select ROW,COL[:ROW,COL],\n"
    ++ "  --options FILE, --legacy, --json, -h/--help, -V/--version\n").toList

/-- The note for a command that had nothing to do. -/
def unchangedNote (command : Command) : Text :=
  "Note: ".toList ++ command.name ++ " made no changes\n".toList

/-- The message after an output file was written. -/
def writtenNote (path : Text) : Text :=
  "✓ Output written to: ".toList ++ path ++ ['\n']

/-- The message for an error. -/
def errorMessage (error : EditError) : Text :=
  "Error: ".toList ++ error.message ++ ['\n']

/-- The edits and the selection of an applied command. -/
def reportJson (applied : Applied) : Json :=
  .ofMembers [("changes", .array (applied.batch.map Edit.toJson)),
    ("selection", .ofOption Selection.toJson applied.selection)]

section

variable {m : Type → Type} [Monad m]

/-- The options of a request, if its options file can be read. -/
def loadOptions (host : Host m) (settings : Settings) : m (Option Options) := do
  let loaded : Option Options ←
    match settings.optionsFile with
    | some path => do
        let content ← host.load path
        pure (content.bind fun content => (Json.read? content).bind Options.ofJson?)
    | none => pure (some {})
  return loaded.map fun options =>
    if settings.legacy then { options with mergeKeepsRules := false } else options

/-- The document of a request, if it can be read. -/
def loadDocument (host : Host m) (settings : Settings) : m (Option Text) :=
  match settings.input with
  | some path => host.load path
  | none => host.input

/-- Show the structure of the table at an offset. -/
def inspect (document : Text) (offset : Nat) : Outcome :=
  match Table.readAt document offset with
  | .ok table => .done (table.toJson.pretty ++ ['\n']) []
  | .error error => .failed error

/-- Write the result of a command to the output file or the standard output.
Only the standard output gets a line feed after a report. -/
def deliver (host : Host m) (settings : Settings) (command : Command)
    (applied : Applied) : m Outcome := do
  let note := if applied.batch.isEmpty then unchangedNote command else []
  let result :=
    if settings.json then (reportJson applied).pretty else applied.document
  match settings.output with
  | some path =>
      if ← host.save path result then
        return .done [] (note ++ writtenNote path)
      else return .unreachable
  | none => return .done (if settings.json then result ++ ['\n'] else result) note

/-- Carry out a request. -/
def perform (host : Host m) (settings : Settings) (action : Action) : m Outcome := do
  match ← loadOptions host settings with
  | none => return .unreachable
  | some options =>
      match ← loadDocument host settings with
      | none => return .unreachable
      | some document =>
          match Table.offsetIn document settings.offset with
          | .error error => return .failed error
          | .ok offset =>
              match action with
              | .inspect => return inspect document offset
              | .edit command =>
                  match command.apply document offset settings.selection options with
                  | .error error => return .failed error
                  | .ok applied => deliver host settings command applied

/-- Run the program with its arguments. -/
def run (host : Host m) (arguments : List Text) : m Outcome :=
  match Request.read arguments with
  | .error fault => return .misused fault
  | .ok .version => return .done versionText []
  | .ok .usage => return .done usageText []
  | .ok (.run settings action) => perform host settings action

end

end LatexTabular.CommandLine
