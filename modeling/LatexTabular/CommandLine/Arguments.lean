import LatexTabular.Command.Basic

/-!
# Command line arguments

The arguments are options, then at most one input file, in any order, and then a
command with its own arguments.  An option that takes a value has it as the next
argument or attached, after an equals sign for a long name.  The word `help` stands
for a command too; it takes the name of the command to explain, or nothing.

`Request.read` reads a list of arguments from left to right.  The first fault
ends the reading, and so does a request for the version or the usage.
-/

namespace LatexTabular.CommandLine

/-- Why arguments make no request. -/
inductive Fault where
  | unknownArgument (argument : Text)
  | missingValue (option : Text)
  | unexpectedValue (option : Text)
  | invalidValue (option value : Text)
  | repeatedOption (option : Text)
  | missingCommand
  | missingArgument (command : Text)
  deriving DecidableEq, Repr

/-- What to do with the table. -/
inductive Action where
  | edit (command : Command)
  | inspect
  deriving DecidableEq, Repr

/-- The options and the input file of a request. -/
structure Settings where
  input : Option Text := none
  output : Option Text := none
  offset : Option Nat := none
  selection : Option Selection := none
  optionsFile : Option Text := none
  legacy : Bool := false
  json : Bool := false
  deriving DecidableEq, Repr

/-- What the arguments ask for. -/
inductive Request where
  | version
  | usage
  | run (settings : Settings) (action : Action)
  deriving DecidableEq, Repr

/-- The parts of a text before and after the first `mark`, if there is one. -/
def splitOnce? (mark : Char) (text : Text) : Option (Text × Text) :=
  match text.dropWhile (· != mark) with
  | _ :: after => some (text.takeWhile (· != mark), after)
  | [] => none

/-- A position as `ROW,COLUMN`; blank characters around the numbers are
ignored. -/
def position? (text : Text) : Option Position := do
  let (row, column) ← splitOnce? ',' text
  return ⟨← Text.number? (Text.trim row), ← Text.number? (Text.trim column)⟩

/-- A selection as one position, or as two with a colon between them. -/
def selection? (text : Text) : Option Selection :=
  match splitOnce? ':' text with
  | some (anchor, focus) => do return ⟨← position? anchor, ← position? focus⟩
  | none => do
      let position ← position? text
      return ⟨position, position⟩

/-- The options that take a value. -/
inductive ValueOption where
  | output
  | offset
  | selection
  | optionsFile
  deriving DecidableEq, Repr

namespace ValueOption

/-- The option with a long name. -/
def ofLong? (name : Text) : Option ValueOption :=
  match String.ofList name with
  | "output" => some output
  | "at" => some offset
  | "select" => some selection
  | "options" => some optionsFile
  | _ => none

/-- The option with a short name. -/
def ofShort? : Char → Option ValueOption
  | 'o' => some output
  | 's' => some selection
  | _ => none

/-- Set an option, which must not be set already, to a value of its kind. -/
def set (option : ValueOption) (name value : Text) (settings : Settings) :
    Except Fault Settings :=
  match option with
  | output =>
      if settings.output.isSome then .error (.repeatedOption name)
      else .ok { settings with output := some value }
  | offset =>
      match Text.number? value with
      | some number =>
          if settings.offset.isSome then .error (.repeatedOption name)
          else .ok { settings with offset := some number }
      | none => .error (.invalidValue name value)
  | selection =>
      match selection? value with
      | some selected =>
          if settings.selection.isSome then .error (.repeatedOption name)
          else .ok { settings with selection := some selected }
      | none => .error (.invalidValue name value)
  | optionsFile =>
      if settings.optionsFile.isSome then .error (.repeatedOption name)
      else .ok { settings with optionsFile := some value }

end ValueOption

/-- What one argument is by its form. -/
inductive Form where
  /-- A pair of hyphens, after which no argument is an option. -/
  | separator
  /-- A long name, with the value attached by an equals sign. -/
  | long (name : Text) (attached : Option Text)
  /-- A short name and what is attached to it. -/
  | short (name : Char) (attached : Text)
  | plain
  deriving DecidableEq, Repr

/-- The form of an argument.  A single hyphen alone is plain. -/
def Form.of : Text → Form
  | ['-', '-'] => separator
  | '-' :: '-' :: rest =>
      match splitOnce? '=' rest with
      | some (name, value) => long name (some value)
      | none => long rest none
  | '-' :: name :: attached => short name attached
  | _ => plain

/-- An argument of a command: an option or a word. -/
inductive Operand where
  | option (argument : Text)
  | word (argument : Text)
  deriving DecidableEq, Repr

namespace Operand

def argument : Operand → Text
  | option argument | word argument => argument

/-- Tell the options of a command from its words. -/
def readAll : List Text → List Operand
  | [] => []
  | argument :: rest =>
      match Form.of argument with
      | .separator => rest.map word
      | .plain => word argument :: readAll rest
      | _ => option argument :: readAll rest

end Operand

/-- Read the one argument of a command, a word among alternatives. -/
def readWord {α : Type} (command : Text) (alternatives : List (String × α))
    (arguments : List Text) : Except Fault α :=
  match Operand.readAll arguments with
  | [] => .error (.missingArgument command)
  | [.word argument] =>
      match alternatives.lookup (String.ofList argument) with
      | some value => .ok value
      | none => .error (.invalidValue command argument)
  | [.option argument] => .error (.unknownArgument argument)
  | _ :: extra :: _ => .error (.unknownArgument extra.argument)

/-- Read the arguments of a command that takes none but one flag. -/
def readFlag (flag : Text) (arguments : List Text) : Except Fault Bool :=
  match Operand.readAll arguments with
  | [] => .ok false
  | first :: rest =>
      if first != .option flag then .error (.unknownArgument first.argument)
      else
        match rest with
        | [] => .ok true
        | extra :: _ => .error (.unknownArgument extra.argument)

/-- Read the arguments of a command that takes none. -/
def readNothing (arguments : List Text) : Except Fault Unit :=
  match Operand.readAll arguments with
  | [] => .ok ()
  | extra :: _ => .error (.unknownArgument extra.argument)

/-- Read the arguments of the command with a name, if there is such a command. -/
def Action.reader? (name : Text) : Option (List Text → Except Fault Action) :=
  match String.ofList name with
  | "borders" =>
      some fun arguments => do
        let theme ← readWord name
          [("none", BorderTheme.noBorders), ("full", .fullyBordered)] arguments
        return .edit (.setBorders theme)
  | "align" =>
      some fun arguments => do
        let alignment ← readWord name
          [("left", Alignment.left), ("center", .center), ("right", .right)] arguments
        return .edit (.setAlignment alignment)
  | "insert-row" =>
      some fun arguments => do
        return .edit (.insertRow !(← readFlag "--above".toList arguments))
  | "insert-column" =>
      some fun arguments => do
        return .edit (.insertColumn !(← readFlag "--before".toList arguments))
  | "remove" =>
      some fun arguments => do
        readNothing arguments
        return .edit .removeRowsOrColumns
  | "merge" =>
      some fun arguments => do
        readNothing arguments
        return .edit .mergeCells
  | "unmerge" =>
      some fun arguments => do
        readNothing arguments
        return .edit .unmergeCells
  | "caption" =>
      some fun arguments => do
        let command ← readWord name
          [("above", Command.moveCaption .above), ("below", .moveCaption .below),
            ("remove", .removeCaption)] arguments
        return .edit command
  | "inspect" =>
      some fun arguments => do
        readNothing arguments
        return .inspect
  | _ => none

/-- The options that take no value. -/
inductive Switch where
  | legacy
  | json
  | version
  | usage
  deriving DecidableEq, Repr

namespace Switch

/-- The option with a long name. -/
def ofLong? (name : Text) : Option Switch :=
  match String.ofList name with
  | "legacy" => some legacy
  | "json" => some json
  | "version" => some version
  | "help" => some usage
  | _ => none

/-- The option with a short name. -/
def ofShort? : Char → Option Switch
  | 'V' => some version
  | 'h' => some usage
  | _ => none

end Switch

/-- What an argument before the command means. -/
inductive Item where
  | input
  | help
  | switch (switch : Switch) (name : Text)
  /-- An option that takes a value, with the value if it is attached. -/
  | valued (option : ValueOption) (name : Text) (attached : Option Text)
  deriving DecidableEq, Repr

/-- The meaning of an argument.  No command can follow a separator. -/
def Item.of (argument : Text) : Except Fault Item :=
  match Form.of argument with
  | .separator => .error .missingCommand
  | .plain => .ok (if argument = "help".toList then help else input)
  | .long name attached =>
      match ValueOption.ofLong? name, Switch.ofLong? name with
      | some option, _ => .ok (valued option name attached)
      | none, some found =>
          if attached.isSome then .error (.unexpectedValue name)
          else .ok (switch found name)
      | none, none => .error (.unknownArgument argument)
  | .short name attached =>
      match ValueOption.ofShort? name, Switch.ofShort? name with
      | some option, _ =>
          .ok <| valued option [name] <|
            match attached with
            | [] => none
            | '=' :: value => some value
            | value => some value
      | none, some found => .ok (switch found [name])
      | none, none => .error (.unknownArgument argument)

namespace Request

/-- Read the arguments of `help`: no more than the name of one command, of which
`help` is one. -/
def readHelp : List Text → Except Fault Request
  | [] => .ok usage
  | topic :: rest =>
      if (Action.reader? topic).isNone && topic != "help".toList then
        .error (.unknownArgument topic)
      else
        match rest with
        | [] => .ok usage
        | extra :: _ => .error (.unknownArgument extra)

/-- Read arguments after those that gave the settings so far. -/
def readFrom (settings : Settings) : List Text → Except Fault Request
  | [] => .error .missingCommand
  | argument :: rest =>
      match Action.reader? argument, Item.of argument with
      | some read, _ => return run settings (← read rest)
      | none, .error fault => .error fault
      | none, .ok .input =>
          if settings.input.isSome then .error (.unknownArgument argument)
          else readFrom { settings with input := some argument } rest
      | none, .ok .help => readHelp rest
      | none, .ok (.switch .version _) => .ok version
      | none, .ok (.switch .usage _) => .ok usage
      | none, .ok (.switch .legacy name) =>
          if settings.legacy then .error (.repeatedOption name)
          else readFrom { settings with legacy := true } rest
      | none, .ok (.switch .json name) =>
          if settings.json then .error (.repeatedOption name)
          else readFrom { settings with json := true } rest
      | none, .ok (.valued option name (some value)) => do
          readFrom (← option.set name value settings) rest
      | none, .ok (.valued option name none) =>
          match rest with
          | [] => .error (.missingValue name)
          | value :: rest =>
              if Form.of value = .plain then do
                readFrom (← option.set name value settings) rest
              else .error (.missingValue name)

/-- Read the arguments of the command line. -/
def read (arguments : List Text) : Except Fault Request := readFrom {} arguments

end Request

end LatexTabular.CommandLine
