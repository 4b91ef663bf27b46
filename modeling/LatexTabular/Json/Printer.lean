import LatexTabular.Json.Basic

/-!
# Writing JSON

Values are written on one line, or over several lines with an indent of two
blanks.  Strings escape quotes, backslashes and control characters only.  What has
no text is written as null.
-/

namespace LatexTabular.Json

/-- The digit of a number below sixteen, in lower case. -/
def hexDigit (value : Nat) : Char :=
  if value < 10 then Char.ofNat ('0'.toNat + value)
  else Char.ofNat ('a'.toNat + value - 10)

/-- A character as it stands in a string. -/
def escaped (character : Char) : Text :=
  if character == '"' then ['\\', '"']
  else if character == '\\' then ['\\', '\\']
  else if character == '\n' then ['\\', 'n']
  else if character == '\r' then ['\\', 'r']
  else if character == '\t' then ['\\', 't']
  else if character == '\x08' then ['\\', 'b']
  else if character == '\x0c' then ['\\', 'f']
  else if character.toNat < 0x20 then
    ['\\', 'u', '0', '0', hexDigit (character.toNat / 16),
      hexDigit (character.toNat % 16)]
  else [character]

/-- A string with its quotes. -/
def quoted (value : Text) : Text := '"' :: value.flatMap escaped ++ ['"']

/-- How the parts of arrays and objects are set apart, at a depth of nesting. -/
structure Layout where
  /-- Written before every element and before the closing bracket. -/
  lineBreak : (depth : Nat) → Text
  /-- Written between a name and its value. -/
  colon : Text

/-- Everything on one line. -/
def Layout.line : Layout := ⟨fun _ => [], [':']⟩

/-- Every element on a line of its own. -/
def Layout.indented : Layout :=
  ⟨fun depth => '\n' :: List.replicate (2 * depth) ' ', [':', ' ']⟩

mutual

/-- Write a value at a depth of nesting. -/
def write (layout : Layout) (depth : Nat) : Json → Text
  | null => "null".toList
  | bool true => "true".toList
  | bool false => "false".toList
  | natural value => Text.ofNumber value
  | number literal => literal
  | string value => quoted value
  | array [] => ['[', ']']
  | array (first :: rest) =>
      '[' :: layout.lineBreak (depth + 1) ++ write layout (depth + 1) first
        ++ writeElements layout depth rest
  | object [] => ['\x7b', '\x7d']
  | object ((name, value) :: rest) =>
      '\x7b' :: layout.lineBreak (depth + 1) ++ quoted name ++ layout.colon
        ++ write layout (depth + 1) value ++ writeMembers layout depth rest
  | unpaired => "null".toList

/-- Write the further elements of an array and close it. -/
def writeElements (layout : Layout) (depth : Nat) : List Json → Text
  | [] => layout.lineBreak depth ++ [']']
  | element :: rest =>
      ',' :: layout.lineBreak (depth + 1) ++ write layout (depth + 1) element
        ++ writeElements layout depth rest

/-- Write the further members of an object and close it. -/
def writeMembers (layout : Layout) (depth : Nat) : List (Text × Json) → Text
  | [] => layout.lineBreak depth ++ ['\x7d']
  | (name, value) :: rest =>
      ',' :: layout.lineBreak (depth + 1) ++ quoted name ++ layout.colon
        ++ write layout (depth + 1) value ++ writeMembers layout depth rest

end

/-- A value on one line. -/
def compact (value : Json) : Text := write .line 0 value

/-- A value over several lines. -/
def pretty (value : Json) : Text := write .indented 0 value

end LatexTabular.Json
