import LatexTabular.Text.Blank

/-!
# Columns and column specifiers

A column specifier such as `|l|p{2cm}|>{\bfseries}c|` describes the columns of a
table or the one column of a merged cell.  A letter outside braces makes a
column, a bar is a vertical rule beside it, and all other markup belongs to a
column without being looked at.

`Specifier.columns` reads a specifier and `Specifier.render` writes it.
-/

namespace LatexTabular

/-- Where the contents of a column stand. -/
inductive Alignment where
  | left
  | center
  | right
  deriving DecidableEq, Repr

namespace Alignment

/-- The alignment a column letter stands for.  The letters of paragraph columns
and all others stand for flush left. -/
def ofLetter : Char → Alignment
  | 'c' => center
  | 'r' => right
  | _ => left

/-- The column letter of an alignment. -/
def letter : Alignment → Char
  | left => 'l'
  | center => 'c'
  | right => 'r'

@[simp] theorem ofLetter_letter (alignment : Alignment) :
    ofLetter alignment.letter = alignment := by
  cases alignment <;> rfl

end Alignment

/-- One column of a specifier: its alignment, the number of rules on either
side, and its markup without the rules. -/
structure Column where
  alignment : Alignment
  leftRules : Nat
  rightRules : Nat
  markup : Text
  deriving DecidableEq, Repr

namespace Specifier

/-- A character of a specifier, and whether it belongs to a brace group.  The
braces of a group belong to it; a closing brace without an opening one does
not. -/
structure Mark where
  character : Char
  grouped : Bool
  deriving DecidableEq, Repr

namespace Mark

/-- Whether a mark is a letter that makes a column. -/
def makesColumn (mark : Mark) : Bool :=
  !mark.grouped && Text.isLetter mark.character

/-- Whether a mark is a vertical rule. -/
def isRule (mark : Mark) : Bool := !mark.grouped && mark.character == '|'

/-- Whether a mark is blank and of no meaning. -/
def isSpace (mark : Mark) : Bool := !mark.grouped && Text.isBlank mark.character

end Mark

/-- The characters of a text that starts inside `depth` brace groups. -/
def marks (depth : Nat) : Text → List Mark
  | [] => []
  | character :: rest =>
      if character = '{' then ⟨character, true⟩ :: marks (depth + 1) rest
      else if character = '}' then ⟨character, depth != 0⟩ :: marks (depth - 1) rest
      else ⟨character, depth != 0⟩ :: marks depth rest

/-- Columns read so far, the last one first, with the rules and the markup that
wait for the next column letter. -/
structure Reading where
  columns : List Column
  rules : Nat
  markup : Text
  deriving DecidableEq, Repr

namespace Reading

/-- Nothing read. -/
def start : Reading := ⟨[], 0, []⟩

/-- Take one more mark.  Rules and groups go to the last column as long as
nothing waits for the next one; other markup always waits. -/
def take (reading : Reading) (mark : Mark) : Reading :=
  if mark.makesColumn then
    { columns :=
        { alignment := .ofLetter mark.character
          leftRules := reading.rules
          rightRules := 0
          markup := reading.markup ++ [mark.character] } :: reading.columns
      rules := 0
      markup := [] }
  else if mark.isSpace then reading
  else
    match reading with
    | ⟨last :: earlier, 0, []⟩ =>
        if mark.grouped then
          { reading with
            columns :=
              { last with markup := last.markup ++ [mark.character] } :: earlier }
        else if mark.isRule then
          { reading with
            columns := { last with rightRules := last.rightRules + 1 } :: earlier }
        else { reading with markup := [mark.character] }
    | _ =>
        if mark.isRule then { reading with rules := reading.rules + 1 }
        else { reading with markup := reading.markup ++ [mark.character] }

/-- The columns in their order.  What still waits belongs to the last one. -/
def finish (reading : Reading) : List Column :=
  match reading.columns with
  | [] => []
  | last :: earlier =>
      ({ last with
        markup := last.markup ++ reading.markup
        rightRules := last.rightRules + reading.rules } :: earlier).reverse

end Reading

/-- The columns a specifier describes. -/
def columns (specifier : Text) : List Column :=
  ((marks 0 specifier).foldl Reading.take .start).finish

end Specifier

namespace Column

/-- A column without rules. -/
def plain (alignment : Alignment) : Column :=
  ⟨alignment, 0, 0, [alignment.letter]⟩

/-- The text of a column in a specifier. -/
def render (column : Column) : Text :=
  List.replicate column.leftRules '|' ++ column.markup
    ++ List.replicate column.rightRules '|'

/-- Markup up to its column letter; nothing if no letter stands in it. -/
def markupBeforeLetter (markup : Text) : Text :=
  let before := (Specifier.marks 0 markup).takeWhile (!·.makesColumn)
  if before.length < markup.length then before.map (·.character) else []

/-- Give a column an alignment.  The column letter and what follows it give way
to the letter of the alignment, markup in front of it stays. -/
def align (alignment : Alignment) (column : Column) : Column :=
  if column.alignment = alignment then column
  else
    { column with
      alignment := alignment
      markup := markupBeforeLetter column.markup ++ [alignment.letter] }

end Column

namespace Specifier

/-- The specifier that describes columns. -/
def render (columns : List Column) : Text := columns.flatMap Column.render

/-- A specifier for the same columns with exactly one rule before the first and
one after each. -/
def addRules (specifier : Text) : Text :=
  render <| (columns specifier).mapIdx fun index column =>
    { column with leftRules := if index = 0 then 1 else 0, rightRules := 1 }

/-- A specifier without its rules; bars within brace groups are not rules. -/
def removeRules (specifier : Text) : Text :=
  ((marks 0 specifier).filter (!·.isRule)).map (·.character)

end Specifier

end LatexTabular
