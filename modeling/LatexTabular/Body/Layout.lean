import LatexTabular.Body.Lexeme
import LatexTabular.Table

/-!
# Rows and cells of a body

The lexemes of a body are parted into rows at the terminators and into cells at
the separators.  A cell reaches from the first to the last lexeme that fills it,
so white space, comments and rules at its ends stay outside.
-/

namespace LatexTabular.Body

/-- Part a list at the elements `ends` accepts: the parts that such an element
closes, each with that element, and the part after the last of them. -/
def segments {α : Type} (ends : α → Bool) : List α → List (List α × α) × List α
  | [] => ([], [])
  | head :: rest =>
      let (closed, last) := segments ends rest
      if ends head then (([], head) :: closed, last)
      else
        match closed with
        | [] => ([], head :: last)
        | (part, close) :: others => ((head :: part, close) :: others, last)

/-- The parts and their closing elements make up the list again. -/
theorem segments_flatten {α : Type} (ends : α → Bool) (list : List α) :
    (segments ends list).1.flatMap (fun part => part.1 ++ [part.2])
      ++ (segments ends list).2 = list := by
  induction list with
  | nil => rfl
  | cons head rest ih =>
      simp only [segments]
      split
      · simpa using ih
      · split <;> simp_all

/-- The rules among lexemes, in their order. -/
def rulesOf (lexemes : List Lexeme) : List Lexeme :=
  lexemes.filter (·.kind == .rule)

/-- The lexemes from the first to the last one that fills the cell. -/
def filledPart (lexemes : List Lexeme) : List Lexeme :=
  ((lexemes.dropWhile (!·.kind.fillsCell)).reverse.dropWhile
    (!·.kind.fillsCell)).reverse

/-- The merge that starts at `start`. -/
def MergeText.place (start : Nat) (parts : MergeText) : Merge :=
  let numberStart := start + 1 + name.size + parts.numberGap.size + 1
  let specifierStart :=
    numberStart + parts.number.size + 1 + parts.specifierGap.size + 1
  let contentStart := start + parts.preamble.size
  let contentStop := contentStart + parts.content.size
  { span := ⟨start, contentStop + 1⟩
    columns := parts.columns
    number := Text.trimmedSpan numberStart parts.number
    specifier := ⟨specifierStart, specifierStart + parts.specifier.size⟩
    preamble := ⟨start, contentStart⟩
    postamble := ⟨contentStop, contentStop + 1⟩ }

/-- The cell that starts at `start` and consists of lexemes.  A blank cell
stands after its last rule. -/
def cellOf (start : Nat) (lexemes : List Lexeme) : Cell :=
  let filled := filledPart lexemes
  match filled.head?, filled.getLast? with
  | some first, some last =>
      let extent : Span := ⟨first.start, last.stop⟩
      match first.kind with
      | .merge parts =>
          { content := Text.trim parts.content
            contentSpan :=
              Text.trimmedSpan (first.start + parts.preamble.size) parts.content
            extent := extent
            merge := some (parts.place first.start) }
      | _ => ⟨filled.flatMap Lexeme.text, extent, extent, none⟩
  | _, _ => .blank (((rulesOf lexemes).getLast?.map Lexeme.stop).getD start)

/-- The cells of a row that starts at `start`: those that a separator closes and
the last one. -/
def cellsOf (start : Nat) : List (List Lexeme × Lexeme) → List Lexeme → List Cell
  | [], last => [cellOf start last]
  | (lexemes, separator) :: rest, last =>
      cellOf start lexemes :: cellsOf separator.stop rest last

/-- The row that starts at `start` and consists of lexemes, with its terminator
if it has one. -/
def rowOf (start : Nat) (lexemes : List Lexeme) (terminator : Option Lexeme) :
    Row :=
  let (closed, last) := segments (·.kind == .separator) lexemes
  let cells := cellsOf start closed last
  let stop :=
    match terminator with
    | some terminator => terminator.stop
    | none => (cells.getLast?.map (·.extent.stop)).getD start
  { span := ⟨start, stop⟩
    rules := (rulesOf lexemes).map Lexeme.span
    cells := cells
    separators := closed.map (·.2.span)
    terminator := terminator.map Lexeme.span }

/-- Whether lexemes without a terminator make up a row: there is a separator or
something fills a cell. -/
def makesRow (lexemes : List Lexeme) : Bool :=
  lexemes.any fun lexeme => lexeme.kind == .separator || lexeme.kind.fillsCell

/-- The rows of a body from `start` on: those that a terminator closes and what
follows the last terminator.  If that is no row, its rules belong to the last
row. -/
def rowsFrom (start : Nat) :
    List (List Lexeme × Lexeme) → List Lexeme → List Row
  | [], last => if makesRow last then [rowOf start last none] else []
  | [(lexemes, terminator)], last =>
      let row := rowOf start lexemes (some terminator)
      if makesRow last then [row, rowOf terminator.stop last none]
      else [{ row with rules := row.rules ++ (rulesOf last).map Lexeme.span }]
  | (lexemes, terminator) :: rest, last =>
      rowOf start lexemes (some terminator) :: rowsFrom terminator.stop rest last

/-- The rows that the lexemes of a body starting at `start` make up. -/
def rowsOf (start : Nat) (lexemes : List Lexeme) : List Row :=
  let (closed, last) := segments (·.kind == .terminator) lexemes
  rowsFrom start closed last

end LatexTabular.Body
