import LatexTabular.Proofs.Sheet.Outline

/-!
# Grids

A grid is a document with one tabular in its plainest layout: each row and each rule
stands on a line of its own, and the cells of a row are joined by ` & `.  `Grid.text`
writes the document and `Grid.outline` is what it says.
-/

namespace LatexTabular

open Text

namespace Text

variable {text : Text}

theorem isPlain_iff : text.IsPlain ↔ text.all isOrdinary = true
    ∧ text.head?.any isBlank = false ∧ text.getLast?.any isBlank = false := by
  have none (edge? : Option Char) :
      edge?.any isBlank = false ↔ ∀ character ∈ edge?, isBlank character = false := by
    cases edge? <;> simp
  rw [List.all_eq_true, none, none]
  exact ⟨fun plain => ⟨plain.ordinary, plain.head, plain.last⟩,
    fun ⟨ordinary, head, last⟩ => ⟨ordinary, head, last⟩⟩

instance : Decidable text.IsPlain := decidable_of_iff' _ isPlain_iff

instance : Decidable text.IsBarred :=
  decidable_of_iff (text.all (fun character => isLetter character || character == '|') = true)
    (by simp [IsBarred])

instance : Decidable text.IsNumeral :=
  decidable_of_iff (text ≠ [] ∧ text.all isDigit = true)
    (and_congr_right' List.all_eq_true)

end Text

/-- An entry as it may stand in a grid. -/
def Entry.Rendered : Entry → Prop
  | .plain content => content.IsPlain
  | .merged number specifier content =>
      IsNumeral number ∧ 1 ≤ digitsValue number ∧ specifier.IsBarred ∧ content.IsPlain

instance : (entry : Entry) → Decidable entry.Rendered
  | .plain content => inferInstanceAs (Decidable content.IsPlain)
  | .merged number specifier content =>
      inferInstanceAs (Decidable (IsNumeral number ∧ 1 ≤ digitsValue number
        ∧ specifier.IsBarred ∧ content.IsPlain))

namespace Grid

/-- The entries of a row behind its rules. -/
structure Row where
  rules : Nat
  entries : List Entry
  deriving DecidableEq, Repr

/-- Rules, each with the end of its line. -/
def ruleLines (rules : Nat) : Text := repeated rules "\\hline\n".toList

namespace Row

def text (row : Row) : Text :=
  '\n' :: ruleLines row.rules ++ " & ".toList.intercalate (row.entries.map Entry.text)
    ++ " \\\\".toList

/-- The number of columns that the entries of a row take. -/
def width (row : Row) : Nat := (row.entries.map Entry.width).sum

/-- A row of entries that fit a number of columns. -/
structure WellFormed (columnCount : Nat) (row : Row) : Prop where
  nonempty : row.entries ≠ []
  entries : ∀ entry ∈ row.entries, entry.Rendered
  fits : row.width ≤ columnCount

instance {columnCount : Nat} {row : Row} : Decidable (row.WellFormed columnCount) :=
  decidable_of_iff (row.entries ≠ [] ∧ (∀ entry ∈ row.entries, entry.Rendered)
      ∧ row.width ≤ columnCount)
    ⟨fun ⟨nonempty, entries, fits⟩ => ⟨nonempty, entries, fits⟩,
      fun wellFormed => ⟨wellFormed.nonempty, wellFormed.entries, wellFormed.fits⟩⟩

/-- A row filled up to a number of columns. -/
def outline (columnCount : Nat) (row : Row) : Outline.Row where
  rules := row.rules
  cells := row.entries.map Entry.outline
    ++ List.replicate (columnCount - row.width) Outline.Cell.blank

end Row

end Grid

/-- A document with one tabular in its plainest layout. -/
structure Grid where
  lead : Text
  specifier : Text
  rows : List Grid.Row
  /-- The number of rules behind the last row. -/
  closingRules : Nat
  trail : Text
  deriving DecidableEq, Repr

namespace Grid

def text (grid : Grid) : Text :=
  grid.lead ++ "\\begin\x7btabular\x7d\x7b".toList ++ grid.specifier ++ "\x7d".toList
    ++ (grid.rows.flatMap Row.text ++ '\n' :: ruleLines grid.closingRules)
    ++ "\\end\x7btabular\x7d".toList ++ grid.trail

/-- The number of columns that the specifier of a grid declares. -/
def columnCount (grid : Grid) : Nat := grid.specifier.countP isLetter

structure WellFormed (grid : Grid) : Prop where
  lead : '\\' ∉ grid.lead ∧ '%' ∉ grid.lead
  specifier : grid.specifier.IsBarred
  columns : grid.columnCount ≠ 0
  nonempty : grid.rows ≠ []
  rows : ∀ row ∈ grid.rows, row.WellFormed grid.columnCount
  trail : '\\' ∉ grid.trail ∧ '%' ∉ grid.trail
  /-- The offsets of a document in memory fit a word. -/
  size : grid.text.size < wordLimit

instance {grid : Grid} : Decidable grid.WellFormed :=
  decidable_of_iff (('\\' ∉ grid.lead ∧ '%' ∉ grid.lead) ∧ grid.specifier.IsBarred
      ∧ grid.columnCount ≠ 0 ∧ grid.rows ≠ []
      ∧ (∀ row ∈ grid.rows, row.WellFormed grid.columnCount)
      ∧ ('\\' ∉ grid.trail ∧ '%' ∉ grid.trail) ∧ grid.text.size < wordLimit)
    ⟨fun ⟨lead, specifier, columns, nonempty, rows, trail, size⟩ =>
        ⟨lead, specifier, columns, nonempty, rows, trail, size⟩,
      fun wellFormed => ⟨wellFormed.lead, wellFormed.specifier, wellFormed.columns,
        wellFormed.nonempty, wellFormed.rows, wellFormed.trail, wellFormed.size⟩⟩

/-- Whether an offset lies in the tabular of a grid or at either end of it. -/
def Touches (grid : Grid) (offset : Nat) : Prop :=
  grid.lead.size ≤ offset ∧ offset + grid.trail.size ≤ grid.text.size

instance {grid : Grid} {offset : Nat} : Decidable (grid.Touches offset) :=
  inferInstanceAs (Decidable (grid.lead.size ≤ offset
    ∧ offset + grid.trail.size ≤ grid.text.size))

/-- What a grid says. -/
def outline (grid : Grid) : Outline where
  heading := .ofText grid.specifier
  rows := grid.rows.map (Row.outline grid.columnCount)
  closingRules := grid.closingRules

/-- A grid with rules, merged cells and a short row. -/
def sample : Grid where
  lead := "x".toList
  specifier := "|l|cr".toList
  rows :=
    [⟨1, [.plain "a".toList, .merged "2".toList "c".toList "b".toList]⟩,
      ⟨0, [.plain "c".toList]⟩,
      ⟨0, [.merged "2".toList "l|".toList [], .plain "d".toList]⟩]
  closingRules := 1
  trail := "y".toList

end Grid

end LatexTabular
