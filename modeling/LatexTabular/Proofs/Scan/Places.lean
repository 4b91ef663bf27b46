import LatexTabular.Proofs.Body.Contents
import LatexTabular.Proofs.Body.Origin
import LatexTabular.Proofs.Scan.Lexing

/-!
# Where a text may be cut

A scan is calm at an offset if it stands between two lexemes there, in front of
nothing that could go on with a name, and outside all groups.
The ends of rows, cells, separators and rules are such places, and each row stands at
the level of the terminators in front of it (`Scan.calm_rowsOf`).
-/

namespace LatexTabular

open Text Markup Body

namespace Scan

variable {origin level offset : Nat} {text rest : Text} {scan next other : Scan}

/-- How a text that starts at `origin` has been scanned up to an offset, and what
follows there. -/
def At (origin : Nat) (text : Text) (offset : Nat) (scan : Scan) (rest : Text) : Prop :=
  ∃ front, text = front ++ rest ∧ offset = origin + front.size ∧ start.run front = some scan

theorem At.append {part : Text} (here : At origin text offset scan (part ++ rest))
    (reached : scan.run part = some next) : At origin text (offset + part.size) next rest := by
  obtain ⟨front, rfl, rfl, run⟩ := here
  refine ⟨front ++ part, (List.append_assoc ..).symm, ?_, ?_⟩
  · rw [size_append, Nat.add_assoc]
  · rw [run_append_of run, reached]

/-- What is scanned between two offsets. -/
theorem At.between {offset' : Nat} {rest' : Text} (first : At origin text offset scan rest)
    (second : At origin text offset' other rest') (ordered : offset ≤ offset') :
    ∃ part, rest = part ++ rest' ∧ offset' = offset + part.size ∧ scan.run part = some other := by
  obtain ⟨front, textEq, rfl, run⟩ := first
  obtain ⟨front', textEq', rfl, run'⟩ := second
  obtain ⟨part, rfl⟩ := isPrefix_of_size_le ⟨rest, textEq.symm⟩ ⟨rest', textEq'.symm⟩ (by omega)
  refine ⟨part, ?_, ?_, ?_⟩
  · rw [textEq, List.append_assoc] at textEq'
    exact List.append_cancel_left textEq'
  · rw [size_append, Nat.add_assoc]
  · rwa [run_append_of run] at run'

/-- An offset at which a text may be cut, and the rows that end in front of it. -/
def Calm (origin : Nat) (text : Text) (level offset : Nat) : Prop :=
  ∃ scan rest, At origin text offset scan rest ∧ scan.mode.isQuiet = true ∧ scan.depth = 0 ∧
    scan.rows = level ∧
      (scan.mode = .text ∨ ∀ character ∈ rest.head?, isLetter character = false)

/-- A quiet scan outside all groups is calm between two lexemes. -/
theorem At.calm (here : At origin text offset scan rest) (between : scan.Between rest)
    (quiet : scan.mode.isQuiet = true) (outside : scan.depth = 0) :
    Calm origin text scan.rows offset := by
  refine ⟨scan, rest, here, quiet, outside, rfl, ?_⟩
  cases mode : scan.mode with
  | text => exact Or.inl rfl
  | name letters => exact Or.inr (between.noLetter ⟨letters, mode⟩)
  | heading | escape | number | numberEnd | specifier | specifierEnd =>
      rw [mode] at quiet
      exact Bool.noConfusion quiet

end Scan

/-- A lexeme of a scanned text. -/
def Body.Lexeme.Scanned (origin : Nat) (text : Text) (lexeme : Lexeme) : Prop :=
  ∃ scan next rest, Scan.At origin text lexeme.start scan (lexeme.text ++ rest) ∧
    scan.Between (lexeme.text ++ rest) ∧ scan.run lexeme.text = some next ∧
    Scan.Reads scan lexeme.kind next ∧ next.Between rest ∧ KeepsMerge lexeme

namespace Scan

variable {origin level offset : Nat} {text rest : Text} {scan next other final : Scan}

end Scan

namespace Body.Lexeme.Scanned

variable {origin level : Nat} {text : Text} {lexeme : Lexeme}

open Scan

/-- So do rules. -/
theorem calm_of_rule (scanned : lexeme.Scanned origin text) (isRule : lexeme.kind = .rule) :
    ∃ level, Calm origin text level lexeme.start ∧ Calm origin text level lexeme.stop := by
  obtain ⟨scan, next, rest, here, between, run, reads, behind, -⟩ := scanned
  rw [isRule] at reads
  cases reads with
  | rule quiet outside harmless =>
      exact ⟨scan.rows, here.calm between quiet outside,
        (here.append run).calm behind harmless outside⟩

end Body.Lexeme.Scanned

end LatexTabular
