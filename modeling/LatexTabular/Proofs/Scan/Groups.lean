import LatexTabular.Proofs.Scan.Basic
import LatexTabular.Proofs.Sheet.Lexemes

namespace LatexTabular

open Text Markup Body

namespace Scan

variable {scan next final : Scan} {mode target : Mode} {effect : Effect} {text : Text}
  {character : Char}

/-! ## What one character does -/

/-- A backslash outside names begins a control sequence. -/
theorem Mode.next_backslash (resting : mode ≠ .escape)
    (found : mode.next '\\' = some (target, effect)) :
    mode.isQuiet = true ∧ target = .escape ∧ effect = .stay := by
  have noLetter : isLetter '\\' = false := by decide
  have noDigit : isDigit '\\' = false := by decide
  cases mode <;> simp [next, outside, noLetter, noDigit] at found
  case text => exact ⟨rfl, found.1.symm, found.2.symm⟩
  case escape => exact absurd rfl resting
  case name letters => exact ⟨found.2.1, found.2.2.1.symm, found.2.2.2.symm⟩

/-- Behind a backslash comes a letter, another backslash or a character that it hides. -/
theorem Mode.next_of_escape (found : Mode.escape.next character = some (target, effect)) :
    (isLetter character = true ∧ target = .name [character] ∧ effect = .stay) ∨
      (character = '\\' ∧ target = .text ∧ effect = .row) ∨
      (isLetter character = false ∧ isBlank character = false ∧ character ≠ '\\' ∧
        target = .text ∧ effect = .stay) := by
  simp only [next] at found
  split_ifs at found with letter backslash hidden
  · obtain ⟨rfl, rfl⟩ := Prod.mk.inj (Option.some.inj found)
    exact Or.inl ⟨letter, rfl, rfl⟩
  · obtain ⟨rfl, rfl⟩ := Prod.mk.inj (Option.some.inj found)
    exact Or.inr (Or.inl ⟨backslash, rfl, rfl⟩)
  · obtain ⟨rfl, rfl⟩ := Prod.mk.inj (Option.some.inj found)
    refine Or.inr (Or.inr ⟨by simpa using letter, ?_, backslash, rfl, rfl⟩)
    simpa using fun blank => hidden (Or.inl blank)

end Scan

end LatexTabular
