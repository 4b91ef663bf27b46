import LatexTabular.Table.Read
import LatexTabular.Proofs.Markup.Environment

/-!
# Where a column specifier stands

The text of a tabular consists of its column specifier in braces, something in
front of it, and its body.
-/

namespace LatexTabular

open Markup

namespace Declaration

variable {offset : Nat} {text : Text} {declaration : Declaration}

theorem exists_front_of_readSpecifier
    (found : readSpecifier offset text = .ok declaration) :
    ∃ front, text = front ++ declaration.specifier ++ '}' :: declaration.body ∧
      declaration.specifierStart = offset + front.size := by
  have whole : spaces text ++ text.drop (spaces text).length = text :=
    List.prefix_iff_eq_append.mp (List.takeWhile_prefix _)
  simp only [readSpecifier] at found
  split at found
  next rest opened =>
    split at found
    next specifier closed =>
      obtain rfl := Except.ok.inj found
      have group := List.prefix_iff_eq_append.mp (untilClosed?_isPrefix closed)
      rw [opened, ← group] at whole
      refine ⟨spaces text ++ ['{'], ?_, ?_⟩
      · conv => lhs; rw [← whole]
        simp
      · have brace : Text.size ['{'] = 1 := by decide
        simp only [Text.size_append, brace, Nat.add_assoc]
    next => simp at found
  next => simp at found

/-- The specifier of a declaration stands in the text it was read from, and the
body follows its closing brace. -/
theorem exists_front_of_read (found : read offset text = .ok declaration) :
    ∃ front, text = front ++ declaration.specifier ++ '}' :: declaration.body ∧
      declaration.specifierStart = offset + front.size := by
  have whole : spaces text ++ text.drop (spaces text).length = text :=
    List.prefix_iff_eq_append.mp (List.takeWhile_prefix _)
  simp only [read] at found
  split at found
  next rest bracketed =>
    split at found
    next position grouped =>
      obtain ⟨front, afterEq, startEq⟩ := exists_front_of_readSpecifier found
      have group := List.prefix_iff_eq_append.mp (optionalGroup?_isPrefix grouped)
      rw [bracketed, ← group, afterEq] at whole
      refine ⟨spaces text ++ position ++ front, ?_, ?_⟩
      · conv => lhs; rw [← whole]
        simp
      · rw [startEq]
        simp only [Text.size_append, Nat.add_assoc]
    next => simp at found
  next => exact exists_front_of_readSpecifier found

end Declaration

end LatexTabular
