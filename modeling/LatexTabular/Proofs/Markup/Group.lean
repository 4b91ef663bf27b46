import LatexTabular.Markup.Group
import Mathlib.Data.List.DropRight
import Mathlib.Tactic.Common

/-!
# Where the arguments of a command end

The arguments of a command take the whole text behind it, when a brace group is never closed,
or else end with the closing character of their last group
(`Markup.arguments_eq_or_closes`).
-/

namespace LatexTabular.Markup

/-- The characters that close a group. -/
def closesGroup (character : Char) : Bool :=
  character == ']' || character == ')' || character == '}'

/-- No closing character is blank. -/
theorem isBlank_of_closesGroup {character : Char} (closes : closesGroup character = true) :
    Text.isBlank character = false := by
  simp only [closesGroup, Bool.or_eq_true, beq_iff_eq] at closes
  rcases closes with (rfl | rfl) | rfl <;> decide

/-- Whether a text is empty or ends with a closing character. -/
def Closes (text : Text) : Prop := ∀ last ∈ text.getLast?, closesGroup last = true

theorem Closes.append {left right : Text} (first : Closes left) (second : Closes right) :
    Closes (left ++ right) := by
  intro last isLast
  rw [List.getLast?_append] at isLast
  cases others : right.getLast? with
  | none =>
      rw [others] at isLast
      exact first last isLast
  | some other =>
      rw [others] at isLast
      obtain rfl := Option.some.inj isLast
      exact second other others

theorem closes_nil : Closes [] := by simp [Closes]

theorem getLast?_of_through? {close : Char} {text group : Text}
    (found : through? close text = some group) : group.getLast? = some close := by
  fun_induction through? close text generalizing group with
  | case1 => simp at found
  | case2 => rw [← Option.some.inj found]; rfl
  | case3 _ _ _ ih =>
      obtain ⟨inner, closed, rfl⟩ := Option.map_eq_some_iff.mp found
      simp [List.getLast?_cons, ih closed]

theorem closes_of_optionalGroup? {text group : Text} (found : optionalGroup? text = some group) :
    Closes group := by
  unfold optionalGroup? at found
  split at found
  · obtain ⟨inner, closed, rfl⟩ := Option.map_eq_some_iff.mp found
    simp [Closes, List.getLast?_cons, getLast?_of_through? closed, closesGroup]
  · obtain ⟨inner, closed, rfl⟩ := Option.map_eq_some_iff.mp found
    simp [Closes, List.getLast?_cons, getLast?_of_through? closed, closesGroup]
  · simp at found

theorem closes_optionalGroups (text : Text) : Closes (optionalGroups text) := by
  fun_induction optionalGroups text with
  | case1 text group found ih => exact (closes_of_optionalGroup? found).append ih
  | case2 => exact closes_nil

/-- The brace groups of a command take the whole text or end with a closing brace. -/
theorem requiredGroups_eq_or_closes (count : Nat) (text : Text) :
    requiredGroups count text = text ∨ Closes (requiredGroups count text) := by
  induction count generalizing text with
  | zero => exact .inr closes_nil
  | succ count ih =>
      simp only [requiredGroups]
      split
      next rest opened =>
        split
        next content closed =>
          obtain ⟨after, restEq⟩ := untilClosed?_isPrefix closed
          have behind : rest.drop (content.length + 1) = after := by simp [← restEq]
          rw [behind]
          rcases ih after with whole | closes
          · left
            have front : spaces text ++ text.drop (spaces text).length = text :=
              List.prefix_iff_eq_append.mp (List.takeWhile_prefix _)
            conv => rhs; rw [← front, opened, ← restEq]
            rw [whole]
            simp
          · right
            have group : Closes (spaces text ++ '{' :: content ++ ['}']) := by
              intro last isLast
              rw [List.getLast?_concat] at isLast
              rw [← Option.some.inj isLast]
              rfl
            simpa using group.append closes
        next => exact .inl rfl
      next => exact .inr closes_nil

/-- The arguments of a command take the whole text or end with a closing character. -/
theorem arguments_eq_or_closes (required : Nat) (text : Text) :
    arguments required text = text ∨ Closes (arguments required text) := by
  have front : optionalGroups text ++ text.drop (optionalGroups text).length = text :=
    List.prefix_iff_eq_append.mp (optionalGroups_isPrefix text)
  rcases requiredGroups_eq_or_closes required (text.drop (optionalGroups text).length)
    with whole | closes
  · refine .inl ?_
    conv => rhs; rw [← front]
    simp only [arguments, whole]
  · exact .inr ((closes_optionalGroups text).append closes)

end LatexTabular.Markup
