import LatexTabular.Proofs.Markup.Lookahead

/-!
# Texts with balanced braces

What stands between the braces of a group is balanced: each brace in it is closed in it, where a
backslash hides the next character (`Markup.Balanced`).  A group is read up to the brace behind a
balanced text, and nothing else (`Markup.untilClosed?_eq_some_iff`).
-/

namespace LatexTabular.Markup

/-- A text that closes all its braces and `depth` further ones that were open before it, none of
them in front of its end.  A backslash hides the next character. -/
inductive Balanced : (depth : Nat) → Text → Prop where
  | nil : Balanced 0 []
  | hidden {depth : Nat} {rest : Text} (character : Char) (behind : Balanced depth rest) :
      Balanced depth ('\\' :: character :: rest)
  | opening {depth : Nat} {rest : Text} (behind : Balanced (depth + 1) rest) :
      Balanced depth ('{' :: rest)
  | closing {depth : Nat} {rest : Text} (behind : Balanced depth rest) :
      Balanced (depth + 1) ('}' :: rest)
  | ordinary {depth : Nat} {character : Char} {rest : Text} (noBackslash : character ≠ '\\')
      (noOpening : character ≠ '{') (noClosing : character ≠ '}') (behind : Balanced depth rest) :
      Balanced depth (character :: rest)

/-- The content of a group is balanced. -/
theorem balanced_of_untilClosed? {depth : Nat} {text content : Text}
    (closed : untilClosed? depth text = some content) : Balanced depth content := by
  fun_induction untilClosed? depth text generalizing content with
  | case1 => simp at closed
  | case2 depth hidden text ih =>
      obtain ⟨inner, found, rfl⟩ := Option.map_eq_some_iff.mp closed
      exact .hidden hidden (ih found)
  | case3 depth text ih =>
      obtain ⟨inner, found, rfl⟩ := Option.map_eq_some_iff.mp closed
      exact .opening (ih found)
  | case4 text =>
      obtain rfl := Option.some.inj closed
      exact .nil
  | case5 depth text ih =>
      obtain ⟨inner, found, rfl⟩ := Option.map_eq_some_iff.mp closed
      exact .closing (ih found)
  | case6 depth other text noPair noOpening noClosing noOuter ih =>
      obtain ⟨inner, found, rfl⟩ := Option.map_eq_some_iff.mp closed
      refine .ordinary ?_ noOpening ?_ (ih found)
      · rintro rfl
        cases text with
        | nil => simp [untilClosed?] at found
        | cons next text => exact noPair next text rfl rfl
      · cases depth with
        | zero => exact noClosing rfl
        | succ depth => exact noOuter depth rfl

namespace Balanced

variable {depth : Nat} {content text : Text}

/-- The brace behind a balanced text closes its group. -/
theorem untilClosed?_closing (balanced : Balanced depth content) (rest : Text) :
    untilClosed? depth (content ++ '}' :: rest) = some content := by
  induction balanced with
  | nil => simp [untilClosed?]
  | hidden character behind ih => simp [untilClosed?, ih]
  | opening behind ih => simp [untilClosed?, ih]
  | closing behind ih => simp [untilClosed?, ih]
  | ordinary noBackslash noOpening noClosing behind ih =>
      rw [List.cons_append, untilClosed?_cons_ordinary _ noBackslash noOpening noClosing, ih]
      rfl

/-- A text that closes further braces closes the first `depth` of them in front of one brace and
the other ones behind it. -/
theorem exists_closing {whole outer : Nat} (balanced : Balanced whole text)
    (depths : whole = depth + outer + 1) : ∃ content rest, text = content ++ '}' :: rest ∧
      Balanced depth content ∧ Balanced outer rest := by
  induction balanced generalizing depth with
  | nil => omega
  | hidden character behind ih =>
      obtain ⟨content, rest, rfl, inner, others⟩ := ih depths
      exact ⟨_, rest, rfl, .hidden character inner, others⟩
  | opening behind ih =>
      obtain ⟨content, rest, rfl, inner, others⟩ := @ih (depth + 1) (by omega)
      exact ⟨_, rest, rfl, .opening inner, others⟩
  | closing behind ih =>
      cases depth with
      | zero =>
          have outerEq := (Nat.succ.inj depths).trans (Nat.zero_add outer)
          exact ⟨[], _, rfl, .nil, outerEq ▸ behind⟩
      | succ depth =>
          obtain ⟨content, rest, rfl, inner, others⟩ := @ih depth (by omega)
          exact ⟨_, rest, rfl, .closing inner, others⟩
  | ordinary noBackslash noOpening noClosing behind ih =>
      obtain ⟨content, rest, rfl, inner, others⟩ := ih depths
      exact ⟨_, rest, rfl, .ordinary noBackslash noOpening noClosing inner, others⟩

end Balanced

/-- A group is read up to the brace behind a balanced text. -/
theorem untilClosed?_eq_some_iff {depth : Nat} {text content : Text} :
    untilClosed? depth text = some content ↔
      Balanced depth content ∧ content ++ ['}'] <+: text := by
  constructor
  · exact fun closed => ⟨balanced_of_untilClosed? closed, untilClosed?_isPrefix closed⟩
  · rintro ⟨balanced, rest, rfl⟩
    rw [List.append_assoc, List.singleton_append]
    exact balanced.untilClosed?_closing rest

/-- A balanced text does not close the group that it stands in. -/
theorem Balanced.untilClosed?_eq_none {depth : Nat} {text : Text} (balanced : Balanced depth text) :
    untilClosed? depth text = none := by
  cases closed : untilClosed? depth text with
  | none => rfl
  | some content =>
      have whole := balanced.untilClosed?_closing []
      rw [untilClosed?_append _ closed] at whole
      have shorter := (untilClosed?_isPrefix closed).length_le
      rw [Option.some.inj whole, List.length_append, List.length_singleton] at shorter
      omega

end LatexTabular.Markup
