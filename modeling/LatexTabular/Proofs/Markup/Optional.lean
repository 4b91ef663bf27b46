import LatexTabular.Proofs.Markup.Lookahead

/-!
# Square and round optional groups

An optional group stands in brackets or in parentheses.  What is read as one consists of groups
in brackets exactly where no closed parenthesis directly follows
(`optionalGroup?_isBracketed_iff`, `optionalGroups_areBracketed_iff`).
-/

namespace LatexTabular.Markup

/-- A group in brackets, which ends at its first closing bracket. -/
def IsBracketed (group : Text) : Prop :=
  ∃ inner, ']' ∉ inner ∧ group = '[' :: inner ++ [']']

/-- Whether a text begins with a parenthesis that it closes. -/
def OpensParenthesis (text : Text) : Prop :=
  ∃ inner rest, text = '(' :: inner ++ ')' :: rest

/-- A text made of groups in brackets alone. -/
def AreBracketed (text : Text) : Prop :=
  ∃ groups : List Text, (∀ group ∈ groups, IsBracketed group) ∧ text = groups.flatten

/-- Whether a text begins with groups in brackets and directly behind them with a parenthesis
that it closes. -/
def ReachesParenthesis (text : Text) : Prop :=
  ∃ groups rest, AreBracketed groups ∧ text = groups ++ rest ∧ OpensParenthesis rest

theorem through?_eq_some_iff {close : Char} {text group : Text} :
    through? close text = some group ↔
      ∃ inner rest, close ∉ inner ∧ group = inner ++ [close] ∧ text = inner ++ close :: rest := by
  constructor
  · intro found
    fun_induction through? close text generalizing group with
    | case1 => simp at found
    | case2 rest => exact ⟨[], rest, by simp, (Option.some.inj found).symm, rfl⟩
    | case3 head others notClose ih =>
        obtain ⟨inner, closed, rfl⟩ := Option.map_eq_some_iff.mp found
        obtain ⟨before, rest, unclosed, rfl, rfl⟩ := ih closed
        exact ⟨head :: before, rest, by simp [unclosed, Ne.symm notClose], rfl, rfl⟩
  · rintro ⟨inner, rest, unclosed, rfl, rfl⟩
    induction inner with
    | nil => simp [through?]
    | cons head others ih =>
        simp only [List.mem_cons, not_or] at unclosed
        simp [through?, Ne.symm unclosed.1, ih unclosed.2]

/-- An optional group is a group in brackets, or a text from one parenthesis to the next closing
one. -/
theorem optionalGroup?_eq_some_iff {text group : Text} :
    optionalGroup? text = some group ↔ group <+: text ∧
      (IsBracketed group ∨ ∃ inner, ')' ∉ inner ∧ group = '(' :: inner ++ [')']) := by
  constructor
  · intro found
    refine ⟨optionalGroup?_isPrefix found, ?_⟩
    unfold optionalGroup? at found
    split at found
    · obtain ⟨inner, closed, rfl⟩ := Option.map_eq_some_iff.mp found
      obtain ⟨before, -, unclosed, rfl, -⟩ := through?_eq_some_iff.mp closed
      exact Or.inl ⟨before, unclosed, rfl⟩
    · obtain ⟨inner, closed, rfl⟩ := Option.map_eq_some_iff.mp found
      obtain ⟨before, -, unclosed, rfl, -⟩ := through?_eq_some_iff.mp closed
      exact Or.inr ⟨before, unclosed, rfl⟩
    · simp at found
  · rintro ⟨⟨rest, rfl⟩, ⟨inner, unclosed, rfl⟩ | ⟨inner, unclosed, rfl⟩⟩
    · have closed := through?_eq_some_iff.mpr ⟨inner, rest, unclosed, rfl, rfl⟩
      simp [optionalGroup?, closed]
    · have closed := through?_eq_some_iff.mpr ⟨inner, rest, unclosed, rfl, rfl⟩
      simp [optionalGroup?, closed]

/-- A group in brackets is no text that begins with a parenthesis. -/
theorem IsBracketed.not_opensParenthesis {group : Text} (isBracketed : IsBracketed group)
    (rest : Text) : ¬ OpensParenthesis (group ++ rest) := by
  rintro ⟨inner, others, textEq⟩
  obtain ⟨before, -, rfl⟩ := isBracketed
  simp at textEq

/-- The optional group at the front of a text is one in parentheses exactly if the text begins
with a parenthesis that it closes. -/
theorem opensParenthesis_iff {text : Text} :
    OpensParenthesis text ↔ ∃ group, optionalGroup? text = some group ∧ ¬ IsBracketed group := by
  constructor
  · rintro ⟨inner, rest, rfl⟩
    obtain ⟨group, closed⟩ : ∃ group, through? ')' (inner ++ ')' :: rest) = some group := by
      refine Option.ne_none_iff_exists'.mp fun unclosed => ?_
      exact through?_eq_none_iff.mp unclosed (by simp)
    refine ⟨'(' :: group, by simp [optionalGroup?, closed], ?_⟩
    rintro ⟨before, -, square⟩
    simp at square
  · rintro ⟨group, found, notBracketed⟩
    obtain ⟨⟨rest, rfl⟩, square | ⟨inner, -, rfl⟩⟩ := optionalGroup?_eq_some_iff.mp found
    · exact absurd square notBracketed
    · exact ⟨inner, rest, by simp⟩

/-- At most one group in brackets is read at the front of a text exactly if no closed parenthesis
stands there. -/
theorem optionalGroup?_isBracketed_iff {text : Text} :
    ((optionalGroup? text).getD [] = [] ∨ IsBracketed ((optionalGroup? text).getD [])) ↔
      ¬ OpensParenthesis text := by
  rw [opensParenthesis_iff]
  cases found : optionalGroup? text with
  | none => simp
  | some group =>
      have nonempty : group ≠ [] := List.ne_nil_of_length_pos (optionalGroup?_length_pos found).1
      simp [nonempty]

theorem IsBracketed.optionalGroup?_append {group : Text} (isBracketed : IsBracketed group)
    (rest : Text) : optionalGroup? (group ++ rest) = some group :=
  optionalGroup?_eq_some_iff.mpr ⟨List.prefix_append group rest, Or.inl isBracketed⟩

theorem IsBracketed.append_iff {group : Text} (isBracketed : IsBracketed group) {rest : Text} :
    AreBracketed (group ++ rest) ↔ AreBracketed rest := by
  constructor
  · rintro ⟨_ | ⟨first, others⟩, areBracketed, textEq⟩
    · obtain ⟨inner, -, rfl⟩ := isBracketed
      simp at textEq
    · obtain ⟨firstBracketed, othersBracketed⟩ := List.forall_mem_cons.mp areBracketed
      have found := firstBracketed.optionalGroup?_append others.flatten
      rw [← List.flatten_cons, ← textEq, isBracketed.optionalGroup?_append] at found
      obtain rfl := Option.some.inj found
      exact ⟨others, othersBracketed, List.append_cancel_left textEq⟩
  · rintro ⟨others, areBracketed, rfl⟩
    exact ⟨group :: others, List.forall_mem_cons.mpr ⟨isBracketed, areBracketed⟩, rfl⟩

/-- What begins with groups in brackets begins with the first of them or holds none. -/
theorem AreBracketed.eq_nil_or_append {text : Text} (areBracketed : AreBracketed text) :
    text = [] ∨ ∃ group rest, IsBracketed group ∧ AreBracketed rest ∧ text = group ++ rest := by
  obtain ⟨_ | ⟨first, others⟩, areBracketed, rfl⟩ := areBracketed
  · exact Or.inl rfl
  · obtain ⟨firstBracketed, othersBracketed⟩ := List.forall_mem_cons.mp areBracketed
    exact Or.inr ⟨first, others.flatten, firstBracketed, ⟨others, othersBracketed, rfl⟩, rfl⟩

theorem IsBracketed.reachesParenthesis_iff {group : Text} (isBracketed : IsBracketed group)
    {rest : Text} : ReachesParenthesis (group ++ rest) ↔ ReachesParenthesis rest := by
  constructor
  · rintro ⟨groups, behind, areBracketed, textEq, opens⟩
    rcases areBracketed.eq_nil_or_append with
      rfl | ⟨first, others, firstBracketed, othersBracketed, rfl⟩
    · rw [List.nil_append] at textEq
      exact absurd (textEq ▸ opens) (isBracketed.not_opensParenthesis rest)
    · have found := firstBracketed.optionalGroup?_append (others ++ behind)
      rw [← List.append_assoc, ← textEq, isBracketed.optionalGroup?_append] at found
      obtain rfl := Option.some.inj found
      rw [List.append_assoc] at textEq
      exact ⟨others, behind, othersBracketed, List.append_cancel_left textEq, opens⟩
  · rintro ⟨groups, behind, areBracketed, rfl, opens⟩
    exact ⟨group ++ groups, behind, isBracketed.append_iff.mpr areBracketed, by simp, opens⟩

/-- The optional groups at the front of a text are all in brackets exactly if they reach no closed
parenthesis. -/
theorem optionalGroups_areBracketed_iff (text : Text) :
    AreBracketed (optionalGroups text) ↔ ¬ ReachesParenthesis text := by
  fun_induction optionalGroups text with
  | case1 text group found ih =>
      obtain ⟨rest, rfl⟩ := optionalGroup?_isPrefix found
      rw [List.drop_left] at ih ⊢
      by_cases isBracketed : IsBracketed group
      · rw [isBracketed.append_iff, isBracketed.reachesParenthesis_iff, ih]
      · -- The group stands in parentheses, so that it is reached at once.
        have opens := opensParenthesis_iff.mpr ⟨group, found, isBracketed⟩
        have reaches : ReachesParenthesis (group ++ rest) :=
          ⟨[], group ++ rest, ⟨[], by simp, rfl⟩, rfl, opens⟩
        refine iff_of_false (fun areBracketed => ?_) (not_not_intro reaches)
        rcases areBracketed.eq_nil_or_append with none | ⟨first, others, firstBracketed, -, textEq⟩
        · have positive := (optionalGroup?_length_pos found).1
          have nothing := congrArg List.length none
          rw [List.length_append, List.length_nil] at nothing
          omega
        · have again := optionalGroup?_behind found (optionalGroups rest)
          rw [textEq, firstBracketed.optionalGroup?_append] at again
          exact isBracketed (Option.some.inj again ▸ firstBracketed)
  | case2 text unfound =>
      refine iff_of_true ⟨[], by simp, rfl⟩ ?_
      rintro ⟨groups, rest, areBracketed, rfl, opens⟩
      rcases areBracketed.eq_nil_or_append with rfl | ⟨first, others, firstBracketed, -, rfl⟩
      · obtain ⟨group, found, -⟩ := opensParenthesis_iff.mp opens
        exact absurd (unfound.symm.trans found) (by simp)
      · rw [List.append_assoc, firstBracketed.optionalGroup?_append] at unfound
        exact absurd unfound (by simp)

end LatexTabular.Markup
