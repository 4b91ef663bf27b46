import LatexTabular.Proofs.Body.Branches
import LatexTabular.Proofs.Markup.Lookahead
import LatexTabular.Proofs.Sheet.Lexemes

/-!
# How far lexemes look ahead

A control sequence stays as it is where the text behind it is replaced by one that looks alike
(`readControl_append`), unless a `\multicolumn` that lacked arguments finds them there.
-/

namespace LatexTabular.Body

open Markup

/-- The name of a control sequence is one character that is no letter, or all letters up to the
next other character. -/
theorem controlName_cases {text : Text} (nonempty : text ≠ []) :
    (∃ head rest, text = head :: rest ∧ Text.isLetter head = false ∧ controlName text = [head]) ∨
      ∃ name rest, text = name ++ rest ∧ name ≠ [] ∧ name.all Text.isLetter = true ∧
        (∀ character ∈ rest.head?, Text.isLetter character = false) ∧ controlName text = name := by
  cases taken : text.takeWhile Text.isLetter with
  | nil =>
      obtain ⟨head, rest, rfl⟩ := List.exists_cons_of_ne_nil nonempty
      refine Or.inl ⟨head, rest, rfl, ?_, by simp [controlName, taken]⟩
      rw [List.takeWhile_cons] at taken
      split at taken
      · simp at taken
      next noLetter => simpa using noLetter
  | cons head tail =>
      refine Or.inr ⟨head :: tail, text.dropWhile Text.isLetter, ?_, List.cons_ne_nil _ _, ?_, ?_,
        by simp [controlName, taken]⟩
      · rw [← taken, List.takeWhile_append_dropWhile]
      · rw [← taken]
        exact List.all_takeWhile
      · intro character isHead
        have ends := List.head?_dropWhile_not Text.isLetter text
        rw [Option.mem_def.mp isHead] at ends
        simpa using ends

/-- A name in front of other texts is read as far as it was if these begin with the same
character. -/
theorem controlName_append {written rest rest' : Text}
    (within : controlName (written ++ rest) <+: written) (nonempty : rest ≠ [])
    (sameHead : rest.head? = rest'.head?) :
    controlName (written ++ rest') = controlName (written ++ rest) := by
  rcases @controlName_cases (written ++ rest) (by simp [nonempty]) with
    ⟨head, others, textEq, noLetter, named⟩ | ⟨name, others, textEq, notNil, letters, ends, named⟩
  · rw [named] at within ⊢
    obtain ⟨args, rfl⟩ := within
    simp [controlName, noLetter]
  · rw [named] at within ⊢
    obtain ⟨args, rfl⟩ := within
    rw [List.append_assoc] at textEq ⊢
    obtain rfl := List.append_cancel_left textEq
    refine controlName_of_letters notNil letters fun character isHead => ends character ?_
    cases args with
    | nil => rwa [List.nil_append, sameHead]
    | cons first others => exact isHead

theorem spacedGroup?_eq_some_iff {text gap content rest : Text} :
    spacedGroup? text = some (gap, content, rest) ↔
      (∀ character ∈ gap, isSpace character = true) ∧
        untilClosed? 0 (content ++ '}' :: rest) = some content ∧
        text = gap ++ '{' :: (content ++ '}' :: rest) := by
  constructor
  · intro found
    have textEq : text = gap ++ '{' :: (content ++ '}' :: rest) := by
      simpa using (spacedGroup?_eq found).symm
    simp only [spacedGroup?, drop_spaces, Option.bind_eq_bind, Option.bind_eq_some_iff,
      Option.pure_def, Option.some.injEq, Prod.mk.injEq] at found
    obtain ⟨_, grouped, gapEq, rfl, -⟩ := found
    have space : ∀ character ∈ gap, isSpace character = true := by
      intro character member
      rw [← gapEq] at member
      exact isSpace_of_mem_spaces member
    rw [textEq, (spaces_append _ space (by decide)).2] at grouped
    exact ⟨space, grouped, textEq⟩
  · rintro ⟨space, closed, rfl⟩
    obtain ⟨gapEq, -⟩ := spaces_append (content ++ '}' :: rest) space
      (show isSpace '{' = false by decide)
    have dropped : ('{' :: (content ++ '}' :: rest)).drop (content.length + 2) = rest := by
      rw [List.drop_succ_cons, ← List.drop_drop, List.drop_left]
      rfl
    simp only [spacedGroup?, gapEq, List.drop_left, braceGroup?, closed, dropped,
      Option.bind_eq_bind, Option.bind_some, Option.pure_def]

/-- The parts of a merge that is read: three groups behind white space, each closed by the brace
behind it, of which the first holds the number of columns. -/
structure MergeText.IsRead (parts : MergeText) : Prop where
  numberGap : parts.numberGap.IsSpace
  number : ∀ rest, untilClosed? 0 (parts.number ++ '}' :: rest) = some parts.number
  specifierGap : parts.specifierGap.IsSpace
  specifier : ∀ rest, untilClosed? 0 (parts.specifier ++ '}' :: rest) = some parts.specifier
  contentGap : parts.contentGap.IsSpace
  content : ∀ rest, untilClosed? 0 (parts.content ++ '}' :: rest) = some parts.content
  columns : Text.number? (Text.trim parts.number) = some parts.columns

/-- A merge is read from its arguments, whatever stands behind them. -/
theorem read?_eq_some_iff {text : Text} {parts : MergeText} :
    MergeText.read? text = some parts ↔
      parts.IsRead ∧ ∃ rest, text = parts.argumentsText ++ rest := by
  constructor
  · intro found
    simp only [MergeText.read?, Option.bind_eq_bind, Option.bind_eq_some_iff,
      Option.pure_def, Option.some.injEq] at found
    obtain ⟨⟨numberGap, number, afterNumber⟩, first, ⟨specifierGap, specifier, afterSpecifier⟩,
      second, ⟨contentGap, content, afterContent⟩, third, columns, isNumber, rfl⟩ := found
    obtain ⟨space, closed, rfl⟩ := spacedGroup?_eq_some_iff.mp first
    obtain ⟨space', closed', rfl⟩ := spacedGroup?_eq_some_iff.mp second
    obtain ⟨space'', closed'', rfl⟩ := spacedGroup?_eq_some_iff.mp third
    exact ⟨⟨space, untilClosed?_behind closed, space', untilClosed?_behind closed', space'',
      untilClosed?_behind closed'', isNumber⟩, afterContent, by simp [MergeText.argumentsText]⟩
  · rintro ⟨isRead, rest, rfl⟩
    have third := spacedGroup?_eq_some_iff.mpr ⟨isRead.contentGap, isRead.content rest, rfl⟩
    have second := spacedGroup?_eq_some_iff.mpr
      ⟨isRead.specifierGap, isRead.specifier (parts.contentGap ++ '{' :: (parts.content
        ++ '}' :: rest)), rfl⟩
    have first := spacedGroup?_eq_some_iff.mpr
      ⟨isRead.numberGap, isRead.number (parts.specifierGap ++ '{' :: (parts.specifier
        ++ '}' :: (parts.contentGap ++ '{' :: (parts.content ++ '}' :: rest)))), rfl⟩
    simp only [MergeText.argumentsText, List.append_assoc, List.cons_append, List.nil_append,
      MergeText.read?, first, second, third, Option.bind_eq_bind, Option.bind_some,
      isRead.columns, Option.pure_def]

/-- A merge is read in front of any text. -/
theorem read?_behind {text : Text} {parts : MergeText} (found : MergeText.read? text = some parts)
    (rest : Text) : MergeText.read? (parts.argumentsText ++ rest) = some parts :=
  read?_eq_some_iff.mpr ⟨(read?_eq_some_iff.mp found).1, rest, rfl⟩

/-- A control sequence takes what it took in front of a text that looks alike. -/
theorem Takes.append {context : Context} {name taken rest rest' : Text} {kind : Kind}
    (takes : Takes context name (taken ++ rest) kind taken) (nonempty : rest ≠ [])
    (alike : rest.Alike rest')
    (lacking : name ++ taken = MergeText.name → MergeText.read? rest = none →
      MergeText.read? rest' = none) :
    Takes context name (taken ++ rest') kind taken := by
  generalize behindEq : taken ++ rest = behind at takes
  cases takes with
  | grouped inGroup => exact .grouped inGroup
  | terminator outside isTerminator =>
      generalize groupEq : (optionalGroup? behind).getD [] = group at behindEq ⊢
      rw [← behindEq] at groupEq
      have takes : Takes context name (group ++ rest') .terminator _ :=
        .terminator outside isTerminator
      rwa [optionalGroup?_append groupEq alike] at takes
  | @rule required outside isRule =>
      generalize groupsEq : arguments required behind = groups at behindEq ⊢
      rw [← behindEq] at groupsEq
      have takes : Takes context name (groups ++ rest') .rule _ := .rule outside isRule
      rwa [arguments_append groupsEq nonempty alike] at takes
  | merge outside isMerge blank found =>
      exact .merge outside isMerge blank (read?_behind found rest')
  | lacking outside isMerge blank missing =>
      rw [← behindEq] at missing
      exact .lacking outside isMerge blank (lacking (by rw [isMerge, List.append_nil]) missing)
  | plain noTerminator noRule noMerge => exact .plain noTerminator noRule noMerge

/-- A control sequence is read as it was in front of a text that looks alike. -/
theorem readControl_append {context : Context} {kind : Kind} {written rest rest' : Text}
    (read : readControl context (written ++ rest) = (kind, written)) (nonempty : rest ≠ [])
    (alike : rest.Alike rest')
    (lacking : written = MergeText.name → MergeText.read? rest = none →
      MergeText.read? rest' = none) :
    readControl context (written ++ rest') = (kind, written) := by
  obtain ⟨taken, takes, writtenEq⟩ := readControl_eq_iff.mp read
  have named := controlName_append ⟨taken, writtenEq.symm⟩ nonempty alike.head
  generalize nameEq : controlName (written ++ rest) = name at takes writtenEq named
  subst writtenEq
  rw [List.append_assoc, List.drop_left] at takes
  rw [List.append_assoc] at named ⊢
  exact (takes.append nonempty alike lacking).readControl named

end LatexTabular.Body
