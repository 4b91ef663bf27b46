import LatexTabular.Proofs.Body.Relexing
import LatexTabular.Proofs.Markup.Optional

/-!
# The texts of commands in a body

A terminator is two backslashes with the optional group that directly follows, a rule is one of
the rule commands with its arguments, and a merge is read with its three groups
(`terminator_of_mem_lex`, `rule_of_mem_lex`, `exists_read?_of_mem_lex`).
-/

namespace LatexTabular.Body

open Markup

/-- Two backslashes, alone or with one group in brackets behind them. -/
def IsTerminator (text : Text) : Prop :=
  ∃ group, (group = [] ∨ IsBracketed group) ∧ text = '\\' :: '\\' :: group

/-- A command with nothing but groups in brackets behind it. -/
def IsPlainRule (name text : Text) : Prop :=
  ∃ groups, AreBracketed groups ∧ text = '\\' :: name ++ groups

/-- Two backslashes take no group in parentheses exactly if none directly follows. -/
theorem isTerminator_optionalGroup?_iff {behind : Text} :
    IsTerminator ('\\' :: '\\' :: (optionalGroup? behind).getD []) ↔
      ¬ OpensParenthesis behind := by
  rw [← optionalGroup?_isBracketed_iff]
  constructor
  · rintro ⟨group, shape, textEq⟩
    simp only [List.cons.injEq, true_and] at textEq
    rwa [textEq]
  · exact fun shape => ⟨_, shape, rfl⟩

/-- A command without required groups takes no group in parentheses exactly if none directly
follows, also behind groups in brackets. -/
theorem isPlainRule_arguments_iff {name behind : Text} :
    IsPlainRule name ('\\' :: (name ++ arguments 0 behind)) ↔ ¬ ReachesParenthesis behind := by
  have argumentsEq : arguments 0 behind = optionalGroups behind := by
    simp [arguments, requiredGroups]
  rw [argumentsEq, ← optionalGroups_areBracketed_iff]
  constructor
  · rintro ⟨groups, areBracketed, textEq⟩
    rw [List.cons_append, List.cons.injEq] at textEq
    rwa [List.append_cancel_left textEq.2]
  · exact fun areBracketed => ⟨_, areBracketed, rfl⟩

variable {lexeme : Lexeme} {nested : List Span} {offset : Nat} {context : Context}
  {text body written : Text}

/-- The names of rule commands are letters only. -/
theorem mem_ruleCommands_of_lookup {name : Text} {required : Nat}
    (isRule : ruleCommands.lookup name = some required) :
    (name, required) ∈ ruleCommands ∧ name ≠ [] ∧ name.all Text.isLetter = true := by
  have letters : ∀ command ∈ ruleCommands,
      command.1 ≠ [] ∧ command.1.all Text.isLetter = true := by decide
  obtain ⟨front, back, commandsEq, -⟩ := List.lookup_eq_some_iff.mp isRule
  have member : (name, required) ∈ ruleCommands := by simp [commandsEq]
  exact ⟨member, letters _ member⟩

/-- A terminator is the control sequence of a second backslash. -/
theorem exists_of_readControl_terminator
    (read : readControl context text = (.terminator, written)) :
    ∃ behind, text = '\\' :: behind ∧ written = '\\' :: (optionalGroup? behind).getD [] := by
  obtain ⟨taken, takes, rfl⟩ := readControl_eq_iff.mp read
  cases takes with
  | terminator outside isTerminator =>
      obtain ⟨behind, textEq⟩ := controlName_isPrefix text
      rw [isTerminator] at textEq ⊢
      refine ⟨behind, textEq.symm, ?_⟩
      rw [← textEq]
      rfl

/-- A rule is a rule command with its arguments. -/
theorem exists_of_readControl_rule (read : readControl context text = (.rule, written)) :
    ∃ name required behind, (name, required) ∈ ruleCommands ∧ text = name ++ behind ∧
      (∀ next ∈ behind.head?, Text.isLetter next = false) ∧
      written = name ++ arguments required behind := by
  obtain ⟨taken, takes, rfl⟩ := readControl_eq_iff.mp read
  cases takes with
  | @rule required outside isRule =>
      obtain ⟨member, nonempty, letters⟩ := mem_ruleCommands_of_lookup isRule
      have notNil : text ≠ [] := by
        rintro rfl
        exact nonempty rfl
      rcases controlName_cases notNil with
        ⟨head, rest, -, noLetter, named⟩ | ⟨name, rest, textEq, -, -, ends, named⟩
      · rw [named] at letters
        exact absurd letters (by simp [noLetter])
      · rw [named] at member ⊢
        exact ⟨name, required, rest, member, textEq, ends, by rw [textEq, List.drop_left]⟩

/-- Rules and terminators of a body are read from control sequences of it. -/
theorem exists_readControl_of_mem_lex (member : lexeme ∈ lex nested offset context body)
    (isCommand : lexeme.kind.isCommand = true) :
    ∃ (front rest : Text) (context : Context) (written : Text), body = front ++ '\\' :: rest ∧
      lexeme.start = offset + front.size ∧ lexeme.text = '\\' :: written ∧
      readControl context rest = (lexeme.kind, written) := by
  obtain ⟨front, head, rest, context, written, rfl, startEq, textEq, reads⟩ :=
    exists_readsAs_of_mem_lex member
  generalize lexeme.kind = kind at reads isCommand ⊢
  cases reads with
  | control isBackslash unnested read =>
      subst isBackslash
      exact ⟨front, rest, context, written, rfl, startEq, textEq, read⟩
  | comment | environment | separator | space | content =>
      exact absurd isCommand (by simp [Kind.isCommand])

/-- A terminator is two backslashes with the optional group behind them. -/
theorem terminator_of_mem_lex (member : lexeme ∈ lex nested offset context body)
    (kindEq : lexeme.kind = .terminator) :
    ∃ front behind : Text, body = front ++ '\\' :: '\\' :: behind ∧
      lexeme.start = offset + front.size ∧
      lexeme.text = '\\' :: '\\' :: (optionalGroup? behind).getD [] := by
  obtain ⟨front, rest, context, written, rfl, startEq, textEq, read⟩ :=
    exists_readControl_of_mem_lex member (by simp [kindEq, Kind.isCommand])
  rw [kindEq] at read
  obtain ⟨behind, rfl, rfl⟩ := exists_of_readControl_terminator read
  exact ⟨front, behind, rfl, startEq, textEq⟩

/-- A rule is a rule command with its arguments. -/
theorem rule_of_mem_lex (member : lexeme ∈ lex nested offset context body)
    (kindEq : lexeme.kind = .rule) :
    ∃ (front behind name : Text) (required : Nat), (name, required) ∈ ruleCommands ∧
      body = front ++ '\\' :: (name ++ behind) ∧
      (∀ next ∈ behind.head?, Text.isLetter next = false) ∧
      lexeme.start = offset + front.size ∧
      lexeme.text = '\\' :: (name ++ arguments required behind) := by
  obtain ⟨front, rest, context, written, rfl, startEq, textEq, read⟩ :=
    exists_readControl_of_mem_lex member (by simp [kindEq, Kind.isCommand])
  rw [kindEq] at read
  obtain ⟨name, required, behind, isRule, rfl, ends, rfl⟩ := exists_of_readControl_rule read
  exact ⟨front, behind, name, required, isRule, rfl, ends, startEq, textEq⟩

/-- The arguments of a merge are read behind its name. -/
theorem exists_read?_of_mem_lex {parts : MergeText}
    (member : lexeme ∈ lex nested offset context body) (kindEq : lexeme.kind = .merge parts) :
    ∃ text, MergeText.read? text = some parts := by
  obtain ⟨front, head, rest, context, -, rfl⟩ := exists_readPart_of_mem_lex member
  exact (exists_of_readPart_merge (Prod.ext kindEq rfl)).2.2

end LatexTabular.Body
