import LatexTabular.Body.Lexeme

/-!
# The ways to read a part of a body

A part of a body is read by its first character (`ReadsAs`), and a control sequence by its
name, which decides what it takes of the text behind (`Takes`).  Both relations list every
way of reading with the guards under which it is taken, so that nothing else has to open
the readers (`readPart_eq_iff`, `readControl_eq_iff`).
-/

namespace LatexTabular.Body

open Markup

/-- What of a merge stands behind its name. -/
def MergeText.argumentsText (parts : MergeText) : Text :=
  parts.numberGap ++ '{' :: (parts.number ++ '}' :: (parts.specifierGap ++ '{' :: (parts.specifier
    ++ '}' :: (parts.contentGap ++ '{' :: (parts.content ++ ['}'])))))

theorem MergeText.text_eq (parts : MergeText) :
    parts.text = '\\' :: (MergeText.name ++ parts.argumentsText) := by
  simp [MergeText.text, MergeText.preamble, argumentsText]

variable {nested : List Span} {offset : Nat} {context : Context} {head : Char}
  {text name behind rest written taken : Text} {kind : Kind}

section Controls

/-- What a control sequence is read as, and what it takes of the text behind its name. -/
inductive Takes (context : Context) (name behind : Text) : Kind → Text → Prop where
  | grouped (inGroup : context.depth ≠ 0) : Takes context name behind .content []
  | terminator (outside : context.depth = 0) (isTerminator : name = ['\\']) :
      Takes context name behind .terminator ((optionalGroup? behind).getD [])
  | rule {required : Nat} (outside : context.depth = 0)
      (isRule : ruleCommands.lookup name = some required) :
      Takes context name behind .rule (arguments required behind)
  | merge {parts : MergeText} (outside : context.depth = 0) (isMerge : name = MergeText.name)
      (blank : context.cellIsBlank = true) (found : MergeText.read? behind = some parts) :
      Takes context name behind (.merge parts) parts.argumentsText
  /-- The name of a merge means nothing without the arguments. -/
  | lacking (outside : context.depth = 0) (isMerge : name = MergeText.name)
      (blank : context.cellIsBlank = true) (missing : MergeText.read? behind = none) :
      Takes context name behind .content []
  | plain (noTerminator : name ≠ ['\\']) (noRule : ruleCommands.lookup name = none)
      (noMerge : name = MergeText.name → context.cellIsBlank = false) :
      Takes context name behind .content []

theorem lookup_backslash : ruleCommands.lookup ['\\'] = none := by decide

theorem lookup_name : ruleCommands.lookup MergeText.name = none := by decide

theorem name_ne_backslash : MergeText.name ≠ ['\\'] := by decide

/-- A control sequence is read by its name and the text behind it. -/
theorem readControl_eq_iff : readControl context text = (kind, written) ↔
    ∃ taken, Takes context (controlName text) (text.drop (controlName text).length) kind taken ∧
      written = controlName text ++ taken := by
  generalize nameEq : controlName text = name
  generalize behindEq : text.drop name.length = behind
  simp only [readControl, nameEq, behindEq]
  constructor
  · intro read
    split at read
    next inGroup =>
      obtain ⟨rfl, rfl⟩ := Prod.mk.inj read
      exact ⟨[], .grouped (by simpa using inGroup), (List.append_nil _).symm⟩
    next notInGroup =>
      have outside : context.depth = 0 := by simpa using notInGroup
      split at read
      next isTerminator =>
        obtain ⟨rfl, rfl⟩ := Prod.mk.inj read
        exact ⟨_, .terminator outside isTerminator, rfl⟩
      next noTerminator =>
        split at read
        next required isRule =>
          obtain ⟨rfl, rfl⟩ := Prod.mk.inj read
          exact ⟨_, .rule outside isRule, rfl⟩
        next noRule =>
          split at read
          next opens =>
            simp only [Bool.and_eq_true, decide_eq_true_eq] at opens
            obtain ⟨isMerge, blank⟩ := opens
            split at read
            next parts found =>
              obtain ⟨rfl, rfl⟩ := Prod.mk.inj read
              exact ⟨_, .merge outside isMerge blank found, by rw [isMerge, parts.text_eq]; rfl⟩
            next missing =>
              obtain ⟨rfl, rfl⟩ := Prod.mk.inj read
              exact ⟨[], .lacking outside isMerge blank missing, (List.append_nil _).symm⟩
          next unopened =>
            obtain ⟨rfl, rfl⟩ := Prod.mk.inj read
            exact ⟨[], .plain noTerminator noRule (by simpa using unopened),
              (List.append_nil _).symm⟩
  · rintro ⟨taken, takes, rfl⟩
    cases takes with
    | grouped inGroup => simp [inGroup]
    | terminator outside isTerminator => simp [outside, isTerminator]
    | rule outside isRule =>
        have noTerminator : name ≠ ['\\'] := by
          rintro rfl
          simp [lookup_backslash] at isRule
        simp [outside, noTerminator, isRule]
    | merge outside isMerge blank found =>
        simp [outside, isMerge, blank, found, lookup_name, name_ne_backslash, MergeText.text_eq]
    | lacking outside isMerge blank missing =>
        simp [outside, isMerge, blank, missing, lookup_name, name_ne_backslash]
    | plain noTerminator noRule noMerge =>
        by_cases isMerge : name = MergeText.name
        · simp [noTerminator, noRule, noMerge isMerge]
        · simp [noTerminator, noRule, isMerge]

/-- Every control sequence is read in one of the ways. -/
theorem exists_takes (context : Context) (text : Text) : ∃ kind taken,
    Takes context (controlName text) (text.drop (controlName text).length) kind taken ∧
      readControl context text = (kind, controlName text ++ taken) := by
  obtain ⟨taken, takes, writtenEq⟩ :=
    readControl_eq_iff.mp (show readControl context text = (_, _) from rfl)
  exact ⟨_, taken, takes, Prod.ext rfl writtenEq⟩

/-- A name in front of what it takes. -/
theorem Takes.readControl (takes : Takes context name behind kind taken)
    (named : controlName (name ++ behind) = name) :
    readControl context (name ++ behind) = (kind, name ++ taken) := by
  rw [readControl_eq_iff, named, List.drop_left]
  exact ⟨taken, takes, rfl⟩

end Controls

section Parts

/-- What a part with some first character is read as, and what belongs to it of the text
behind that character. -/
inductive ReadsAs (nested : List Span) (offset : Nat) (context : Context) (head : Char)
    (rest : Text) : Kind → Text → Prop where
  | comment (isPercent : head = '%') :
      ReadsAs nested offset context head rest .comment (Text.firstLine rest)
  | environment {environment : Span} (isBackslash : head = '\\')
      (found : nested.find? (·.start == offset) = some environment) :
      ReadsAs nested offset context head rest .content
        (rest.takeBytes (environment.stop - offset - 1))
  | control {kind : Kind} {written : Text} (isBackslash : head = '\\')
      (unnested : nested.find? (·.start == offset) = none)
      (read : readControl context rest = (kind, written)) :
      ReadsAs nested offset context head rest kind written
  | separator (isAmpersand : head = '&') (outside : context.depth = 0) :
      ReadsAs nested offset context head rest .separator []
  | space (isBlank : isSpace head = true) : ReadsAs nested offset context head rest .space []
  | content (noPercent : head ≠ '%') (noBackslash : head ≠ '\\')
      (noSeparator : head = '&' → context.depth ≠ 0) (noSpace : isSpace head = false) :
      ReadsAs nested offset context head rest .content []

/-- A part is read by its first character. -/
theorem readPart_eq_iff : readPart nested offset context head rest = (kind, written) ↔
    ReadsAs nested offset context head rest kind written := by
  constructor
  · intro read
    unfold readPart at read
    split at read
    next isPercent =>
      obtain ⟨rfl, rfl⟩ := Prod.mk.inj read
      exact .comment isPercent
    next noPercent =>
      split at read
      next isBackslash =>
        split at read
        next environment found =>
          obtain ⟨rfl, rfl⟩ := Prod.mk.inj read
          exact .environment isBackslash found
        next unnested => exact .control isBackslash unnested read
      next noBackslash =>
        split at read
        next isSeparator =>
          obtain ⟨rfl, rfl⟩ := Prod.mk.inj read
          simp only [Bool.and_eq_true, decide_eq_true_eq, beq_iff_eq] at isSeparator
          exact .separator isSeparator.1 isSeparator.2
        next noSeparator =>
          split at read
          next isBlank =>
            obtain ⟨rfl, rfl⟩ := Prod.mk.inj read
            exact .space isBlank
          next noSpace =>
            obtain ⟨rfl, rfl⟩ := Prod.mk.inj read
            exact .content noPercent noBackslash (by simpa using noSeparator)
              (by simpa using noSpace)
  · intro reads
    cases reads with
    | comment isPercent => simp [readPart, isPercent]
    | environment isBackslash found => simp [readPart, isBackslash, found]
    | control isBackslash unnested read => simp [readPart, isBackslash, unnested, read]
    | separator isAmpersand outside => simp [readPart, isAmpersand, outside]
    | space isBlank =>
        have plain : head ≠ '%' ∧ head ≠ '\\' ∧ head ≠ '&' := by
          refine ⟨?_, ?_, ?_⟩ <;>
          · rintro rfl
            exact absurd isBlank (by decide)
        simp [readPart, plain, isBlank]
    | content noPercent noBackslash noSeparator noSpace =>
        by_cases isAmpersand : head = '&'
        · subst isAmpersand
          simp [readPart, noSeparator rfl, noSpace]
        · simp [readPart, noPercent, noBackslash, isAmpersand, noSpace]

/-- A merge is read as a whole at the front of a blank cell, and its arguments behind its name. -/
theorem exists_of_readPart_merge {parts : MergeText}
    (read : readPart nested offset context head rest = (.merge parts, written)) :
    context = ⟨0, true⟩ ∧ head :: written = parts.text ∧
      ∃ behind, MergeText.read? behind = some parts := by
  cases readPart_eq_iff.mp read with
  | control isBackslash unnested read =>
      obtain ⟨taken, takes, rfl⟩ := readControl_eq_iff.mp read
      cases takes with
      | merge outside isMerge blank found =>
          refine ⟨by rw [← outside, ← blank], ?_, _, found⟩
          rw [isBackslash, isMerge, parts.text_eq]

end Parts

end LatexTabular.Body
