import LatexTabular.Proofs.Body.Branches
import LatexTabular.Proofs.Sheet.Basic
import Mathlib.Data.List.DropRight
import Mathlib.Data.List.TakeWhile
import Mathlib.Tactic.Common

/-!
# Lexemes of a sheet

Each token of a sheet is one lexeme, and each other character of it is one, too.
What a token is does not depend on what follows it, except that a rule must not
be followed by a letter, and neither a rule nor a terminator by an optional
group.
-/

namespace LatexTabular.Body

open Markup

/-- However a text goes on, its lexemes come first. -/
def Lexes (start : Nat) (context : Context) (text : Text) (lexemes : List Lexeme)
    (context' : Context) : Prop :=
  ∀ rest, lex [] start context (text ++ rest)
    = lexemes ++ lex [] (start + text.size) context' rest

theorem Lexes.append {start : Nat} {context context' context'' : Context}
    {left right : Text} {first second : List Lexeme}
    (before : Lexes start context left first context')
    (behind : Lexes (start + left.size) context' right second context'') :
    Lexes start context (left ++ right) (first ++ second) context'' := by
  intro rest
  rw [List.append_assoc, before, behind, Text.size_append, List.append_assoc, Nat.add_assoc]

/-- The lexemes of a text without markup, one for each character. -/
def charLexemes (start : Nat) : Text → List Lexeme
  | [] => []
  | head :: rest =>
      ⟨start, if isSpace head then .space else .content, [head]⟩
        :: charLexemes (start + head.utf8Size) rest

theorem readPart_of_isOrdinary {offset : Nat} {context : Context} {head : Char} {rest : Text}
    (ordinary : Text.isOrdinary head = true) :
    readPart [] offset context head rest
      = (if isSpace head then .space else .content, []) := by
  simp only [Text.isOrdinary, Bool.and_eq_true, bne_iff_ne, ne_eq] at ordinary
  obtain ⟨⟨⟨⟨notBackslash, -⟩, -⟩, notSeparator⟩, notComment⟩ := ordinary
  split
  next space => exact readPart_eq_iff.mpr (.space space)
  next noSpace =>
    exact readPart_eq_iff.mpr (.content notComment notBackslash
      (fun isAmpersand => absurd isAmpersand notSeparator) (by simpa using noSpace))

theorem isOrdinary_of_isSpace {character : Char} (space : isSpace character = true) :
    Text.isOrdinary character = true := by
  simp only [isSpace, Bool.or_eq_true, beq_iff_eq] at space
  rcases space with (((rfl | rfl) | rfl) | rfl) | rfl <;> decide

theorem isBlank_of_isSpace {character : Char} (space : isSpace character = true) :
    Text.isBlank character = true := by
  simp only [isSpace, Bool.or_eq_true, beq_iff_eq] at space
  rcases space with (((rfl | rfl) | rfl) | rfl) | rfl <;> decide

theorem isSpace_eq_false_of_isBlank {character : Char}
    (inked : Text.isBlank character = false) : isSpace character = false := by
  by_contra space
  rw [isBlank_of_isSpace (by simpa using space)] at inked
  exact Bool.noConfusion inked

theorem depth_after_of_isOrdinary {context : Context} {head : Char} (kind : Kind)
    (ordinary : Text.isOrdinary head = true) : (context.after head kind).depth = context.depth := by
  simp only [Text.isOrdinary, Bool.and_eq_true, bne_iff_ne, ne_eq] at ordinary
  simp [Context.after, ordinary.1.1.1.2, ordinary.1.1.2]

/-- A text without markup is cut into its characters. -/
theorem exists_lexes_charLexemes (start : Nat) (context : Context) {text : Text}
    (ordinary : ∀ character ∈ text, Text.isOrdinary character = true) :
    ∃ context', context'.depth = context.depth ∧
      (text.IsSpace → context' = context) ∧
      Lexes start context text (charLexemes start text) context' := by
  induction text generalizing start context with
  | nil =>
      refine ⟨context, rfl, fun _ => rfl, ?_⟩
      intro rest
      rfl
  | cons head rest ih =>
      have headOrdinary := ordinary head List.mem_cons_self
      have part := @readPart_of_isOrdinary start context head
      obtain ⟨context', sameDepth, unchanged, lexes⟩ :=
        ih (start + head.utf8Size)
          (context.after head (if isSpace head then .space else .content))
          (fun character member => ordinary character (List.mem_cons_of_mem _ member))
      refine ⟨context', sameDepth.trans (depth_after_of_isOrdinary _ headOrdinary), ?_, ?_⟩
      · intro spaces
        have headSpace := spaces head List.mem_cons_self
        rw [unchanged fun character member => spaces character (List.mem_cons_of_mem _ member)]
        have depth := @depth_after_of_isOrdinary context head .space headOrdinary
        cases context
        simp_all [Context.after]
      · intro following
        rw [List.cons_append, lex_cons, part headOrdinary]
        have stopEq : (Lexeme.mk start (if isSpace head then .space else .content) [head]).stop
            = start + head.utf8Size := rfl
        simp only [List.length_nil, List.drop_zero, charLexemes, Text.size_cons,
          ← Nat.add_assoc, List.cons_append]
        rw [stopEq, lexes following]

theorem kind_of_mem_charLexemes {start : Nat} {text : Text} {lexeme : Lexeme}
    (member : lexeme ∈ charLexemes start text) :
    lexeme.kind = .space ∨ lexeme.kind = .content := by
  induction text generalizing start with
  | nil => simp [charLexemes] at member
  | cons head rest ih =>
      cases member with
      | head =>
          dsimp only
          split
          · exact Or.inl rfl
          · exact Or.inr rfl
      | tail _ member => exact ih member

theorem kind_of_mem_charLexemes_of_isSpace {start : Nat} {text : Text} {lexeme : Lexeme}
    (spaces : text.IsSpace) (member : lexeme ∈ charLexemes start text) :
    lexeme.kind = .space := by
  induction text generalizing start with
  | nil => simp [charLexemes] at member
  | cons head rest ih =>
      cases member with
      | head => simp [spaces head List.mem_cons_self]
      | tail _ member =>
          exact ih (fun character inRest => spaces character (List.mem_cons_of_mem _ inRest)) member

theorem flatMap_text_charLexemes (start : Nat) (text : Text) :
    (charLexemes start text).flatMap Lexeme.text = text := by
  induction text generalizing start with
  | nil => rfl
  | cons head rest ih => simp [charLexemes, ih]

/-- The lexemes of a text start where it starts. -/
theorem head?_charLexemes {start : Nat} {text : Text} {first : Lexeme}
    (isFirst : (charLexemes start text).head? = some first) :
    first.start = start ∧ ∃ head ∈ text.head?,
      first.kind = if isSpace head then .space else .content := by
  cases text with
  | nil => simp [charLexemes] at isFirst
  | cons head rest =>
      obtain rfl := Option.some.inj isFirst
      exact ⟨rfl, head, rfl, rfl⟩

/-- The lexemes of a text end where it ends. -/
theorem getLast?_charLexemes {start : Nat} {text : Text} {last : Lexeme}
    (isLast : (charLexemes start text).getLast? = some last) :
    last.stop = start + text.size ∧ ∃ final ∈ text.getLast?,
      last.kind = if isSpace final then .space else .content := by
  induction text generalizing start with
  | nil => simp [charLexemes] at isLast
  | cons head rest ih =>
      cases rest with
      | nil =>
          obtain rfl := Option.some.inj isLast
          exact ⟨rfl, head, rfl, rfl⟩
      | cons next rest =>
          obtain ⟨stopEq, final, isFinal, kindEq⟩ := @ih (start + head.utf8Size) isLast
          refine ⟨?_, final, isFinal, kindEq⟩
          rw [stopEq, Text.size_cons head, Nat.add_assoc]

/-- What is in a brace group without braces or backslashes reaches to its
closing brace. -/
theorem untilClosed?_of_isOrdinary {text : Text} (rest : Text)
    (ordinary : ∀ character ∈ text, Text.isOrdinary character = true) :
    untilClosed? 0 (text ++ '}' :: rest) = some text := by
  induction text with
  | nil => rfl
  | cons head tail ih =>
      have others := ih fun character member => ordinary character (List.mem_cons_of_mem _ member)
      have headOrdinary := ordinary head List.mem_cons_self
      simp only [Text.isOrdinary, Bool.and_eq_true, bne_iff_ne, ne_eq] at headOrdinary
      obtain ⟨⟨⟨⟨notBackslash, notOpening⟩, notClosing⟩, -⟩, -⟩ := headOrdinary
      rw [List.cons_append, untilClosed?.eq_def]
      split <;> simp_all

theorem spacedGroup?_of_isOrdinary {text : Text} (rest : Text)
    (ordinary : ∀ character ∈ text, Text.isOrdinary character = true) :
    spacedGroup? ('{' :: text ++ '}' :: rest) = some ([], text, rest) := by
  have opened : isSpace '{' = false := by decide
  have closed := untilClosed?_of_isOrdinary rest ordinary
  simp [spacedGroup?, spaces, opened, braceGroup?, closed]

theorem isOrdinary_of_isDigit {character : Char} (digit : Text.isDigit character = true) :
    Text.isOrdinary character = true := by
  have bounds := Text.toNat_of_isDigit digit
  simp only [Text.isOrdinary, Bool.and_eq_true, bne_iff_ne, ne_eq]
  refine ⟨⟨⟨⟨?_, ?_⟩, ?_⟩, ?_⟩, ?_⟩ <;>
  · rintro rfl
    revert bounds
    decide

theorem isOrdinary_of_isBarred {text : Text} (barred : text.IsBarred) :
    ∀ character ∈ text, Text.isOrdinary character = true := by
  intro character member
  rcases barred character member with letter | rfl
  · simp only [Text.isOrdinary, Bool.and_eq_true, bne_iff_ne, ne_eq]
    refine ⟨⟨⟨⟨?_, ?_⟩, ?_⟩, ?_⟩, ?_⟩ <;>
    · rintro rfl
      exact absurd letter (by decide)
  · decide

/-- Trimming keeps a text that neither starts nor ends with white space. -/
theorem trim_eq_self {text : Text} (head : ∀ character ∈ text.head?, Text.isBlank character = false)
    (last : ∀ character ∈ text.getLast?, Text.isBlank character = false) :
    Text.trim text = text := by
  have left : Text.trimLeft text = text := by
    cases text with
    | nil => rfl
    | cons first rest => simp [Text.trimLeft, head first rfl]
  have right : Text.trimRight text = text := by
    cases reversed : text.reverse with
    | nil => simp [Text.trimRight, List.reverse_eq_nil_iff.mp reversed]
    | cons final rest =>
        have isLast : text.getLast? = some final := by
          rw [← List.head?_reverse, reversed, List.head?_cons]
        rw [Text.trimRight, reversed, List.dropWhile_cons_of_neg (by simp [last final isLast]),
          ← reversed, List.reverse_reverse]
  rw [Text.trim, left, right]

theorem trim_of_isNumeral {text : Text} (numeral : text.IsNumeral) : Text.trim text = text := by
  refine trim_eq_self ?_ ?_
  · intro character isHead
    exact Text.isBlank_eq_false_of_isDigit (numeral.2 character (List.mem_of_mem_head? isHead))
  · intro character isLast
    exact Text.isBlank_eq_false_of_isDigit (numeral.2 character (List.mem_of_mem_getLast? isLast))

/-- A name of letters is read up to the next character that is none. -/
theorem controlName_of_letters {name rest : Text} (nonempty : name ≠ [])
    (letters : name.all Text.isLetter = true)
    (ends : ∀ character ∈ rest.head?, Text.isLetter character = false) :
    controlName (name ++ rest) = name := by
  have none : rest.takeWhile Text.isLetter = [] := by
    cases rest with
    | nil => rfl
    | cons head tail => simp [ends head rfl]
  have taken : (name ++ rest).takeWhile Text.isLetter = name := by
    rw [List.takeWhile_append_of_pos (List.all_eq_true.mp letters), none, List.append_nil]
  unfold controlName
  rw [taken]
  split
  · exact absurd rfl nonempty
  · rfl

theorem read?_mergeText {number specifier content : Text} (rest : Text)
    (wellFormed : (Entry.merged number specifier content).WellFormed) :
    MergeText.read? ('{' :: number ++ '}' :: '{' :: specifier ++ '}' :: '{' :: content
      ++ '}' :: rest) = some (Entry.mergeText number specifier content) := by
  obtain ⟨numeral, -, fits, barred, plain⟩ := wellFormed
  have first := spacedGroup?_of_isOrdinary
    ('{' :: specifier ++ '}' :: '{' :: content ++ '}' :: rest)
    (fun character member => isOrdinary_of_isDigit (numeral.2 character member))
  have second := spacedGroup?_of_isOrdinary ('{' :: content ++ '}' :: rest)
    (isOrdinary_of_isBarred barred)
  have third := spacedGroup?_of_isOrdinary rest plain.ordinary
  simp only [List.cons_append, List.append_assoc] at first second third ⊢
  simp [MergeText.read?, first, second, third, trim_of_isNumeral numeral,
    Text.number?_of_isNumeral numeral fits, Entry.mergeText]

/-- A control sequence is one lexeme. -/
theorem lex_control {start : Nat} {context : Context} {text following : Text} {kind : Kind}
    (control : readControl context (text ++ following) = (kind, text)) :
    lex [] start context ('\\' :: text ++ following)
      = ⟨start, kind, '\\' :: text⟩ :: lex [] (start + Text.size ('\\' :: text))
          (context.after '\\' kind) following := by
  have part : readPart [] start context '\\' (text ++ following) = (kind, text) :=
    readPart_eq_iff.mpr (.control rfl rfl control)
  rw [List.cons_append, lex_cons]
  simp only [part, List.drop_left]
  rfl

/-- A merge is read as it is written. -/
theorem lexes_merged {start : Nat} {number specifier content : Text}
    (wellFormed : (Entry.merged number specifier content).WellFormed) :
    Lexes start ⟨0, true⟩ (Entry.merged number specifier content).text
      [⟨start, .merge (Entry.mergeText number specifier content),
        (Entry.merged number specifier content).text⟩] ⟨0, false⟩ := by
  intro rest
  have found := read?_mergeText rest wellFormed
  have named : controlName (MergeText.name ++ ('{' :: number ++ '}' :: '{' :: specifier ++ '}' ::
      '{' :: content ++ '}' :: rest)) = MergeText.name :=
    controlName_of_letters (by decide) (by decide) (by simp; decide)
  have takes : Takes ⟨0, true⟩ MergeText.name _ _ _ := .merge rfl rfl rfl found
  have control := takes.readControl named
  have shape : MergeText.name ++ ('{' :: number ++ '}' :: '{' :: specifier ++ '}' :: '{' :: content
        ++ '}' :: rest)
      = MergeText.name ++ (Entry.mergeText number specifier content).argumentsText ++ rest := by
    simp [MergeText.argumentsText, Entry.mergeText]
  rw [shape] at control
  rw [show (Entry.merged number specifier content).text
    = '\\' :: (MergeText.name ++ (Entry.mergeText number specifier content).argumentsText)
    from MergeText.text_eq _]
  exact lex_control control

/-- Whether a text lets the rule in front of it end. -/
structure EndsRule (rest : Text) : Prop where
  letter : ∀ character ∈ rest.head?, Text.isLetter character = false
  group : optionalGroup? rest = none

theorem lex_rule {start : Nat} {blank : Bool} {rest : Text} (ends : EndsRule rest) :
    lex [] start ⟨0, blank⟩ ("\\hline".toList ++ rest)
      = ⟨start, .rule, "\\hline".toList⟩ :: lex [] (start + 6) ⟨0, blank⟩ rest := by
  have named : controlName ("hline".toList ++ rest) = "hline".toList :=
    controlName_of_letters (by decide) (by decide) ends.letter
  have noGroups : optionalGroups rest = [] := by
    rw [optionalGroups.eq_def]
    split
    next found => simp [ends.group] at found
    next => rfl
  have noArguments : arguments 0 rest = [] := by
    simp [arguments, noGroups, requiredGroups]
  have isRule : ruleCommands.lookup "hline".toList = some 0 := by decide
  have takes : Takes ⟨0, blank⟩ "hline".toList rest .rule _ := .rule rfl isRule
  rw [noArguments] at takes
  exact lex_control (takes.readControl named)

theorem lex_terminator {start : Nat} {blank : Bool} {rest : Text}
    (ends : optionalGroup? rest = none) :
    lex [] start ⟨0, blank⟩ ("\\\\".toList ++ rest)
      = ⟨start, .terminator, "\\\\".toList⟩ :: lex [] (start + 2) ⟨0, true⟩ rest := by
  have named : controlName (['\\'] ++ rest) = ['\\'] := by
    have notLetter : Text.isLetter '\\' = false := by decide
    simp [controlName, notLetter]
  have takes : Takes ⟨0, blank⟩ ['\\'] rest .terminator _ := .terminator rfl rfl
  rw [ends] at takes
  exact lex_control (takes.readControl named)

theorem lex_separator (start : Nat) (blank : Bool) (rest : Text) :
    lex [] start ⟨0, blank⟩ ('&' :: rest)
      = ⟨start, .separator, ['&']⟩ :: lex [] (start + 1) ⟨0, true⟩ rest := by
  have part : readPart [] start ⟨0, blank⟩ '&' rest = (.separator, []) :=
    readPart_eq_iff.mpr (.separator rfl rfl)
  rw [lex_cons, part]
  rfl

end LatexTabular.Body
