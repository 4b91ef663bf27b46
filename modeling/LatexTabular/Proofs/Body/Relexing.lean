import LatexTabular.Proofs.Body.Contained
import Mathlib.Data.List.Infix

/-!
# Lexemes around a change of a body

Where a part of a body is replaced, the lexemes in front of it stay if the last command there does
not reach into it (`Cuts.before_change`), and those behind it stay up to their places
(`map_token_lex`).
-/

namespace LatexTabular.Body

open Markup

section Contexts

variable {context context' : Context} {text : Text}

/-- Whether a part is a rule or the end of a row. -/
def Kind.isCommand : Kind → Bool
  | .rule | .terminator => true
  | _ => false

/-- Whether a part stands between two cells. -/
def Kind.endsCell : Kind → Bool
  | .separator | .terminator => true
  | _ => false

theorem cellIsBlank_after {kind : Kind} (empty : kind.fillsCell = false) (head : Char) :
    (context.after head kind).cellIsBlank = (kind.endsCell || context.cellIsBlank) := by
  cases kind with
  | space | comment | separator | terminator | rule => rfl
  | merge parts => exact absurd empty (by simp [Kind.fillsCell])
  | content => exact absurd empty (by simp [Kind.fillsCell])

/-- Rules and terminators are read outside all groups, whatever stands in their cell. -/
theorem readControl_of_isCommand (isCommand : (readControl context text).1.isCommand = true)
    (outside : context'.depth = 0) : readControl context' text = readControl context text := by
  obtain ⟨kind, taken, takes, read⟩ := exists_takes context text
  rw [read] at isCommand ⊢
  refine readControl_eq_iff.mpr ⟨taken, ?_, rfl⟩
  cases takes with
  | terminator _ isTerminator => exact .terminator outside isTerminator
  | rule _ isRule => exact .rule outside isRule
  | grouped | merge | lacking | plain => exact absurd isCommand (by simp [Kind.isCommand])

/-- A control sequence that fills no cell is a rule or ends a row, outside all groups. -/
theorem isCommand_readControl (empty : (readControl context text).1.fillsCell = false) :
    (readControl context text).1.isCommand = true ∧ context.depth = 0 := by
  obtain ⟨kind, taken, takes, read⟩ := exists_takes context text
  rw [read] at empty ⊢
  cases takes with
  | terminator outside => exact ⟨rfl, outside⟩
  | rule outside => exact ⟨rfl, outside⟩
  | grouped | merge | lacking | plain => exact absurd empty (by simp [Kind.fillsCell])

end Contexts

section Behind

/-- A lexeme without its place. -/
def Lexeme.token (lexeme : Lexeme) : Kind × Text := (lexeme.kind, lexeme.text)

/-- Whether nothing fills a cell up to the next separator or terminator. -/
def StaysBlank : List Lexeme → Prop
  | [] => True
  | lexeme :: rest => lexeme.kind.fillsCell = false ∧
      (lexeme.kind.endsCell = true ∨ StaysBlank rest)

/-- Whether environments stand alike behind two offsets. -/
def NestedAlike (nested nested' : List Span) (offset offset' : Nat) : Prop :=
  ∀ place, (nested.find? (·.start == offset + place)).map (·.stop - (offset + place))
    = (nested'.find? (·.start == offset' + place)).map (·.stop - (offset' + place))

variable {nested nested' : List Span} {offset offset' : Nat} {context context' : Context}

theorem NestedAlike.add (alike : NestedAlike nested nested' offset offset') (size : Nat) :
    NestedAlike nested nested' (offset + size) (offset' + size) := by
  intro place
  rw [Nat.add_assoc, Nat.add_assoc]
  exact alike (size + place)

/-- What is read does not depend on the place. -/
theorem readPart_of_nestedAlike (alike : NestedAlike nested nested' offset offset')
    (depth : context.depth = context'.depth) {head : Char} {rest : Text}
    (blank : context.cellIsBlank = context'.cellIsBlank ∨ context.cellIsBlank = false ∧
      (readPart nested offset context head rest).1.fillsCell = false) :
    readPart nested' offset' context' head rest = readPart nested offset context head rest := by
  have same := alike 0
  simp only [Nat.add_zero] at same
  generalize partEq : readPart nested offset context head rest = part at blank ⊢
  obtain ⟨kind, written⟩ := part
  rw [readPart_eq_iff] at partEq ⊢
  cases partEq with
  | comment isPercent => exact .comment isPercent
  | environment isBackslash found =>
      rw [found] at same
      obtain ⟨environment', found', stopEq⟩ := Option.map_eq_some_iff.mp same.symm
      dsimp only at stopEq
      rw [← stopEq]
      exact .environment isBackslash found'
  | control isBackslash unnested read =>
      rw [unnested] at same
      refine .control isBackslash (Option.map_eq_none_iff.mp same.symm) ?_
      rcases blank with sameBlank | ⟨-, empty⟩
      · have contexts : context' = context := by
          cases context
          cases context'
          simp_all
        rw [contexts, read]
      · have known := @isCommand_readControl context rest
        rw [read] at known
        obtain ⟨isCommand, outside⟩ := known empty
        rw [readControl_of_isCommand (by rw [read]; exact isCommand) (depth ▸ outside), read]
  | separator isAmpersand outside => exact .separator isAmpersand (depth ▸ outside)
  | space isBlank => exact .space isBlank
  | content noPercent noBackslash noSeparator noSpace =>
      exact .content noPercent noBackslash (depth ▸ noSeparator) noSpace

/-- The same text is cut into the same lexemes at another place. -/
theorem map_token_lex (text : Text) (alike : NestedAlike nested nested' offset offset')
    (depth : context.depth = context'.depth)
    (blank : context.cellIsBlank = context'.cellIsBlank ∨ context.cellIsBlank = false ∧
      StaysBlank (lex nested offset context text)) :
    (lex nested' offset' context' text).map Lexeme.token
      = (lex nested offset context text).map Lexeme.token := by
  fun_induction lex nested offset context text generalizing offset' context' with
  | case1 => rw [lex_nil]
  | case2 offset context head rest part =>
      rename_i lexeme ih
      have read : readPart nested' offset' context' head rest = part :=
        readPart_of_nestedAlike alike depth (blank.imp_right fun stays => ⟨stays.1, stays.2.1⟩)
      rw [lex_cons, read, List.map_cons, List.map_cons]
      refine congrArg _ (ih (alike.add _) ?_ ?_)
      · simp only [Context.after, depth]
      · rcases blank with same | ⟨filled, empty, ends | staysBlank⟩
        · refine Or.inl ?_
          simp only [Context.after, same]
        · refine Or.inl ?_
          rw [cellIsBlank_after empty, cellIsBlank_after empty, ends, Bool.true_or, Bool.true_or]
        · cases ends : part.1.endsCell with
          | true =>
              refine Or.inl ?_
              rw [cellIsBlank_after empty, cellIsBlank_after empty, ends, Bool.true_or,
                Bool.true_or]
          | false =>
              refine Or.inr ⟨?_, staysBlank⟩
              rw [cellIsBlank_after empty, ends, filled, Bool.or_false]

end Behind

section InFront

variable {nested nested' : List Span} {offset : Nat} {context context' : Context}
  {text rest rest' : Text} {lexemes lead : List Lexeme}

/-- Whether a text is read alike in front of two others: its last command does not reach into
them, and no merge in it waits for its arguments. -/
structure Undisturbed (front rest rest' : Text) : Prop where
  command : ∀ (written gap : Text) (kind : Kind), '\\' :: (written ++ gap) <:+ front →
    gap.IsSpace → kind.isCommand = true →
    readControl .start (written ++ (gap ++ rest)) = (kind, written) →
    readControl .start (written ++ (gap ++ rest')) = (kind, written)
  merge : ∀ behind : Text, '\\' :: behind <:+ front →
    controlName (behind ++ rest) = MergeText.name →
    (MergeText.read? ((behind ++ rest).drop MergeText.name.length)).isSome = true

theorem Undisturbed.of_isSuffix {front back : Text} (undisturbed : Undisturbed front rest rest')
    (isSuffix : back <:+ front) : Undisturbed back rest rest' where
  command written gap kind atEnd := undisturbed.command written gap kind (atEnd.trans isSuffix)
  merge behind atEnd := undisturbed.merge behind (atEnd.trans isSuffix)

/-- It can be checked for every control sequence in the text. -/
theorem Undisturbed.of_forall_tails {front : Text}
    (alike : ∀ tail ∈ front.tails, tail.head? = some '\\' →
      readControl .start (tail.tail ++ rest') = readControl .start (tail.tail ++ rest) ∧
        (controlName (tail.tail ++ rest) = MergeText.name →
          (MergeText.read? ((tail.tail ++ rest).drop MergeText.name.length)).isSome = true)) :
    Undisturbed front rest rest' where
  command written gap kind atEnd _ _ read := by
    have same := (alike _ ((List.mem_tails _ _).mpr atEnd) rfl).1
    rw [List.tail_cons, List.append_assoc, List.append_assoc] at same
    rw [same, read]
  merge behind atEnd := (alike _ ((List.mem_tails _ _).mpr atEnd) rfl).2

/-- White space changes nothing. -/
theorem Cuts.context_eq_of_isSpace (cuts : Cuts nested offset context text lexemes context' rest)
    (space : (textOf lexemes).IsSpace) : context' = context := by
  induction cuts with
  | nil => rfl
  | @cons offset context context' head tail behind rest kind lexemes read others ih =>
      have isSpaceHead := space head (by simp)
      rw [ih fun character member => space character (by simp [member])]
      obtain ⟨noOpening, noClosing⟩ : head ≠ '{' ∧ head ≠ '}' := by
        refine ⟨?_, ?_⟩ <;>
        · rintro rfl
          exact absurd isSpaceHead (by decide)
      obtain ⟨rfl, -⟩ := Prod.mk.inj (read.symm.trans (readPart_eq_iff.mpr (.space isSpaceHead)))
      simp [Context.after, noOpening, noClosing]

/-- A text that is not white space alone looks alike in front of two texts. -/
theorem alike_append {front : Text} (inked : ∃ character ∈ front, isSpace character = false)
    (closes : ∀ character, closesGroup character = true → character ∈ rest' → character ∈ rest) :
    Text.Alike (front ++ rest) (front ++ rest') := by
  obtain ⟨character, member, notSpace⟩ := inked
  obtain ⟨head, tail, rfl⟩ := List.exists_cons_of_ne_nil (List.ne_nil_of_mem member)
  obtain ⟨first, others, dropped⟩ :
      ∃ first others, (head :: tail).dropWhile isSpace = first :: others := by
    refine List.exists_cons_of_ne_nil fun nothing => ?_
    have allSpace := List.dropWhile_eq_nil_iff.mp nothing character member
    simp [notSpace] at allSpace
  refine ⟨rfl, ?_, fun close isClose isMember => ?_⟩
  · rw [List.dropWhile_append, List.dropWhile_append, dropped]
    rfl
  · rcases List.mem_append.mp isMember with inFront | behind
    · exact List.mem_append_left _ inFront
    · exact List.mem_append_right _ (closes close isClose behind)

theorem controlName_name (rest : Text)
    (within : controlName (MergeText.name ++ rest) <+: MergeText.name) :
    controlName (MergeText.name ++ rest) = MergeText.name := by
  have letters : ∀ character ∈ MergeText.name, Text.isLetter character = true :=
    List.all_eq_true.mp (by decide)
  have taken : (MergeText.name ++ rest).takeWhile Text.isLetter
      = MergeText.name ++ rest.takeWhile Text.isLetter := List.takeWhile_append_of_pos letters
  have named : controlName (MergeText.name ++ rest)
      = MergeText.name ++ rest.takeWhile Text.isLetter := by
    rw [controlName, taken]
    rfl
  rw [named] at within ⊢
  exact (within.eq_of_length_le (by simp))

/-- A control sequence stays as it is in front of a change. -/
theorem readControl_before_change {kind : Kind} {written : Text}
    (read : readControl context (written ++ (textOf lexemes ++ rest)) = (kind, written))
    (others : Cuts nested offset (context.after '\\' kind) text lexemes ⟨0, true⟩ rest)
    (nonempty : rest ≠ [])
    (closes : ∀ character, closesGroup character = true → character ∈ rest' → character ∈ rest)
    (undisturbed : Undisturbed ('\\' :: (written ++ textOf lexemes)) rest rest') :
    readControl context (written ++ (textOf lexemes ++ rest')) = (kind, written) := by
  by_cases space : (textOf lexemes).IsSpace
  · have final := others.context_eq_of_isSpace space
    obtain ⟨outside, blank⟩ := Context.mk.inj final
    have outside : context.depth = 0 := by simpa [Context.after] using outside.symm
    have isCommand : kind.isCommand = true := by
      have known := @isCommand_readControl context (written ++ (textOf lexemes ++ rest))
      rw [read] at known
      refine (known ?_).1
      cases kind <;> first | rfl | simp at blank
    have inStart := @readControl_of_isCommand context .start (written ++ (textOf lexemes ++ rest))
      (by rw [read]; exact isCommand) rfl
    rw [read] at inStart
    have again := undisturbed.command written (textOf lexemes) kind List.suffix_rfl space isCommand
      inStart
    have back := @readControl_of_isCommand .start context (written ++ (textOf lexemes ++ rest'))
      (by rw [again]; exact isCommand) outside
    rw [back, again]
  · have inked : ∃ character ∈ textOf lexemes, isSpace character = false := by
      simpa [Text.IsSpace] using space
    refine readControl_append read (by simp [nonempty]) (alike_append inked closes)
      fun isName lacks => ?_
    subst isName
    obtain ⟨taken, -, nameEq⟩ := readControl_eq_iff.mp read
    have within : controlName (MergeText.name ++ (textOf lexemes ++ rest)) <+: MergeText.name :=
      ⟨taken, nameEq.symm⟩
    have given := undisturbed.merge (MergeText.name ++ textOf lexemes) List.suffix_rfl (by
      rw [List.append_assoc]
      exact controlName_name _ within)
    rw [List.append_assoc, List.drop_left, lacks] at given
    simp at given

/-- Lexemes up to the front of a cell stay as they are in front of a change of the text behind
them. -/
theorem Cuts.before_change (cuts : Cuts nested offset context text lead context' rest)
    (final : context' = ⟨0, true⟩)
    (lookup : ∀ lexeme ∈ lead,
      nested'.find? (·.start == lexeme.start) = nested.find? (·.start == lexeme.start))
    (whole : ∀ lexeme ∈ lead, ∀ environment,
      nested.find? (·.start == lexeme.start) = some environment → environment.stop = lexeme.stop)
    (uncommented : '%' ∉ textOf lead) (nonempty : rest ≠ [])
    (closes : ∀ character, closesGroup character = true → character ∈ rest' → character ∈ rest)
    (undisturbed : Undisturbed (textOf lead) rest rest') :
    Cuts nested' offset context (textOf lead ++ rest') lead context' rest' := by
  induction cuts with
  | nil => exact .nil
  | @cons offset context context' head tail behind rest kind lexemes read others ih =>
      subst final
      have textEq := others.text_eq
      rw [textEq] at read
      have cutAgain := ih rfl (fun lexeme member => lookup lexeme (List.mem_cons_of_mem _ member))
        (fun lexeme member => whole lexeme (List.mem_cons_of_mem _ member))
        (fun member => uncommented (by simp [member])) nonempty closes
        (undisturbed.of_isSuffix (List.suffix_append _ _))
      have sameLookup := lookup _ List.mem_cons_self
      have wholeEnvironment := whole _ List.mem_cons_self
      rw [textOf_cons, List.append_assoc, List.cons_append]
      refine .cons ?_ cutAgain
      rw [readPart_eq_iff] at read ⊢
      generalize behindEq : tail ++ (textOf lexemes ++ rest) = behind at read
      cases read with
      | comment isPercent => exact absurd isPercent fun equal => uncommented (by simp [equal])
      | @environment environment isBackslash found =>
          have stop := wholeEnvironment environment found
          generalize behind.takeBytes (environment.stop - offset - 1) = tail at *
          subst isBackslash
          have width : '\\'.utf8Size = 1 := by decide
          have size : environment.stop - offset - 1 = tail.size := by
            simp only [Lexeme.stop, Text.size_cons, width] at stop
            omega
          have reads : ReadsAs nested' offset context '\\' (tail ++ (textOf lexemes ++ rest')) _ _ :=
            .environment rfl (sameLookup.trans found)
          rwa [size, Text.takeBytes_size_append] at reads
      | control isBackslash unnested read =>
          subst isBackslash behindEq
          exact .control rfl (sameLookup.trans unnested)
            (readControl_before_change read others nonempty closes (by simpa using undisturbed))
      | separator isAmpersand outside => exact .separator isAmpersand outside
      | space isBlank => exact .space isBlank
      | content noPercent noBackslash noSeparator noSpace =>
          exact .content noPercent noBackslash noSeparator noSpace

end InFront
end LatexTabular.Body
