import LatexTabular.Proofs.Body.Cutting
import LatexTabular.Proofs.Markup.Arguments
import LatexTabular.Proofs.Markup.Uncommented
import LatexTabular.Proofs.Text.WholeLine
import Mathlib.Data.List.Find

/-!
# A body without comments

A body without the text of its comments is cut into the same lexemes, each without the text of its
own comments (`lex_withoutComments`).  Comments are skipped where lexemes are cut, but not by the
readers of arguments, so none in an argument may have a character that these look for
(`CommentsUnmarked`).
-/

namespace LatexTabular.Body

open Markup

/-- A merge without the text of its comments. -/
def MergeText.uncommented (parts : MergeText) : MergeText :=
  { parts with
    number := withoutComments .nothing parts.number
    specifier := withoutComments .nothing parts.specifier
    content := withoutComments .nothing parts.content }

/-- What a part is without the text of its comments. -/
def Kind.uncommented : Kind → Kind
  | .merge parts => .merge parts.uncommented
  | kind => kind

/-- Behind a part the context does not depend on comments. -/
theorem after_uncommented (context : Context) (head : Char) (kind : Kind) :
    context.after head kind.uncommented = context.after head kind := by
  cases kind <;> rfl

/-- A lexeme without the text of its comments, where its start moves. -/
def Lexeme.uncommented (move : Nat → Nat) (lexeme : Lexeme) : Lexeme :=
  ⟨move lexeme.start, lexeme.kind.uncommented, withoutComments .nothing lexeme.text⟩

/-- The arguments of a command in front of a text, with those that a `\multicolumn` at the front of
a cell looks for in vain. -/
def Lexeme.arguments (context : Context) (lexeme : Lexeme) (behind : Text) : Text :=
  match lexeme.kind with
  | .rule | .terminator | .merge _ => lexeme.text
  | .content =>
      if lexeme.text = '\\' :: MergeText.name ∧ context = .start then requiredGroups 3 behind
      else []
  | _ => []

/-- The context behind a lexeme. -/
def Lexeme.contextBehind (context : Context) (lexeme : Lexeme) : Context :=
  match lexeme.text with
  | [] => context
  | head :: _ => context.after head lexeme.kind

/-- The characters that the readers of the arguments of a command look for. -/
def Kind.marks : Kind → Char → Bool
  | .terminator => closesOptional
  | .rule => isGroupMark
  | _ => isBrace

/-- Whether no comment in the arguments of a command has a character that their reader looks
for. -/
def CommentsUnmarked (context : Context) : List Lexeme → Prop
  | [] => True
  | lexeme :: rest =>
      Unmarked lexeme.kind.marks .nothing (lexeme.arguments context (textOf rest))
        ∧ CommentsUnmarked (lexeme.contextBehind context) rest

/-- Comments without marks can be told from the lexemes. -/
instance decidableCommentsUnmarked :
    (context : Context) → (lexemes : List Lexeme) → Decidable (CommentsUnmarked context lexemes)
  | _, [] => isTrue trivial
  | context, lexeme :: rest =>
      have := decidableCommentsUnmarked (lexeme.contextBehind context) rest
      inferInstanceAs (Decidable (_ ∧ _))

section Merges

variable {text gap content rest : Text}

/-- Comments are cut from a text that has one, but not their percent signs. -/
theorem mem_percent_withoutComments {reach : Reach} (open' : reach ≠ .comment)
    (member : '%' ∈ text) : '%' ∈ withoutComments reach text := by
  induction text generalizing reach with
  | nil => exact member
  | cons head rest ih =>
      rw [withoutComments_cons (Reach.hides_eq_false open' head)]
      by_cases isPercent : head = '%'
      · exact isPercent ▸ List.mem_cons_self
      · have inRest := (List.mem_cons.mp member).resolve_left (Ne.symm isPercent)
        exact List.mem_cons_of_mem _ (ih (Reach.after_ne_comment open' isPercent) inRest)

/-- A text with a percent sign is no numeral. -/
theorem number?_trim_of_mem_percent (member : '%' ∈ text) :
    Text.number? (Text.trim text) = none := by
  have kept : '%' ∈ Text.trim text := by
    have inInk : '%' ∈ Text.ink text := List.mem_filter.mpr ⟨member, by decide⟩
    rw [← Text.ink_trim] at inInk
    exact (List.mem_filter.mp inInk).1
  have noDigits {digits : Text} (inDigits : '%' ∈ digits) : Text.digits? digits = none := by
    refine if_neg fun isNumeral => ?_
    simp only [Bool.and_eq_true] at isNumeral
    exact absurd (List.all_eq_true.mp isNumeral.1.2 _ inDigits) (by decide)
  unfold Text.number?
  split
  next digits eq =>
    rw [eq] at kept
    exact noDigits ((List.mem_cons.mp kept).resolve_left (by decide))
  next => exact noDigits kept

theorem number?_trim_withoutComments (text : Text) :
    Text.number? (Text.trim (withoutComments .nothing text)) = Text.number? (Text.trim text) := by
  by_cases member : '%' ∈ text
  · rw [number?_trim_of_mem_percent member,
      number?_trim_of_mem_percent (mem_percent_withoutComments (by simp) member)]
  · rw [withoutComments_of_notMem (by simp) member]

/-- A group is found where its comments are cut. -/
theorem spacedGroup?_withoutComments {count : Nat}
    (found : spacedGroup? text = some (gap, content, rest))
    (unmarked : Unmarked isBrace .nothing (requiredGroups (count + 1) text)) :
    spacedGroup? (withoutComments .nothing text)
        = some (gap, withoutComments .nothing content, withoutComments .nothing rest) ∧
      Unmarked isBrace .nothing (requiredGroups count rest) := by
  obtain ⟨space, closed, rfl⟩ := spacedGroup?_eq_some_iff.mp found
  rw [requiredGroups_succ rest space closed] at unmarked
  obtain ⟨first, others⟩ := (unmarked_group space).mp unmarked
  obtain ⟨nothing, cut, again⟩ := withoutComments_closed closed first
  rw [nothing] at others
  rw [(withoutComments_opening space).1, cut]
  exact ⟨spacedGroup?_eq_some_iff.mpr ⟨space, again _, rfl⟩, others⟩

/-- Where no group is found, none is found where comments are cut. -/
theorem spacedGroup?_withoutComments_of_none {count : Nat} (unfound : spacedGroup? text = none)
    (unmarked : Unmarked isBrace .nothing (requiredGroups (count + 1) text)) :
    spacedGroup? (withoutComments .nothing text) = none := by
  rcases groupAtFront_cases text with
    ⟨gap, content, rest, space, closed, rfl⟩ | ⟨gap, inside, space, unclosed, rfl⟩ | unopened
  · rw [spacedGroup?_eq_some_iff.mpr ⟨space, closed, rfl⟩] at unfound
    simp at unfound
  · rw [requiredGroups_of_unclosed space unclosed] at unmarked
    have unclosed' := @untilClosed?_withoutComments _ _ 0 (by simp)
      (((withoutComments_opening space).2 inside).mp unmarked)
    rw [unclosed, Option.map_none] at unclosed'
    have opened := (spaces_append (withoutComments .nothing inside) space
      (show isSpace '{' = false by decide)).2
    simp [spacedGroup?, (withoutComments_opening space).1, drop_spaces, opened, braceGroup?,
      unclosed']
  · have unopened' := unopened_withoutComments unopened
    have noGroup : braceGroup? ((withoutComments .nothing text).dropWhile isSpace) = none := by
      unfold braceGroup?
      split
      next eq => exact absurd (by rw [eq]; rfl) unopened'
      next => rfl
    simp [spacedGroup?, drop_spaces, noGroup]

/-- A merge is read where the comments of its arguments are cut. -/
theorem read?_withoutComments (unmarked : Unmarked isBrace .nothing (requiredGroups 3 text)) :
    MergeText.read? (withoutComments .nothing text)
      = (MergeText.read? text).map MergeText.uncommented := by
  simp only [MergeText.read?, Option.bind_eq_bind]
  cases first : spacedGroup? text with
  | none => simp [spacedGroup?_withoutComments_of_none first unmarked]
  | some found =>
      obtain ⟨numberGap, number, afterNumber⟩ := found
      obtain ⟨first', unmarked⟩ := spacedGroup?_withoutComments first unmarked
      simp only [first', Option.bind_some]
      cases second : spacedGroup? afterNumber with
      | none => simp [spacedGroup?_withoutComments_of_none second unmarked]
      | some found =>
          obtain ⟨specifierGap, specifier, afterSpecifier⟩ := found
          obtain ⟨second', unmarked⟩ := spacedGroup?_withoutComments second unmarked
          simp only [second', Option.bind_some]
          cases third : spacedGroup? afterSpecifier with
          | none => simp [spacedGroup?_withoutComments_of_none third unmarked]
          | some found =>
              obtain ⟨contentGap, content, afterContent⟩ := found
              obtain ⟨third', -⟩ := spacedGroup?_withoutComments third unmarked
              simp only [third', Option.bind_some, number?_trim_withoutComments]
              cases Text.number? (Text.trim number) <;> rfl

/-- The arguments of a merge are the three groups behind its name. -/
theorem requiredGroups_of_read? {parts : MergeText} (found : MergeText.read? text = some parts) :
    requiredGroups 3 text = parts.argumentsText := by
  obtain ⟨isRead, rest, rfl⟩ := read?_eq_some_iff.mp found
  simp only [MergeText.argumentsText, List.append_assoc, List.cons_append, List.nil_append]
  rw [requiredGroups_succ _ isRead.numberGap (isRead.number _),
    requiredGroups_succ _ isRead.specifierGap (isRead.specifier _),
    requiredGroups_succ _ isRead.contentGap (isRead.content _)]
  rfl

/-- The arguments of a merge end with a brace. -/
theorem MergeText.marks_of_getLast? (parts : MergeText) :
    ∀ last ∈ parts.argumentsText.getLast?, isBrace last = true ∧ isGroupMark last = true := by
  obtain ⟨front, textEq⟩ : ∃ front, parts.argumentsText = front ++ ['}'] :=
    ⟨parts.numberGap ++ '{' :: (parts.number ++ '}' :: (parts.specifierGap ++ '{' ::
      (parts.specifier ++ '}' :: (parts.contentGap ++ '{' :: parts.content)))),
      by simp [argumentsText]⟩
  intro last isLast
  rw [textEq, List.getLast?_concat] at isLast
  obtain rfl := Option.some.inj isLast
  exact ⟨rfl, rfl⟩

/-- A merge that is read keeps its arguments where their comments are cut, and leaves nothing
open. -/
theorem exists_merge_withoutComments {parts : MergeText} (found : MergeText.read? text = some parts)
    (unmarked : Unmarked isBrace .nothing parts.argumentsText) :
    MergeText.read? (withoutComments .nothing text) = some parts.uncommented ∧
      parts.uncommented.argumentsText = withoutComments .nothing parts.argumentsText ∧
      Reach.nothing.behind parts.argumentsText = .nothing := by
  have groups := requiredGroups_of_read? found
  rw [← groups] at unmarked
  have again := read?_withoutComments unmarked
  have textEq := requiredGroups_withoutComments unmarked
  rw [found, Option.map_some] at again
  rw [requiredGroups_of_read? again, groups] at textEq
  rw [groups] at unmarked
  exact ⟨again, textEq, unmarked.behind_eq_nothing parts.marks_of_getLast?⟩

end Merges

section Controls

variable {context : Context} {text : Text}

/-- Behind the name of a control sequence nothing is open. -/
theorem behind_controlName (nonempty : text ≠ []) :
    Reach.backslash.behind (controlName text) = .nothing := by
  rcases controlName_cases nonempty with
    ⟨head, rest, -, -, named⟩ | ⟨name, rest, -, notNil, letters, -, named⟩
  · rw [named]
    rfl
  · have isLetter : ∀ letter ∈ name, Text.isLetter letter = true := List.all_eq_true.mp letters
    rw [named]
    refine Reach.behind_eq_nothing (List.getLast?_eq_some_getLast notNil) (fun isBackslash => ?_)
      (Reach.behind_ne_comment (by simp) fun member => absurd (isLetter _ member) (by decide))
    have lastLetter := isLetter _ (List.getLast_mem notNil)
    rw [isBackslash] at lastLetter
    exact absurd lastLetter (by decide)

/-- The name of a control sequence is no comment. -/
theorem withoutComments_controlName (text : Text) :
    withoutComments .backslash (controlName text) = controlName text := by
  cases text with
  | nil => rfl
  | cons head rest =>
      rcases @controlName_cases (head :: rest) (List.cons_ne_nil _ _) with
        ⟨head, rest, -, -, named⟩ | ⟨name, rest, -, -, letters, -, named⟩
      · rw [named]
        rfl
      · rw [named]
        refine withoutComments_of_notMem (by simp) fun member => ?_
        exact absurd (List.all_eq_true.mp letters _ member) (by decide)

/-- A control sequence in front of what is behind its name. -/
theorem withoutComments_control (text : Text) :
    withoutComments .backslash text
      = controlName text ++ withoutComments .nothing (text.drop (controlName text).length) := by
  have whole : controlName text ++ text.drop (controlName text).length = text :=
    List.prefix_iff_eq_append.mp (controlName_isPrefix text)
  by_cases empty : text = []
  · subst empty
    rfl
  · conv => lhs; rw [← whole, withoutComments_append, behind_controlName empty,
      withoutComments_controlName]

/-- Control sequences keep their names where comments are cut. -/
theorem controlName_withoutComments (text : Text) :
    controlName (withoutComments .backslash text) = controlName text := by
  cases text with
  | nil => rfl
  | cons head rest =>
      rcases @controlName_cases (head :: rest) (List.cons_ne_nil _ _) with
        ⟨first, others, textEq, noLetter, named⟩ |
        ⟨name, others, textEq, notNil, letters, ends, named⟩
      · obtain ⟨rfl, rfl⟩ := List.cons.inj textEq
        rw [named, withoutComments_cons rfl]
        simp [controlName, noLetter]
      · rw [withoutComments_control, named, textEq, List.drop_left]
        refine controlName_of_letters notNil letters fun character isHead => ends character ?_
        rwa [head?_withoutComments (by simp)] at isHead

/-- The arguments of a control sequence follow its name, behind which nothing is open. -/
theorem withoutComments_controlName_append (nonempty : text ≠ []) (groups : Text) :
    withoutComments .backslash (controlName text ++ groups)
        = controlName text ++ withoutComments .nothing groups ∧
      Reach.backslash.behind (controlName text ++ groups) = Reach.nothing.behind groups ∧
      ∀ marks, Unmarked marks .nothing ('\\' :: (controlName text ++ groups)) →
        Unmarked marks .nothing groups := by
  have named := behind_controlName nonempty
  rw [withoutComments_append, Reach.behind_append, named, withoutComments_controlName]
  refine ⟨rfl, rfl, fun marks unmarked => ?_⟩
  have others := (unmarked_append.mp unmarked.tail).2
  rwa [show Reach.nothing.after '\\' = .backslash from rfl, named] at others

/-- A backslash at the end of a text is content. -/
theorem readControl_nil (context : Context) : readControl context [] = (.content, []) :=
  readControl_eq_iff.mpr ⟨[], .plain (by decide) (by decide) fun isMerge =>
    absurd isMerge (by decide), rfl⟩

/-- A control sequence takes what it took where the comments of its arguments are cut.  They leave
nothing open unless they take the whole text. -/
theorem Takes.uncommented {name after taken : Text} {kind : Kind}
    (takes : Takes context name after kind taken) (unmarked : Unmarked kind.marks .nothing taken)
    (lacking : kind = .content → name = MergeText.name → context = .start →
      Unmarked isBrace .nothing (requiredGroups 3 after)) :
    Takes context name (withoutComments .nothing after) kind.uncommented
        (withoutComments .nothing taken) ∧
      (taken = after ∨ Reach.nothing.behind taken = .nothing) := by
  cases takes with
  | grouped inGroup => exact ⟨.grouped inGroup, .inr rfl⟩
  | terminator outside isTerminator =>
      have takes : Takes context name (withoutComments .nothing after) .terminator _ :=
        .terminator outside isTerminator
      rw [optionalGroup?_withoutComments unmarked] at takes
      cases found : optionalGroup? after with
      | none =>
          rw [found] at takes
          exact ⟨takes, .inr rfl⟩
      | some group =>
          rw [found] at takes unmarked
          exact ⟨takes, .inr (Unmarked.behind_optionalGroup unmarked found)⟩
  | @rule required outside isRule =>
      have takes : Takes context name (withoutComments .nothing after) .rule _ :=
        .rule outside isRule
      rw [arguments_withoutComments unmarked] at takes
      exact ⟨takes, (arguments_eq_or_closes required after).imp_right unmarked.behind_of_closes⟩
  | merge outside isMerge blank found =>
      obtain ⟨again, textEq, nothing⟩ := exists_merge_withoutComments found unmarked
      exact ⟨textEq ▸ .merge outside isMerge blank again, .inr nothing⟩
  | lacking outside isMerge blank missing =>
      have atStart : context = .start := by rw [Context.start, ← outside, ← blank]
      have again := read?_withoutComments (lacking rfl isMerge atStart)
      rw [missing, Option.map_none] at again
      exact ⟨.lacking outside isMerge blank again, .inr rfl⟩
  | plain noTerminator noRule noMerge => exact ⟨.plain noTerminator noRule noMerge, .inr rfl⟩

/-- A control sequence is read as it was where the comments of its arguments are cut. -/
theorem readControl_withoutComments {offset : Nat} {kind : Kind} {written : Text}
    (nonempty : text ≠ []) (read : readControl context text = (kind, written))
    (unmarked : Unmarked kind.marks .nothing
      (Lexeme.arguments context ⟨offset, kind, '\\' :: written⟩ (text.drop written.length))) :
    readControl context (withoutComments .backslash text)
        = (kind.uncommented, withoutComments .backslash written) ∧
      (text.drop written.length = [] ∨ Reach.backslash.behind written = .nothing) := by
  obtain ⟨taken, takes, rfl⟩ := readControl_eq_iff.mp read
  obtain ⟨cutTaken, behindTaken, toTaken⟩ := withoutComments_controlName_append nonempty taken
  have ofContent : kind = .content → taken = [] := by
    rintro rfl
    cases takes <;> rfl
  have own : Unmarked kind.marks .nothing taken := by
    by_cases isContent : kind = .content
    · rw [ofContent isContent]
      exact unmarked_nil
    · refine toTaken _ ?_
      cases takes with
      | terminator | rule | merge => exact unmarked
      | grouped | lacking | plain => exact absurd rfl isContent
  obtain ⟨again, ends⟩ := takes.uncommented own fun isContent isMerge atStart => by
    simpa [Lexeme.arguments, Kind.marks, isContent, isMerge, atStart, ofContent isContent]
      using unmarked
  refine ⟨?_, ?_⟩
  · rw [readControl_eq_iff, controlName_withoutComments, withoutComments_control, List.drop_left]
    exact ⟨_, again, cutTaken⟩
  · rw [behindTaken, List.length_append, ← List.drop_drop]
    exact ends.imp_left fun takesAll => by rw [← takesAll, List.drop_length]

end Controls

section Lexing

variable {nested : List Span} {start offset : Nat} {context : Context} {head : Char}
  {body front text rest : Text} {move : Nat → Nat}

/-- Whether a text begins outside comments or with the end of a line. -/
def StartsOpen (reach : Reach) (text : Text) : Prop :=
  reach = .nothing ∨ ∀ head ∈ text.head?, head = '\n'

/-- What is cut from such a text does not depend on what is in front of it. -/
theorem StartsOpen.withoutComments_eq {reach : Reach} (starts : StartsOpen reach text) :
    withoutComments reach text = withoutComments .nothing text := by
  rcases starts with rfl | newline
  · rfl
  cases text with
  | nil => rfl
  | cons head rest =>
      obtain rfl := newline head rfl
      have shown (reach : Reach) : reach.hides '\n' = false := by simp [Reach.hides]
      rw [withoutComments_cons (shown _), withoutComments_cons (shown _), Reach.after_newline,
        Reach.after_newline]

theorem StartsOpen.behind_eq {reach : Reach} (starts : StartsOpen reach (head :: rest))
    (written : Text) : reach.behind (head :: written) = Reach.nothing.behind (head :: written) := by
  rcases starts with rfl | newline
  · rfl
  · obtain rfl := newline head rfl
    rw [Reach.behind_cons, Reach.behind_cons, Reach.after_newline, Reach.after_newline]

/-- The text of a comment is cut as a whole. -/
theorem withoutComments_line {line : Text} (unbroken : '\n' ∉ line) :
    withoutComments .comment line = [] ∧ Reach.comment.behind line = .comment := by
  induction line with
  | nil => exact ⟨rfl, rfl⟩
  | cons head rest ih =>
      rw [List.mem_cons, not_or] at unbroken
      have hidden : Reach.hides .comment head = true := by
        simp [Reach.hides, Ne.symm unbroken.1]
      rw [withoutComments_cons_of_hides hidden, Reach.behind_cons, (Reach.after_of_hides hidden).2]
      exact ih unbroken.2

/-- Different places outside comments stay different. -/
theorem size_withoutComments_inj {left right left' right' : Text}
    (textEq : left ++ right = left' ++ right')
    (open' : Reach.nothing.behind left ≠ .comment)
    (open'' : Reach.nothing.behind left' ≠ .comment) :
    (withoutComments .nothing left).size = (withoutComments .nothing left').size
      ↔ left.size = left'.size := by
  refine ⟨fun same => ?_, fun same => by rw [(Text.eq_of_append_eq_of_size_eq textEq same).1]⟩
  rcases List.append_eq_append_iff.mp textEq with ⟨middle, rfl, -⟩ | ⟨middle, rfl, -⟩
  · by_cases empty : middle = []
    · rw [empty, List.append_nil]
    · exact absurd same (size_withoutComments_lt open' empty).ne
  · by_cases empty : middle = []
    · rw [empty, List.append_nil]
    · exact absurd same (size_withoutComments_lt open'' empty).ne'

/-- Cutting the comment at the front of a text leaves the line break behind it. -/
theorem firstLine_withoutComments (text : Text) :
    Text.firstLine (withoutComments .comment text)
        = withoutComments .comment (Text.firstLine text) ∧
      ∀ next ∈ (text.drop (Text.firstLine text).length).head?, next = '\n' := by
  obtain ⟨after, textEq, unbroken, newline⟩ := Text.exists_eq_firstLine_append text
  generalize Text.firstLine text = line at *
  subst textEq
  obtain ⟨cutLine, stays⟩ := withoutComments_line unbroken
  have cut : withoutComments .comment (line ++ after) = withoutComments .nothing after := by
    rw [withoutComments_append, cutLine, stays]
    exact (show StartsOpen .comment after from .inr newline).withoutComments_eq
  have lineEnds : Text.firstLine (withoutComments .nothing after) = [] := by
    cases after with
    | nil => rfl
    | cons next others =>
        obtain rfl := newline next rfl
        rfl
  rw [cut, cutLine, lineEnds, List.drop_left]
  exact ⟨rfl, newline⟩

section Nested

variable
  (moves : ∀ front back, body = front ++ back →
    move (start + front.size) = start + (withoutComments .nothing front).size)
  (outside : ∀ span ∈ nested, span.Uncommented start body)

include moves

/-- An environment outside comments is taken as a whole where comments are cut. -/
theorem takeBytes_moved {environment : Span} (uncommented : environment.Uncommented start body)
    (bodyEq : body = front ++ '\\' :: rest) (atPlace : environment.start = start + front.size)
    (nothing : Reach.nothing.behind front = .nothing) :
    (withoutComments .backslash rest).takeBytes
          ((environment.moved move).stop - move (start + front.size) - 1)
        = withoutComments .backslash
          (rest.takeBytes (environment.stop - (start + front.size) - 1)) ∧
      Reach.backslash.behind (rest.takeBytes (environment.stop - (start + front.size) - 1))
        = .nothing := by
  obtain ⟨lead, inner, others, bodyEq', rfl, isFirst, -, closes⟩ := uncommented
  obtain ⟨rfl, innerEq⟩ := Text.eq_of_append_eq_of_size_eq (bodyEq'.symm.trans bodyEq)
    (Nat.add_left_cancel atPlace)
  obtain ⟨inside, rfl⟩ := List.head?_eq_some_iff.mp isFirst
  obtain rfl : inside ++ others = rest := (List.cons.inj innerEq).2
  have opened : Reach.nothing.after '\\' = .backslash := rfl
  have width : '\\'.utf8Size = 1 := by decide
  have cut : withoutComments .nothing (lead ++ '\\' :: inside)
      = withoutComments .nothing lead ++ '\\' :: withoutComments .backslash inside := by
    rw [withoutComments_append, nothing, withoutComments_cons rfl, opened]
  have length : start + Text.size (lead ++ '\\' :: inside) - (start + lead.size) - 1
      = Text.size inside := by
    rw [Text.size_append, Text.size_cons, width]
    omega
  have stopMoved := moves (lead ++ '\\' :: inside) others (by rw [bodyEq']; simp)
  have length' : move (start + Text.size (lead ++ '\\' :: inside)) - move (start + lead.size) - 1
      = (withoutComments .backslash inside).size := by
    rw [stopMoved, moves _ _ bodyEq, cut, Text.size_append, Text.size_cons, width]
    omega
  have stays : Reach.backslash.behind inside = .nothing := by
    rwa [Reach.behind_append, nothing, Reach.behind_cons, opened] at closes
  dsimp only [Span.moved]
  rw [length, length', withoutComments_append, Text.takeBytes_size_append,
    Text.takeBytes_size_append]
  exact ⟨rfl, stays⟩

include outside

/-- An environment outside comments is found where its start has moved. -/
theorem find?_moved (bodyEq : body = front ++ text)
    (open' : Reach.nothing.behind front ≠ .comment) :
    (nested.map (Span.moved move)).find? (·.start == move (start + front.size))
      = (nested.find? (·.start == start + front.size)).map (Span.moved move) := by
  rw [List.find?_map]
  congr 1
  refine List.find?_congr fun span member => ?_
  obtain ⟨lead, inner, rest, bodyEq', rfl, -, openLead, -⟩ := outside span member
  have same := size_withoutComments_inj (bodyEq'.symm.trans bodyEq) openLead open'
  simp only [Function.comp, Span.moved, moves _ _ bodyEq', moves _ _ bodyEq]
  rw [Bool.eq_iff_iff, beq_iff_eq, beq_iff_eq, Nat.add_left_cancel_iff, Nat.add_left_cancel_iff,
    same]

/-- What is read at a place is read where comments are cut, without its own ones. -/
theorem readPart_withoutComments {kind : Kind} {written : Text}
    (bodyEq : body = front ++ head :: rest) (offsetEq : offset = start + front.size)
    (starts : StartsOpen (Reach.nothing.behind front) (head :: rest))
    (read : readPart nested offset context head rest = (kind, written))
    (unmarked : Unmarked kind.marks .nothing
      (Lexeme.arguments context ⟨offset, kind, head :: written⟩ (rest.drop written.length))) :
    readPart (nested.map (Span.moved move)) (move offset) context head
          (withoutComments (Reach.nothing.after head) rest)
        = (kind.uncommented, withoutComments (Reach.nothing.after head) written) ∧
      StartsOpen (Reach.nothing.behind (head :: written)) (rest.drop written.length) := by
  subst offsetEq
  rw [readPart_eq_iff] at read ⊢
  have nothingInFront (isBackslash : head = '\\') : Reach.nothing.behind front = .nothing :=
    starts.resolve_right fun newline => absurd (newline head rfl) (by rw [isBackslash]; decide)
  cases read with
  | comment isPercent =>
      subst isPercent
      obtain ⟨cut, behind⟩ := firstLine_withoutComments rest
      exact ⟨cut ▸ .comment rfl, .inr behind⟩
  | @environment environment isBackslash found =>
      have nothing := nothingInFront isBackslash
      subst isBackslash
      have atPlace : environment.start = start + front.size := by
        simpa using List.find?_some found
      obtain ⟨cut, stays⟩ := takeBytes_moved moves
        (outside environment (List.mem_of_find?_eq_some found)) bodyEq atPlace nothing
      have moved := find?_moved moves outside bodyEq (by simp [nothing])
      rw [found, Option.map_some] at moved
      exact ⟨cut ▸ .environment rfl moved, .inl stays⟩
  | control isBackslash unnested ofControl =>
      have nothing := nothingInFront isBackslash
      subst isBackslash
      have opened : Reach.nothing.after '\\' = .backslash := rfl
      have moved := find?_moved moves outside bodyEq (by simp [nothing])
      rw [unnested, Option.map_none] at moved
      by_cases nonempty : rest = []
      · subst nonempty
        rw [readControl_nil] at ofControl
        obtain ⟨rfl, rfl⟩ := Prod.mk.inj ofControl
        exact ⟨.control rfl moved (readControl_nil context), .inr (by simp)⟩
      · obtain ⟨again, ends⟩ := readControl_withoutComments nonempty ofControl unmarked
        refine ⟨.control rfl moved again, ends.symm.imp_right fun nothingBehind => ?_⟩
        rw [nothingBehind]
        simp
  | separator isAmpersand depth =>
      subst isAmpersand
      exact ⟨.separator rfl depth, .inl rfl⟩
  | space isBlank =>
      have noMark : head ≠ '\\' ∧ head ≠ '%' := by
        refine ⟨?_, ?_⟩ <;>
        · rintro rfl
          exact absurd isBlank (by decide)
      exact ⟨.space isBlank, .inl (Reach.after_nothing noMark.1 noMark.2)⟩
  | content noPercent noBackslash noSeparator noSpace =>
      exact ⟨.content noPercent noBackslash noSeparator noSpace,
        .inl (Reach.after_nothing noBackslash noPercent)⟩

/-- A body without the text of its comments is cut into the same lexemes without theirs. -/
theorem lex_withoutComments (bodyEq : body = front ++ text) (offsetEq : offset = start + front.size)
    (starts : StartsOpen (Reach.nothing.behind front) text)
    (unmarked : CommentsUnmarked context (lex nested offset context text)) :
    lex (nested.map (Span.moved move)) (move offset) context (withoutComments .nothing text)
      = (lex nested offset context text).map (Lexeme.uncommented move) := by
  induction lengthEq : text.length using Nat.strong_induction_on
    generalizing offset context front text with
  | _ length ih =>
      cases text with
      | nil => simp
      | cons head rest =>
          rw [lex_cons] at unmarked ⊢
          obtain ⟨others, restEq⟩ := readPart_isPrefix nested offset context head rest
          generalize partEq : readPart nested offset context head rest = part at *
          obtain ⟨kind, written⟩ := part
          dsimp only at unmarked restEq ⊢
          obtain ⟨own, unmarkedOthers⟩ := unmarked
          rw [textOf, flatMap_text_lex] at own
          obtain ⟨again, startsOthers⟩ :=
            readPart_withoutComments moves outside bodyEq offsetEq starts partEq own
          subst restEq
          rw [List.drop_left] at startsOthers unmarkedOthers ⊢
          have behind := starts.behind_eq written
          have others' := @ih others.length (by
              rw [← lengthEq, List.length_cons, List.length_append]
              omega) (offset + Text.size (head :: written)) (context.after head kind)
            (front ++ head :: written) others (by rw [bodyEq]; simp)
            (by rw [offsetEq, Text.size_append, Nat.add_assoc])
            (by rwa [Reach.behind_append, behind]) unmarkedOthers rfl
          have own' : withoutComments (Reach.nothing.behind front) (head :: written)
              = head :: withoutComments (Reach.nothing.after head) written := by
            rw [(show StartsOpen _ (head :: written) from starts).withoutComments_eq,
              withoutComments_cons rfl]
          have stopMoved : move (offset + Text.size (head :: written)) = move offset
              + Text.size (head :: withoutComments (Reach.nothing.after head) written) := by
            have atStop := moves (front ++ head :: written) others (by rw [bodyEq]; simp)
            rw [withoutComments_append, own', Text.size_append, Text.size_append] at atStop
            rw [offsetEq, moves _ _ bodyEq, Nat.add_assoc, atStop, Nat.add_assoc]
          have cut : withoutComments (Reach.nothing.after head) (written ++ others)
              = withoutComments (Reach.nothing.after head) written
                ++ withoutComments .nothing others := by
            rw [withoutComments_append, ← startsOthers.withoutComments_eq, Reach.behind_cons]
          rw [withoutComments_cons rfl, lex_cons, again]
          dsimp only
          rw [cut, List.drop_left, List.map_cons]
          refine congrArg₂ List.cons rfl ?_
          dsimp only [Lexeme.stop]
          rw [← stopMoved, after_uncommented]
          exact others'

end Nested

end Lexing

end LatexTabular.Body
