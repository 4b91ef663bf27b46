import LatexTabular.Body.Lexeme
import LatexTabular.Proofs.Markup.Group
import Mathlib.Data.List.TakeWhile

/-!
# How far arguments look ahead

What the readers of groups and arguments take from the front of a text does not depend on what
stands behind it, as long as that begins alike and closes no further optional group
(`Text.Alike`).
-/

namespace LatexTabular

namespace Text

/-- Texts that look alike to a command in front of them: they begin with the same character, also
behind white space, and the second one closes no optional group that the first one leaves open. -/
structure Alike (left right : Text) : Prop where
  head : left.head? = right.head?
  inked : (left.dropWhile Markup.isSpace).head? = (right.dropWhile Markup.isSpace).head?
  closes : ∀ character, Markup.closesGroup character = true → character ∈ right →
    character ∈ left

end Text

namespace Markup

theorem untilClosed?_cons_ordinary {depth : Nat} {head : Char} (text : Text)
    (noBackslash : head ≠ '\\') (noOpening : head ≠ '{') (noClosing : head ≠ '}') :
    untilClosed? depth (head :: text) = (untilClosed? depth text).map (head :: ·) := by
  rw [untilClosed?.eq_def]
  split <;> simp_all

/-- The content of a group and its closing brace are all that is needed to find it. -/
theorem untilClosed?_behind {depth : Nat} {text content : Text}
    (closed : untilClosed? depth text = some content) (rest : Text) :
    untilClosed? depth (content ++ '}' :: rest) = some content := by
  fun_induction untilClosed? depth text generalizing content with
  | case1 => simp at closed
  | case2 depth hidden text ih =>
      obtain ⟨inner, found, rfl⟩ := Option.map_eq_some_iff.mp closed
      simp [untilClosed?, ih found]
  | case3 depth text ih =>
      obtain ⟨inner, found, rfl⟩ := Option.map_eq_some_iff.mp closed
      simp [untilClosed?, ih found]
  | case4 text =>
      obtain rfl := Option.some.inj closed
      simp [untilClosed?]
  | case5 depth text ih =>
      obtain ⟨inner, found, rfl⟩ := Option.map_eq_some_iff.mp closed
      simp [untilClosed?, ih found]
  | case6 depth other text noPair noOpening noClosing noOuter ih =>
      obtain ⟨inner, found, rfl⟩ := Option.map_eq_some_iff.mp closed
      rw [List.cons_append, untilClosed?, ih found]
      · rfl
      · rintro hidden others rfl textEq
        cases text with
        | nil => simp [untilClosed?] at found
        | cons next text => exact noPair next text rfl rfl
      · exact noOpening
      · exact noClosing
      · exact noOuter

/-- The content of a closed group does not depend on what follows. -/
theorem untilClosed?_append {depth : Nat} {text content : Text} (rest : Text)
    (closed : untilClosed? depth text = some content) :
    untilClosed? depth (text ++ rest) = some content := by
  obtain ⟨behind, rfl⟩ := untilClosed?_isPrefix closed
  rw [List.append_assoc, List.append_assoc]
  exact untilClosed?_behind closed _

theorem through?_eq_none_iff {close : Char} {text : Text} :
    through? close text = none ↔ close ∉ text := by
  induction text with
  | nil => simp [through?]
  | cons head rest ih =>
      by_cases isClose : head = close
      · simp [through?, isClose]
      · simp [through?, isClose, Ne.symm isClose, ih]

theorem through?_behind {close : Char} {text group : Text}
    (found : through? close text = some group) (rest : Text) :
    through? close (group ++ rest) = some group := by
  fun_induction through? close text generalizing group with
  | case1 => simp at found
  | case2 others =>
      obtain rfl := Option.some.inj found
      simp [through?]
  | case3 head others notClose ih =>
      obtain ⟨inner, closed, rfl⟩ := Option.map_eq_some_iff.mp found
      simp [through?, notClose, ih closed]

/-- Whether a character opens an optional group that a text closes. -/
def OpensGroup (head : Char) (text : Text) : Prop :=
  head = '[' ∧ ']' ∈ text ∨ head = '(' ∧ ')' ∈ text

instance (head : Char) (text : Text) : Decidable (OpensGroup head text) :=
  inferInstanceAs (Decidable (_ ∨ _))

theorem optionalGroup?_cons_eq_none_iff {head : Char} {rest : Text} :
    optionalGroup? (head :: rest) = none ↔ ¬ OpensGroup head (head :: rest) := by
  by_cases isSquare : head = '['
  · subst isSquare
    simp [optionalGroup?, OpensGroup, through?_eq_none_iff]
  by_cases isRound : head = '('
  · subst isRound
    simp [optionalGroup?, OpensGroup, through?_eq_none_iff]
  have none : optionalGroup? (head :: rest) = none := by
    unfold optionalGroup?
    split <;> simp_all
  simp [none, OpensGroup, isSquare, isRound]

theorem optionalGroup?_behind {text group : Text} (found : optionalGroup? text = some group)
    (rest : Text) : optionalGroup? (group ++ rest) = some group := by
  unfold optionalGroup? at found
  split at found
  · obtain ⟨inner, closed, rfl⟩ := Option.map_eq_some_iff.mp found
    simp [optionalGroup?, through?_behind closed]
  · obtain ⟨inner, closed, rfl⟩ := Option.map_eq_some_iff.mp found
    simp [optionalGroup?, through?_behind closed]
  · simp at found

/-- Where no optional group stands, none stands in a text that looks alike. -/
theorem optionalGroup?_eq_none_of_alike {left right : Text} (alike : left.Alike right)
    (unread : optionalGroup? left = none) : optionalGroup? right = none := by
  cases right with
  | nil => rfl
  | cons head rest =>
      obtain ⟨others, rfl⟩ : ∃ others, left = head :: others :=
        List.head?_eq_some_iff.mp alike.head
      have square := alike.closes ']' (by decide)
      have round := alike.closes ')' (by decide)
      rw [optionalGroup?_cons_eq_none_iff] at unread ⊢
      simp only [OpensGroup] at unread ⊢
      tauto

/-- An optional group, or none, is found in front of a text that looks alike. -/
theorem optionalGroup?_append {group rest rest' : Text}
    (read : (optionalGroup? (group ++ rest)).getD [] = group) (alike : rest.Alike rest') :
    (optionalGroup? (group ++ rest')).getD [] = group := by
  cases found : optionalGroup? (group ++ rest) with
  | some other =>
      rw [found, Option.getD_some] at read
      subst read
      rw [optionalGroup?_behind found, Option.getD_some]
  | none =>
      rw [found, Option.getD_none] at read
      subst read
      rw [List.nil_append] at found ⊢
      rw [optionalGroup?_eq_none_of_alike alike found, Option.getD_none]

/-- The optional groups at the front of a text are read as they are if none stands behind
them. -/
theorem optionalGroups_append {groups rest rest' : Text}
    (read : optionalGroups (groups ++ rest) = groups)
    (unread : optionalGroup? rest = none → optionalGroup? rest' = none) :
    optionalGroup? rest = none ∧ optionalGroups (groups ++ rest') = groups := by
  induction lengthEq : groups.length using Nat.strong_induction_on generalizing groups with
  | _ length ih =>
      rw [optionalGroups] at read
      split at read
      next group found =>
        obtain ⟨others, rfl⟩ : ∃ others, groups = group ++ others := ⟨_, read.symm⟩
        have positive := (optionalGroup?_length_pos found).1
        rw [List.append_assoc, List.drop_left] at read
        have shorter : others.length < length := by
          rw [← lengthEq, List.length_append]
          omega
        obtain ⟨behind, readOthers⟩ := ih others.length shorter
          (List.append_cancel_left read) rfl
        refine ⟨behind, ?_⟩
        rw [List.append_assoc, optionalGroups]
        split
        next group' found' =>
          obtain rfl : group = group' :=
            Option.some.inj ((optionalGroup?_behind found _).symm.trans found')
          rw [List.drop_left, readOthers]
        next unfound =>
          exact absurd ((optionalGroup?_behind found _).symm.trans unfound) (by simp)
      next unfound =>
        obtain rfl := read
        rw [List.nil_append] at unfound ⊢
        refine ⟨unfound, ?_⟩
        rw [optionalGroups]
        split
        next found => exact absurd ((unread unfound).symm.trans found) (by simp)
        next => rfl

theorem spaces_append {gap : Text} {next : Char} (rest : Text)
    (space : ∀ character ∈ gap, isSpace character = true) (inked : isSpace next = false) :
    spaces (gap ++ next :: rest) = gap ∧
      (gap ++ next :: rest).dropWhile isSpace = next :: rest := by
  constructor
  · rw [spaces, List.takeWhile_append_of_pos space, List.takeWhile_cons_of_neg (by simp [inked]),
      List.append_nil]
  · rw [List.dropWhile_append_of_pos space, List.dropWhile_cons_of_neg (by simp [inked])]

theorem spaces_append_dropWhile (text : Text) :
    spaces text ++ text.dropWhile isSpace = text := List.takeWhile_append_dropWhile

theorem drop_spaces (text : Text) :
    text.drop (spaces text).length = text.dropWhile isSpace := by
  have dropped := @List.drop_left _ (spaces text) (text.dropWhile isSpace)
  rwa [spaces_append_dropWhile] at dropped

theorem isSpace_of_mem_spaces {text : Text} {character : Char} (member : character ∈ spaces text) :
    isSpace character = true := List.mem_takeWhile_imp member

/-- The first required group, and the others behind it. -/
theorem requiredGroups_succ {count : Nat} {gap content : Text} (rest : Text)
    (space : ∀ character ∈ gap, isSpace character = true)
    (closed : untilClosed? 0 (content ++ '}' :: rest) = some content) :
    requiredGroups (count + 1) (gap ++ '{' :: (content ++ '}' :: rest))
      = gap ++ '{' :: (content ++ '}' :: requiredGroups count rest) := by
  obtain ⟨gapEq, behind⟩ := spaces_append (content ++ '}' :: rest) space
    (show isSpace '{' = false by decide)
  have dropped : (content ++ '}' :: rest).drop (content.length + 1) = rest := by
    rw [← List.drop_drop, List.drop_left]
    rfl
  rw [requiredGroups, drop_spaces, behind, gapEq]
  simp only [closed, dropped]
  simp

/-- A group that is never closed takes the whole text. -/
theorem requiredGroups_of_unclosed {count : Nat} {gap inside : Text}
    (space : ∀ character ∈ gap, isSpace character = true)
    (unclosed : untilClosed? 0 inside = none) :
    requiredGroups (count + 1) (gap ++ '{' :: inside) = gap ++ '{' :: inside := by
  rw [requiredGroups, drop_spaces, (spaces_append inside space (by decide)).2]
  simp only [unclosed]

/-- Without an opening brace there is no group. -/
theorem requiredGroups_of_unopened {count : Nat} {text : Text}
    (unopened : (text.dropWhile isSpace).head? ≠ some '{') :
    requiredGroups (count + 1) text = [] := by
  rw [requiredGroups, drop_spaces]
  split
  next inside opened => exact absurd (by rw [opened]; rfl) unopened
  next => rfl

/-- The three ways a text can begin for a command that wants a group. -/
theorem groupAtFront_cases (text : Text) :
    (∃ gap content rest, (∀ character ∈ gap, isSpace character = true) ∧
      untilClosed? 0 (content ++ '}' :: rest) = some content ∧
      text = gap ++ '{' :: (content ++ '}' :: rest)) ∨
    (∃ gap inside, (∀ character ∈ gap, isSpace character = true) ∧
      untilClosed? 0 inside = none ∧ text = gap ++ '{' :: inside) ∨
    (text.dropWhile isSpace).head? ≠ some '{' := by
  have whole := spaces_append_dropWhile text
  have space : ∀ character ∈ spaces text, isSpace character = true :=
    fun _ member => isSpace_of_mem_spaces member
  by_cases opened : (text.dropWhile isSpace).head? = some '{'
  · obtain ⟨inside, insideEq⟩ := List.head?_eq_some_iff.mp opened
    rw [insideEq] at whole
    cases closed : untilClosed? 0 inside with
    | none => exact .inr (.inl ⟨spaces text, inside, space, closed, whole.symm⟩)
    | some content =>
        obtain ⟨rest, rfl⟩ := untilClosed?_isPrefix closed
        rw [List.append_assoc, List.singleton_append] at closed whole
        exact .inl ⟨spaces text, content, rest, space, closed, whole.symm⟩
  · exact .inr (.inr opened)

/-- Groups that are required are there, or one of them is never closed, or none is there. -/
theorem requiredGroups_cases (count : Nat) (text : Text) :
    (∃ gap content rest, (∀ character ∈ gap, isSpace character = true) ∧
      untilClosed? 0 (content ++ '}' :: rest) = some content ∧
      text = gap ++ '{' :: (content ++ '}' :: rest)) ∨
    (text.dropWhile isSpace).head? = some '{' ∧ requiredGroups (count + 1) text = text ∨
    (text.dropWhile isSpace).head? ≠ some '{' ∧ requiredGroups (count + 1) text = [] := by
  rcases groupAtFront_cases text with closed | ⟨gap, inside, space, unclosed, rfl⟩ | unopened
  · exact .inl closed
  · refine .inr (.inl ⟨?_, requiredGroups_of_unclosed space unclosed⟩)
    rw [(spaces_append inside space (by decide)).2]
    rfl
  · exact .inr (.inr ⟨unopened, requiredGroups_of_unopened unopened⟩)

/-- The required groups at the front of a text are read as they are if what stands behind them
looks alike. -/
theorem requiredGroups_append {count : Nat} {groups rest rest' : Text}
    (read : requiredGroups count (groups ++ rest) = groups) (nonempty : rest ≠ [])
    (inked : (rest.dropWhile isSpace).head? = (rest'.dropWhile isSpace).head?) :
    requiredGroups count (groups ++ rest') = groups := by
  induction count generalizing groups with
  | zero => exact read
  | succ count ih =>
      rcases requiredGroups_cases count (groups ++ rest) with
        ⟨gap, content, more, space, closed, textEq⟩ | ⟨-, unclosed⟩ | ⟨notOpened, none⟩
      · rw [textEq, requiredGroups_succ more space closed] at read
        obtain rfl := read
        have moreEq : requiredGroups count more ++ rest = more := by simpa using textEq
        have others := @ih (requiredGroups count more) (by rw [moreEq])
        have closed' := untilClosed?_behind closed (requiredGroups count more ++ rest')
        have whole := @requiredGroups_succ count _ _ _ space closed'
        rw [others] at whole
        simpa using whole
      · exact absurd (List.append_right_eq_self.mp (unclosed.symm.trans read)) nonempty
      · obtain rfl : [] = groups := none.symm.trans read
        rw [List.nil_append] at notOpened ⊢
        rw [inked] at notOpened
        rcases requiredGroups_cases count rest' with
          ⟨gap, content, more, space, -, rfl⟩ | ⟨opened, -⟩ | ⟨-, none⟩
        · rw [(spaces_append _ space (by decide)).2] at notOpened
          exact absurd rfl notOpened
        · exact absurd opened notOpened
        · exact none

/-- Required groups begin with white space or a brace. -/
theorem head?_requiredGroups (count : Nat) (text : Text) :
    ∀ head ∈ (requiredGroups count text).head?,
      isSpace head = true ∨ head = '{' := by
  intro head isHead
  cases count with
  | zero => simp [requiredGroups] at isHead
  | succ count =>
      have ofGap {gap : Text} {rest : Text} (space : ∀ character ∈ gap, isSpace character = true)
          (isFirst : head ∈ (gap ++ '{' :: rest).head?) : isSpace head = true ∨ head = '{' := by
        cases gap with
        | nil => exact Or.inr (Option.some.inj isFirst).symm
        | cons first others =>
            obtain rfl := Option.some.inj isFirst
            exact Or.inl (space first List.mem_cons_self)
      rcases requiredGroups_cases count text with
        ⟨gap, content, more, space, closed, rfl⟩ | ⟨opened, unclosed⟩ | ⟨-, none⟩
      · rw [requiredGroups_succ more space closed] at isHead
        exact ofGap space isHead
      · rw [unclosed, ← spaces_append_dropWhile text] at isHead
        obtain ⟨rest, insideEq⟩ := List.head?_eq_some_iff.mp opened
        rw [insideEq] at isHead
        exact ofGap (fun _ member => isSpace_of_mem_spaces member) isHead
      · simp [none] at isHead

/-- Arguments are read as they are if what stands behind them looks alike. -/
theorem arguments_append {required : Nat} {written rest rest' : Text}
    (read : arguments required (written ++ rest) = written) (nonempty : rest ≠ [])
    (alike : rest.Alike rest') : arguments required (written ++ rest') = written := by
  have split : written = optionalGroups (written ++ rest) ++ requiredGroups required
      ((written ++ rest).drop (optionalGroups (written ++ rest)).length) := read.symm
  generalize optionalEq : optionalGroups (written ++ rest) = optional at split
  generalize groupsEq : requiredGroups required ((written ++ rest).drop optional.length) = groups
    at split
  subst split
  rw [List.append_assoc] at optionalEq groupsEq ⊢
  rw [List.drop_left] at groupsEq
  have starts : optionalGroup? (groups ++ rest) = none →
      optionalGroup? (groups ++ rest') = none := by
    cases groups with
    | nil => exact optionalGroup?_eq_none_of_alike alike
    | cons head others =>
        intro _
        rcases head?_requiredGroups required _ head (by rw [groupsEq]; rfl) with space | rfl
        · have notSquare : head ≠ '[' := by rintro rfl; exact absurd space (by decide)
          have notRound : head ≠ '(' := by rintro rfl; exact absurd space (by decide)
          exact optionalGroup?_cons_eq_none_iff.mpr (by simp [OpensGroup, notSquare, notRound])
        · exact optionalGroup?_cons_eq_none_iff.mpr (by simp [OpensGroup])
  obtain ⟨-, optional'⟩ := optionalGroups_append optionalEq starts
  rw [arguments, optional', List.drop_left, requiredGroups_append groupsEq nonempty alike.inked]

end Markup

end LatexTabular
