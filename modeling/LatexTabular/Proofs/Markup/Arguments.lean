import LatexTabular.Proofs.Markup.Comment
import LatexTabular.Proofs.Markup.Group
import LatexTabular.Proofs.Markup.Lookahead

/-!
# Arguments without comments

The readers of groups know no comments: a brace or a bracket in one counts like any other.  If no
comment of what they read has a character they look for (`Unmarked`), they read the same where the
comments are cut (`arguments_withoutComments`).
-/

namespace LatexTabular.Markup

/-- The braces around a required group. -/
def isBrace (character : Char) : Bool := character == '{' || character == '}'

/-- The characters that close an optional group. -/
def closesOptional (character : Char) : Bool := character == ']' || character == ')'

/-- The characters that the readers of groups look for. -/
def isGroupMark (character : Char) : Bool := isBrace character || closesOptional character

/-- Whether no comment of a text has one of the marks. -/
def Unmarked (marks : Char → Bool) (reach : Reach) (text : Text) : Prop :=
  ∀ character ∈ commentText reach text, marks character = false

instance (marks : Char → Bool) (reach : Reach) (text : Text) :
    Decidable (Unmarked marks reach text) :=
  decidable_of_iff ((commentText reach text).all (!marks ·) = true) (by simp [Unmarked])

variable {marks : Char → Bool} {reach : Reach} {text left right : Text}

theorem unmarked_nil : Unmarked marks reach [] := List.forall_mem_nil _

theorem unmarked_append :
    Unmarked marks reach (left ++ right)
      ↔ Unmarked marks reach left ∧ Unmarked marks (reach.behind left) right := by
  simp only [Unmarked, commentText_append, List.mem_append]
  exact ⟨fun all => ⟨fun _ member => all _ (.inl member), fun _ member => all _ (.inr member)⟩,
    fun both _ member => member.elim (both.1 _) (both.2 _)⟩

theorem Unmarked.tail {head : Char} (unmarked : Unmarked marks reach (head :: text)) :
    Unmarked marks (reach.after head) text :=
  ((@unmarked_append _ _ [head] _).mp unmarked).2

theorem Unmarked.of_map_getD {head : Char} {read : Option Text}
    (unmarked : Unmarked marks reach ((read.map (head :: ·)).getD [])) :
    Unmarked marks (reach.after head) (read.getD []) := by
  cases read with
  | none => exact unmarked_nil
  | some group => exact Unmarked.tail unmarked

/-- Without a percent sign there is no comment. -/
theorem unmarked_of_notMem (open' : reach ≠ .comment) (noPercent : '%' ∉ text) :
    Unmarked marks reach text := by
  induction text generalizing reach with
  | nil => exact unmarked_nil
  | cons head rest ih =>
      rw [List.mem_cons, not_or] at noPercent
      rw [Unmarked, commentText_cons (Reach.hides_eq_false open' head)]
      exact ih (Reach.after_ne_comment open' (Ne.symm noPercent.1)) noPercent.2

theorem Unmarked.braces (unmarked : Unmarked isGroupMark reach text) :
    Unmarked isBrace reach text :=
  fun _ member => (Bool.or_eq_false_iff.mp (unmarked _ member)).1

theorem Unmarked.optional (unmarked : Unmarked isGroupMark reach text) :
    Unmarked closesOptional reach text :=
  fun _ member => (Bool.or_eq_false_iff.mp (unmarked _ member)).2

/-- A mark is outside comments. -/
theorem Unmarked.hides_eq_false {mark : Char} (unmarked : Unmarked marks reach (mark :: text))
    (marked : marks mark = true) : reach.hides mark = false := by
  refine Bool.eq_false_iff.mpr fun hidden => ?_
  have notMarked := unmarked mark (by rw [commentText, if_pos hidden]; exact List.mem_cons_self)
  rw [marked] at notMarked
  exact Bool.noConfusion notMarked

/-- Behind a mark nothing is open. -/
theorem Unmarked.after_eq_nothing {mark : Char} (unmarked : Unmarked marks reach (mark :: text))
    (marked : marks mark = true) (isMark : isGroupMark mark = true) :
    reach.after mark = .nothing := by
  have shown := unmarked.hides_eq_false marked
  have ordinary : mark ≠ '\\' ∧ mark ≠ '%' ∧ mark ≠ '\n' := by
    refine ⟨?_, ?_, ?_⟩ <;>
    · rintro rfl
      exact absurd isMark (by decide)
  cases reach with
  | nothing => exact Reach.after_nothing ordinary.1 ordinary.2.1
  | backslash => rfl
  | comment => simp [Reach.hides, ordinary.2.2] at shown

/-- Behind a text that ends with a mark nothing is open. -/
theorem Unmarked.behind_eq_nothing (unmarked : Unmarked marks .nothing text)
    (ends : ∀ last ∈ text.getLast?, marks last = true ∧ isGroupMark last = true) :
    Reach.nothing.behind text = .nothing := by
  rcases List.eq_nil_or_concat text with rfl | ⟨init, last, rfl⟩
  · rfl
  rw [List.concat_eq_append] at unmarked ends ⊢
  have marked := ends last (by simp)
  rw [Reach.behind_append, Reach.behind_cons, Reach.behind_nil]
  exact (unmarked_append.mp unmarked).2.after_eq_nothing marked.1 marked.2

/-- Behind closed groups nothing is open. -/
theorem Unmarked.behind_of_closes (unmarked : Unmarked isGroupMark .nothing text)
    (closes : Closes text) : Reach.nothing.behind text = .nothing := by
  refine unmarked.behind_eq_nothing fun last isLast => ?_
  have marked : isGroupMark last = true := by
    have closing := closes last isLast
    simp only [closesGroup, Bool.or_eq_true] at closing
    simp only [isGroupMark, isBrace, closesOptional, Bool.or_eq_true]
    tauto
  exact ⟨marked, marked⟩

section Braces

/-- A shown character stays in front of what is read behind it. -/
theorem map_withoutComments_of_shown {head : Char} (shown : reach.hides head = false)
    (read : Option Text) :
    (read.map (withoutComments (reach.after head))).map (head :: ·)
      = (read.map (head :: ·)).map (withoutComments reach) := by
  rw [Option.map_map, Option.map_map]
  refine Option.map_congr fun content _ => ?_
  rw [Function.comp_apply, Function.comp_apply, withoutComments_cons shown]

/-- A character of a comment is cut from what is read. -/
theorem map_withoutComments_of_hides {head : Char} (hidden : reach.hides head = true)
    (read : Option Text) :
    read.map (withoutComments .comment) = (read.map (head :: ·)).map (withoutComments reach) := by
  rw [Option.map_map]
  refine Option.map_congr fun content _ => ?_
  rw [Function.comp_apply, withoutComments_cons_of_hides hidden]

/-- A character behind a backslash closes nothing where comments are cut, as it closed nothing. -/
theorem untilClosed?_withoutComments_escaped {depth : Nat} {hidden : Char} {rest : Text}
    (open' : reach ≠ .backslash)
    (others : (reach.after '\\').after hidden ≠ .backslash →
      untilClosed? depth (withoutComments ((reach.after '\\').after hidden) rest)
        = (untilClosed? depth rest).map (withoutComments ((reach.after '\\').after hidden))) :
    untilClosed? depth (withoutComments reach ('\\' :: hidden :: rest))
      = (untilClosed? depth ('\\' :: hidden :: rest)).map (withoutComments reach) := by
  have pair : untilClosed? depth ('\\' :: hidden :: rest)
      = ((untilClosed? depth rest).map (hidden :: ·)).map ('\\' :: ·) := by
    rw [untilClosed?, Option.map_map]
    rfl
  rw [pair]
  cases reach with
  | nothing =>
      have shown : withoutComments .nothing ('\\' :: hidden :: rest)
          = '\\' :: hidden :: withoutComments .nothing rest := rfl
      have closed : (Reach.nothing.after '\\').after hidden = .nothing := rfl
      rw [closed] at others
      rw [shown, untilClosed?, others (by simp), Option.map_map, Option.map_map, Option.map_map]
      rfl
  | backslash => exact absurd rfl open'
  | comment =>
      have first : Reach.hides .comment '\\' = true := rfl
      have stays : Reach.comment.after '\\' = .comment := rfl
      rw [stays] at others
      rw [withoutComments_cons_of_hides first, ← map_withoutComments_of_hides first]
      by_cases newline : hidden = '\n'
      · -- The end of the line ends the comment, and nothing hides it any more.
        subst newline
        have shown : Reach.hides .comment '\n' = false := rfl
        rw [withoutComments_cons shown, untilClosed?_cons_ordinary _ (by decide) (by decide)
          (by decide), others (by simp), map_withoutComments_of_shown shown]
      · have second : Reach.hides .comment hidden = true := by simp [Reach.hides, newline]
        have open'' := (Reach.after_of_hides second).2
        rw [open''] at others
        rw [withoutComments_cons_of_hides second, others (by simp),
          map_withoutComments_of_hides second]

/-- A brace group is closed where it was. -/
theorem untilClosed?_withoutComments {depth : Nat} (open' : reach ≠ .backslash)
    (unmarked : Unmarked isBrace reach text) :
    untilClosed? depth (withoutComments reach text)
      = (untilClosed? depth text).map (withoutComments reach) := by
  fun_induction untilClosed? depth text generalizing reach with
  | case1 => rfl
  | case2 depth hidden rest ih =>
      have read := @untilClosed?_withoutComments_escaped reach depth hidden rest open'
        fun next => ih next unmarked.tail.tail
      rw [read, untilClosed?]
  | case3 depth rest ih =>
      have shown := unmarked.hides_eq_false rfl
      have next := unmarked.after_eq_nothing rfl rfl
      rw [withoutComments_cons shown, untilClosed?, ih (by simp [next]) unmarked.tail,
        map_withoutComments_of_shown shown]
  | case4 rest =>
      rw [withoutComments_cons (unmarked.hides_eq_false rfl), untilClosed?]
      rfl
  | case5 depth rest ih =>
      have shown := unmarked.hides_eq_false rfl
      have next := unmarked.after_eq_nothing rfl rfl
      rw [withoutComments_cons shown, untilClosed?, ih (by simp [next]) unmarked.tail,
        map_withoutComments_of_shown shown]
  | case6 depth other rest noPair noOpening noClosing noOuter ih =>
      by_cases isBackslash : other = '\\'
      · -- A backslash at the end of the text hides nothing.
        cases rest with
        | nil =>
            subst isBackslash
            cases reach <;> rfl
        | cons next rest => exact absurd rfl (noPair next rest isBackslash)
      have noClosing' : other ≠ '}' := by
        rintro rfl
        cases depth with
        | zero => exact noClosing rfl rfl
        | succ depth => exact noOuter depth rfl rfl
      have read := ih (Reach.after_ne_backslash isBackslash) unmarked.tail
      cases hidden : reach.hides other with
      | true =>
          rw [(Reach.after_of_hides hidden).2] at read
          rw [withoutComments_cons_of_hides hidden, read, map_withoutComments_of_hides hidden]
      | false =>
          rw [withoutComments_cons hidden,
            untilClosed?_cons_ordinary _ isBackslash noOpening noClosing', read,
            map_withoutComments_of_shown hidden]

/-- A closed brace group leaves nothing open, and is found where its comments are cut. -/
theorem withoutComments_closed {content rest : Text}
    (closed : untilClosed? 0 (content ++ '}' :: rest) = some content)
    (unmarked : Unmarked isBrace .nothing (content ++ ['}'])) :
    Reach.nothing.behind (content ++ ['}']) = .nothing ∧
      withoutComments .nothing (content ++ '}' :: rest)
        = withoutComments .nothing content ++ '}' :: withoutComments .nothing rest ∧
      ∀ others, untilClosed? 0 (withoutComments .nothing content ++ '}' :: others)
        = some (withoutComments .nothing content) := by
  have last := (unmarked_append.mp unmarked).2
  have shown : withoutComments (Reach.nothing.behind content) ['}'] = ['}'] := by
    rw [withoutComments_cons (last.hides_eq_false rfl), withoutComments_nil]
  have nothing : Reach.nothing.behind (content ++ ['}']) = .nothing := by
    rw [Reach.behind_append, Reach.behind_cons, Reach.behind_nil]
    exact last.after_eq_nothing rfl rfl
  have again : untilClosed? 0 (withoutComments .nothing content ++ ['}'])
      = some (withoutComments .nothing content) := by
    have cut := @untilClosed?_withoutComments _ _ 0 (by simp) unmarked
    rwa [untilClosed?_behind closed, withoutComments_append, shown] at cut
  refine ⟨nothing, ?_, fun others => untilClosed?_behind again others⟩
  have parts : content ++ '}' :: rest = content ++ ['}'] ++ rest := by simp
  rw [parts, withoutComments_append, nothing, withoutComments_append, shown]
  simp

end Braces

section Required

/-- White space opens nothing. -/
theorem withoutComments_spaces (text : Text) :
    spaces (withoutComments .nothing text) = spaces text ∧
      (withoutComments .nothing text).dropWhile isSpace
        = withoutComments .nothing (text.dropWhile isSpace) := by
  induction text with
  | nil => exact ⟨rfl, rfl⟩
  | cons head rest ih =>
      have shown : Reach.nothing.hides head = false := rfl
      rw [withoutComments_cons shown, spaces, spaces, List.takeWhile_cons, List.takeWhile_cons,
        List.dropWhile_cons, List.dropWhile_cons]
      by_cases isSpaceHead : isSpace head = true
      · have noBackslash : head ≠ '\\' := by rintro rfl; exact absurd isSpaceHead (by decide)
        have noPercent : head ≠ '%' := by rintro rfl; exact absurd isSpaceHead (by decide)
        rw [if_pos isSpaceHead, if_pos isSpaceHead, if_pos isSpaceHead, if_pos isSpaceHead,
          Reach.after_nothing noBackslash noPercent]
        exact ⟨congrArg (head :: ·) ih.1, ih.2⟩
      · rw [if_neg isSpaceHead, if_neg isSpaceHead, if_neg isSpaceHead, if_neg isSpaceHead,
          withoutComments_cons shown]
        exact ⟨rfl, rfl⟩

/-- What stands in front of the content of a group opens nothing. -/
theorem withoutComments_opening {gap : Text}
    (space : ∀ character ∈ gap, isSpace character = true) :
    (∀ rest, withoutComments .nothing (gap ++ '{' :: rest)
        = gap ++ '{' :: withoutComments .nothing rest) ∧
      ∀ rest, Unmarked isBrace .nothing (gap ++ '{' :: rest) ↔ Unmarked isBrace .nothing rest := by
  have noPercent : '%' ∉ gap ++ ['{'] := by
    rw [List.mem_append]
    rintro (member | member)
    · exact absurd (space _ member) (by decide)
    · exact absurd member (by decide)
  have nothing : Reach.nothing.behind (gap ++ ['{']) = .nothing :=
    Reach.behind_eq_nothing List.getLast?_concat (by decide)
      (Reach.behind_ne_comment (by simp) noPercent)
  have parts (rest : Text) : gap ++ '{' :: rest = gap ++ ['{'] ++ rest := by simp
  refine ⟨fun rest => ?_, fun rest => ?_⟩
  · rw [parts rest, withoutComments_append, nothing,
      withoutComments_of_notMem (by simp) noPercent, parts (withoutComments .nothing rest)]
  · rw [parts rest, unmarked_append, nothing]
    exact and_iff_right (unmarked_of_notMem (by simp) noPercent)

/-- Where no group begins, none begins where comments are cut. -/
theorem unopened_withoutComments (unopened : (text.dropWhile isSpace).head? ≠ some '{') :
    ((withoutComments .nothing text).dropWhile isSpace).head? ≠ some '{' := by
  rwa [(withoutComments_spaces text).2, head?_withoutComments (by simp)]

/-- A closed group without group marks in its comments, and what is behind it. -/
theorem unmarked_group {gap content rest : Text}
    (space : ∀ character ∈ gap, isSpace character = true) :
    Unmarked isBrace .nothing (gap ++ '{' :: (content ++ '}' :: rest)) ↔
      Unmarked isBrace .nothing (content ++ ['}'])
        ∧ Unmarked isBrace (Reach.nothing.behind (content ++ ['}'])) rest := by
  have parts : content ++ '}' :: rest = content ++ ['}'] ++ rest := by simp
  rw [(withoutComments_opening space).2, parts, unmarked_append]

/-- Required groups are read where their comments are cut as they were. -/
theorem requiredGroups_withoutComments {count : Nat}
    (unmarked : Unmarked isBrace .nothing (requiredGroups count text)) :
    requiredGroups count (withoutComments .nothing text)
      = withoutComments .nothing (requiredGroups count text) := by
  induction count generalizing text with
  | zero => rfl
  | succ count ih =>
      rcases groupAtFront_cases text with
        ⟨gap, content, rest, space, closed, rfl⟩ | ⟨gap, inside, space, unclosed, rfl⟩ | unopened
      · rw [requiredGroups_succ rest space closed] at unmarked ⊢
        obtain ⟨first, others⟩ := (unmarked_group space).mp unmarked
        obtain ⟨nothing, cut, again⟩ := withoutComments_closed closed first
        obtain ⟨-, cutOthers, -⟩ := withoutComments_closed
          (untilClosed?_behind closed (requiredGroups count rest)) first
        rw [nothing] at others
        rw [(withoutComments_opening space).1, (withoutComments_opening space).1, cut, cutOthers,
          requiredGroups_succ _ space (again _), ih others]
      · rw [requiredGroups_of_unclosed space unclosed] at unmarked ⊢
        have unclosed' := @untilClosed?_withoutComments _ _ 0 (by simp)
          (((withoutComments_opening space).2 inside).mp unmarked)
        rw [unclosed, Option.map_none] at unclosed'
        rw [(withoutComments_opening space).1, requiredGroups_of_unclosed space unclosed']
      · rw [requiredGroups_of_unopened unopened,
          requiredGroups_of_unopened (unopened_withoutComments unopened)]
        rfl

end Required

section Optional

/-- A text without comments is read up to the same character. -/
theorem through?_withoutComments {close : Char} (closes : closesOptional close = true)
    (unmarked : Unmarked closesOptional reach ((through? close text).getD [])) :
    through? close (withoutComments reach text)
      = (through? close text).map (withoutComments reach) := by
  induction text generalizing reach with
  | nil => rfl
  | cons head rest ih =>
      by_cases isClose : head = close
      · subst isClose
        rw [through?, if_pos rfl, Option.getD_some] at unmarked
        have shown := unmarked.hides_eq_false closes
        rw [withoutComments_cons shown, through?, if_pos rfl, through?, if_pos rfl,
          Option.map_some, withoutComments_cons shown, withoutComments_nil]
      · rw [through?, if_neg isClose] at unmarked ⊢
        have read := ih unmarked.of_map_getD
        cases hidden : reach.hides head with
        | true =>
            rw [(Reach.after_of_hides hidden).2] at read
            rw [withoutComments_cons_of_hides hidden, read, map_withoutComments_of_hides hidden]
        | false =>
            rw [withoutComments_cons hidden, through?, if_neg isClose, read,
              map_withoutComments_of_shown hidden]

/-- An optional group is read where its comments are cut as it was. -/
theorem optionalGroup?_withoutComments
    (unmarked : Unmarked closesOptional .nothing ((optionalGroup? text).getD [])) :
    optionalGroup? (withoutComments .nothing text)
      = (optionalGroup? text).map (withoutComments .nothing) := by
  have read {open' close : Char} {rest : Text} (noBackslash : open' ≠ '\\')
      (noPercent : open' ≠ '%') (closes : closesOptional close = true)
      (unmarked : Unmarked closesOptional .nothing
        (((through? close rest).map (open' :: ·)).getD [])) :
      (through? close (withoutComments .nothing rest)).map (open' :: ·)
        = ((through? close rest).map (open' :: ·)).map (withoutComments .nothing) := by
    have next : Reach.nothing.after open' = .nothing := Reach.after_nothing noBackslash noPercent
    have inside := unmarked.of_map_getD
    rw [next] at inside
    rw [through?_withoutComments closes inside, ← map_withoutComments_of_shown rfl, next]
  unfold optionalGroup? at unmarked
  split at unmarked
  next rest =>
    change optionalGroup? ('[' :: withoutComments .nothing rest) = _
    rw [optionalGroup?, optionalGroup?]
    exact read (by decide) (by decide) (by decide) unmarked
  next rest =>
    change optionalGroup? ('(' :: withoutComments .nothing rest) = _
    rw [optionalGroup?, optionalGroup?]
    exact read (by decide) (by decide) (by decide) unmarked
  next noSquare noRound =>
    cases text with
    | nil => rfl
    | cons head rest =>
        have unread (others : Text) : optionalGroup? (head :: others) = none := by
          rw [optionalGroup?_cons_eq_none_iff]
          rintro (⟨rfl, -⟩ | ⟨rfl, -⟩)
          · exact noSquare rest rfl
          · exact noRound rest rfl
        rw [withoutComments_cons rfl, unread, unread, Option.map_none]

/-- Behind an optional group nothing is open. -/
theorem Unmarked.behind_optionalGroup {group : Text}
    (unmarked : Unmarked closesOptional .nothing group)
    (found : optionalGroup? text = some group) : Reach.nothing.behind group = .nothing := by
  refine unmarked.behind_eq_nothing fun last isLast => ?_
  unfold optionalGroup? at found
  split at found
  · obtain ⟨inner, closed, rfl⟩ := Option.map_eq_some_iff.mp found
    obtain rfl : ']' = last := by
      simpa [List.getLast?_cons, getLast?_of_through? closed] using isLast
    exact ⟨rfl, rfl⟩
  · obtain ⟨inner, closed, rfl⟩ := Option.map_eq_some_iff.mp found
    obtain rfl : ')' = last := by
      simpa [List.getLast?_cons, getLast?_of_through? closed] using isLast
    exact ⟨rfl, rfl⟩
  · simp at found

/-- Optional groups are read where their comments are cut as they were. -/
theorem optionalGroups_withoutComments
    (unmarked : Unmarked closesOptional .nothing (optionalGroups text)) :
    optionalGroups (withoutComments .nothing text)
      = withoutComments .nothing (optionalGroups text) := by
  fun_induction optionalGroups text with
  | case1 text group found ih =>
      obtain ⟨first, others⟩ := unmarked_append.mp unmarked
      have nothing := first.behind_optionalGroup found
      rw [nothing] at others
      obtain ⟨rest, rfl⟩ := optionalGroup?_isPrefix found
      rw [List.drop_left] at others ih ⊢
      have again := @optionalGroup?_withoutComments (group ++ rest) (by rwa [found])
      rw [found, Option.map_some] at again
      rw [optionalGroups]
      split
      next group' found' =>
        obtain rfl := Option.some.inj (again.symm.trans found')
        rw [withoutComments_append, withoutComments_append, nothing, List.drop_left, ih others]
      next unfound => exact absurd (again.symm.trans unfound) (by simp)
  | case2 text unfound =>
      have again := @optionalGroup?_withoutComments text (by rw [unfound]; exact unmarked_nil)
      rw [unfound, Option.map_none] at again
      rw [optionalGroups]
      split
      next found => exact absurd (again.symm.trans found) (by simp)
      next => rfl

end Optional

/-- Arguments are read where their comments are cut as they were, if none of these has a group
mark. -/
theorem arguments_withoutComments {required : Nat}
    (unmarked : Unmarked isGroupMark .nothing (arguments required text)) :
    arguments required (withoutComments .nothing text)
      = withoutComments .nothing (arguments required text) := by
  obtain ⟨optional, groups⟩ := unmarked_append.mp unmarked
  have nothing := optional.behind_of_closes (closes_optionalGroups text)
  rw [nothing] at groups
  have again := optionalGroups_withoutComments optional.optional
  have whole : optionalGroups text ++ text.drop (optionalGroups text).length = text :=
    List.prefix_iff_eq_append.mp (optionalGroups_isPrefix text)
  have cut : (withoutComments .nothing text).drop
        (withoutComments .nothing (optionalGroups text)).length
      = withoutComments .nothing (text.drop (optionalGroups text).length) := by
    conv => lhs; rw [← whole, withoutComments_append, nothing, whole, List.drop_left]
  rw [arguments, arguments, again, cut, withoutComments_append, nothing,
    requiredGroups_withoutComments groups.braces]

end LatexTabular.Markup
