import LatexTabular.Markup.Comment
import LatexTabular.Proofs.Text.Line

/-!
# Cutting comments

What a character of a text means to its comments depends on what the text in front of it has
opened (`Reach`): a backslash hides the next character, and a percent sign opens a comment that
ends with its line.  An offset of a document lies in a comment exactly when the text in front of
it leaves one open (`isCommented_iff`).  Cutting the text of all comments leaves their percent
signs and line feeds (`withoutComments`), so comments stay where they are
(`Reach.Covers.behind_withoutComments`).
-/

namespace LatexTabular.Markup

/-- What reaches from a text over what stands behind it: nothing, a backslash that hides one
character, or a comment. -/
inductive Reach where
  | nothing
  | backslash
  | comment
  deriving DecidableEq, Repr

namespace Reach

/-- What reaches over the text behind one more character. -/
def after : Reach → Char → Reach
  | nothing, character =>
      if character = '\\' then backslash else if character = '%' then comment else nothing
  | backslash, _ => nothing
  | comment, character => if character = '\n' then nothing else comment

/-- What reaches over the text behind one more text. -/
def behind (reach : Reach) (text : Text) : Reach := text.foldl after reach

/-- Whether a character is part of the text of a comment. -/
def hides (reach : Reach) (character : Char) : Bool := reach = comment && character != '\n'

variable {reach first second : Reach} {text : Text} {character : Char}

@[simp] theorem behind_nil (reach : Reach) : reach.behind [] = reach := rfl

@[simp] theorem behind_cons (reach : Reach) (head : Char) (rest : Text) :
    reach.behind (head :: rest) = (reach.after head).behind rest := rfl

theorem behind_append (reach : Reach) (left right : Text) :
    reach.behind (left ++ right) = (reach.behind left).behind right := List.foldl_append

@[simp] theorem after_newline (reach : Reach) : reach.after '\n' = nothing := by
  cases reach <;> rfl

theorem hides_eq_false (open' : reach ≠ comment) (character : Char) :
    reach.hides character = false := by simp [hides, open']

theorem after_of_hides (hidden : reach.hides character = true) :
    reach = comment ∧ reach.after character = comment := by
  simp only [hides, Bool.and_eq_true, decide_eq_true_eq, bne_iff_ne] at hidden
  obtain ⟨rfl, noNewline⟩ := hidden
  exact ⟨rfl, if_neg noNewline⟩

/-- Only a percent sign opens a comment. -/
theorem after_ne_comment (open' : reach ≠ comment) (noPercent : character ≠ '%') :
    reach.after character ≠ comment := by
  cases reach with
  | nothing =>
      simp only [after, noPercent, if_false]
      split <;> simp
  | backslash => simp [after]
  | comment => exact absurd rfl open'

/-- Only a backslash hides a character. -/
theorem after_ne_backslash (noBackslash : character ≠ '\\') :
    reach.after character ≠ backslash := by
  cases reach with
  | nothing =>
      simp only [after, noBackslash, if_false]
      split <;> simp
  | backslash => simp [after]
  | comment =>
      simp only [after]
      split <;> simp

/-- An ordinary character changes nothing. -/
theorem after_nothing (noBackslash : character ≠ '\\') (noPercent : character ≠ '%') :
    nothing.after character = nothing := by
  simp [after, noBackslash, noPercent]

theorem behind_ne_comment (open' : reach ≠ comment) (noPercent : '%' ∉ text) :
    reach.behind text ≠ comment := by
  induction text generalizing reach with
  | nil => exact open'
  | cons head rest ih =>
      rw [List.mem_cons, not_or] at noPercent
      exact ih (after_ne_comment open' (Ne.symm noPercent.1)) noPercent.2

/-- A comment reaches to the end of its line. -/
theorem comment_behind (unbroken : '\n' ∉ text) : comment.behind text = comment := by
  induction text with
  | nil => rfl
  | cons head rest ih =>
      rw [List.mem_cons, not_or] at unbroken
      rw [behind_cons, after, if_neg (Ne.symm unbroken.1)]
      exact ih unbroken.2

/-- A text that ends outside comments with an ordinary character leaves nothing open. -/
theorem behind_eq_nothing {last : Char} (ends : text.getLast? = some last)
    (noBackslash : last ≠ '\\') (open' : reach.behind text ≠ comment) :
    reach.behind text = nothing := by
  obtain ⟨front, rfl⟩ := List.getLast?_eq_some_iff.mp ends
  have reached := @after_ne_backslash (reach.behind front) last noBackslash
  rw [behind_append, behind_cons, behind_nil] at open' ⊢
  cases state : (reach.behind front).after last <;> simp_all

/-- Whether what reaches over a text is known, unless a comment hides the text. -/
def Covers (first second : Reach) : Prop := first = second ∨ first = comment

theorem Covers.after (covers : first.Covers second) (character : Char) :
    (first.after character).Covers (second.after character) := by
  rcases covers with rfl | rfl
  · exact .inl rfl
  · by_cases newline : character = '\n'
    · subst newline
      exact .inl (by simp)
    · exact .inr (if_neg newline)

theorem Covers.behind (covers : first.Covers second) (text : Text) :
    (first.behind text).Covers (second.behind text) := by
  induction text generalizing first second with
  | nil => exact covers
  | cons head rest ih => exact ih (covers.after head)

theorem Covers.eq_of_ne (covers : first.Covers second) (open' : first ≠ comment) :
    second = first := (covers.resolve_right open').symm

end Reach

section Documents

theorem opensComment_of_notMem {text : Text} (none : '%' ∉ text) : opensComment text = false := by
  fun_induction opensComment text with
  | case1 => rfl
  | case2 hidden rest ih =>
      exact ih fun member => none (List.mem_cons_of_mem _ (List.mem_cons_of_mem _ member))
  | case3 rest => exact absurd List.mem_cons_self none
  | case4 head rest _ _ ih => exact ih fun member => none (List.mem_cons_of_mem _ member)

/-- Within a line a comment is open if one was opened. -/
theorem opensComment_iff {line : Text} (unbroken : '\n' ∉ line) :
    opensComment line = true ↔ Reach.nothing.behind line = .comment := by
  fun_induction opensComment line with
  | case1 => simp
  | case2 hidden rest ih =>
      simp only [List.mem_cons, not_or] at unbroken
      simpa [Reach.after] using ih unbroken.2.2
  | case3 rest =>
      rw [List.mem_cons, not_or] at unbroken
      simp [Reach.after, Reach.comment_behind unbroken.2]
  | case4 head rest noPair noPercent ih =>
      rw [List.mem_cons, not_or] at unbroken
      cases rest with
      | nil =>
          have noComment : Reach.nothing.after head ≠ .comment :=
            Reach.after_ne_comment (by simp) noPercent
          simp [opensComment, noComment]
      | cons next rest =>
          have noBackslash : head ≠ '\\' := fun equal => noPair next rest equal rfl
          rw [Reach.behind_cons, Reach.after_nothing noBackslash noPercent]
          exact ih unbroken.2

/-- An offset lies in a comment if the text in front of it leaves one open. -/
theorem isCommented_iff (document : Text) (offset : Nat) :
    isCommented document offset = true
      ↔ Reach.nothing.behind (document.takeBytes offset) = .comment := by
  obtain ⟨front, frontEq, unbroken, breaks⟩ :=
    Text.exists_eq_append_lastLine (document.takeBytes offset)
  have atStart : Reach.nothing.behind front = .nothing := by
    rcases List.eq_nil_or_concat front with rfl | ⟨init, last, rfl⟩
    · rfl
    · obtain rfl := breaks last (by simp)
      rw [List.concat_eq_append, Reach.behind_append, Reach.behind_cons, Reach.after_newline,
        Reach.behind_nil]
  rw [isCommented, opensComment_iff unbroken]
  conv => rhs; rw [frontEq, Reach.behind_append, atStart]

/-- Without a percent sign there is no comment. -/
theorem isCommented_of_notMem {document : Text} (none : '%' ∉ document) (offset : Nat) :
    isCommented document offset = false := by
  refine Bool.eq_false_iff.mpr (mt (isCommented_iff document offset).mp ?_)
  refine Reach.behind_ne_comment (by simp) fun member => none ?_
  rw [← Text.takeBytes_append_dropBytes document offset]
  exact List.mem_append_left _ member

end Documents

/-- A text without the text of its comments. -/
def withoutComments (reach : Reach) : Text → Text
  | [] => []
  | head :: rest =>
      if reach.hides head then withoutComments (reach.after head) rest
      else head :: withoutComments (reach.after head) rest

/-- The text of the comments of a text. -/
def commentText (reach : Reach) : Text → Text
  | [] => []
  | head :: rest =>
      if reach.hides head then head :: commentText (reach.after head) rest
      else commentText (reach.after head) rest

section WithoutComments

variable {reach first second : Reach} {text left right : Text} {character : Char}

@[simp] theorem withoutComments_nil (reach : Reach) : withoutComments reach [] = [] := rfl

@[simp] theorem commentText_nil (reach : Reach) : commentText reach [] = [] := rfl

theorem withoutComments_cons_of_hides (hidden : reach.hides character = true) (rest : Text) :
    withoutComments reach (character :: rest) = withoutComments .comment rest := by
  rw [withoutComments, if_pos hidden, (Reach.after_of_hides hidden).2]

theorem withoutComments_cons (shown : reach.hides character = false) (rest : Text) :
    withoutComments reach (character :: rest)
      = character :: withoutComments (reach.after character) rest := by
  rw [withoutComments, if_neg (by simp [shown])]

theorem commentText_cons (shown : reach.hides character = false) (rest : Text) :
    commentText reach (character :: rest) = commentText (reach.after character) rest := by
  rw [commentText, if_neg (by simp [shown])]

theorem withoutComments_append (reach : Reach) (left right : Text) :
    withoutComments reach (left ++ right)
      = withoutComments reach left ++ withoutComments (reach.behind left) right := by
  induction left generalizing reach with
  | nil => rfl
  | cons head rest ih =>
      simp only [List.cons_append, withoutComments, Reach.behind_cons, ih]
      split <;> rfl

theorem commentText_append (reach : Reach) (left right : Text) :
    commentText reach (left ++ right)
      = commentText reach left ++ commentText (reach.behind left) right := by
  induction left generalizing reach with
  | nil => rfl
  | cons head rest ih =>
      simp only [List.cons_append, commentText, Reach.behind_cons, ih]
      split <;> rfl

theorem withoutComments_sublist (reach : Reach) (text : Text) :
    (withoutComments reach text).Sublist text := by
  induction text generalizing reach with
  | nil => exact List.Sublist.slnil
  | cons head rest ih =>
      rw [withoutComments]
      split
      · exact (ih _).cons head
      · exact (ih _).cons_cons head

/-- A text without percent signs outside comments is kept. -/
theorem withoutComments_of_notMem (open' : reach ≠ .comment) (noPercent : '%' ∉ text) :
    withoutComments reach text = text := by
  induction text generalizing reach with
  | nil => rfl
  | cons head rest ih =>
      rw [List.mem_cons, not_or] at noPercent
      rw [withoutComments_cons (Reach.hides_eq_false open' head),
        ih (Reach.after_ne_comment open' (Ne.symm noPercent.1)) noPercent.2]

/-- The first character of a text outside comments is kept. -/
theorem head?_withoutComments (open' : reach ≠ .comment) (text : Text) :
    (withoutComments reach text).head? = text.head? := by
  cases text with
  | nil => rfl
  | cons head rest => rw [withoutComments_cons (Reach.hides_eq_false open' head)]; rfl

/-- Cutting comments leaves what is open behind a text. -/
theorem Reach.Covers.behind_withoutComments (covers : first.Covers second) (text : Text) :
    first.behind (withoutComments second text) = first.behind text := by
  induction text generalizing first second with
  | nil => rfl
  | cons head rest ih =>
      cases hidden : second.hides head with
      | true =>
          obtain ⟨rfl, stays⟩ := Reach.after_of_hides hidden
          obtain rfl : first = .comment := covers.elim id id
          rw [withoutComments_cons_of_hides hidden, Reach.behind_cons, stays]
          exact ih (.inl rfl)
      | false =>
          rw [withoutComments_cons hidden, Reach.behind_cons, Reach.behind_cons,
            ih (covers.after head)]

/-- Text behind a place outside comments is not cut to nothing. -/
theorem size_withoutComments_lt (open' : reach.behind left ≠ .comment) (nonempty : right ≠ []) :
    (withoutComments reach left).size < (withoutComments reach (left ++ right)).size := by
  obtain ⟨head, rest, rfl⟩ := List.exists_cons_of_ne_nil nonempty
  have positive := head.utf8Size_pos
  rw [withoutComments_append, withoutComments_cons (Reach.hides_eq_false open' head),
    Text.size_append, Text.size_cons]
  omega

end WithoutComments

end LatexTabular.Markup
