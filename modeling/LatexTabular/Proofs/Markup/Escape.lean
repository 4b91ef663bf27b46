import LatexTabular.Proofs.Markup.Comment
import LatexTabular.Proofs.Text.Descent
import Mathlib.Algebra.Group.Nat.Even

/-!
# Percent signs behind backslashes

Of a run of backslashes every second one is hidden by the one in front of it.  So outside comments
the run at the end of a text says whether its last backslash hides the next character
(`Reach.behind_eq_of_ne_comment`), and a percent sign opens a comment exactly when it stands
behind an even number of backslashes (`Reach.behind_eq_comment_iff`).
-/

namespace LatexTabular.Markup

open Text

/-- The number of backslashes that a text ends with. -/
def endingBackslashes (text : Text) : Nat := (text.rtakeWhile (· == '\\')).length

@[simp] theorem endingBackslashes_nil : endingBackslashes [] = 0 := rfl

@[simp] theorem endingBackslashes_append_backslash (text : Text) :
    endingBackslashes (text ++ ['\\']) = endingBackslashes text + 1 := by
  rw [endingBackslashes, List.rtakeWhile_concat_pos _ _ _ rfl, List.length_append]
  rfl

theorem endingBackslashes_append {last : Char} (noBackslash : last ≠ '\\') (text : Text) :
    endingBackslashes (text ++ [last]) = 0 := by
  rw [endingBackslashes, List.rtakeWhile_concat_neg _ _ _ (by simpa using noBackslash)]
  rfl

namespace Reach

variable {text : Text}

/-- Outside comments an even number of backslashes at the end of a text hides nothing, and of an
odd number the last one hides a character. -/
theorem behind_eq_of_ne_comment (open' : nothing.behind text ≠ comment) :
    nothing.behind text = if Even (endingBackslashes text) then nothing else backslash := by
  induction text using List.reverseRecOn with
  | nil => simp
  | append_singleton front last ih =>
      rw [behind_append, behind_cons, behind_nil] at open' ⊢
      by_cases isBackslash : last = '\\'
      · subst isBackslash
        have openFront : nothing.behind front ≠ comment := by
          intro earlier
          rw [earlier] at open'
          exact open' rfl
        rw [ih openFront]
        by_cases even : Even (endingBackslashes front)
        · simp [after, Nat.even_add_one, even]
        · simp [after, Nat.even_add_one, even]
      · rw [endingBackslashes_append isBackslash, if_pos Even.zero]
        have noBackslash := @after_ne_backslash (nothing.behind front) last isBackslash
        cases state : (nothing.behind front).after last <;> simp_all

/-- On one line a percent sign opens a comment if it stands behind an even number of
backslashes. -/
theorem behind_eq_comment_iff (unbroken : '\n' ∉ text) :
    nothing.behind text = comment ↔
      ∃ lead rest, text = lead ++ '%' :: rest ∧ Even (endingBackslashes lead) := by
  constructor
  · intro opened
    -- Either a comment is open in front of the last character, or that character opens one.
    induction text using List.reverseRecOn with
    | nil => cases opened
    | append_singleton front last ih =>
        rw [behind_append, behind_cons, behind_nil] at opened
        by_cases earlier : nothing.behind front = comment
        · have unbrokenFront : '\n' ∉ front := fun member =>
            unbroken (List.mem_append_left _ member)
          obtain ⟨lead, rest, rfl, even⟩ := ih unbrokenFront earlier
          exact ⟨lead, rest ++ [last], by simp, even⟩
        · obtain rfl : last = '%' := by
            by_contra noPercent
            exact after_ne_comment earlier noPercent opened
          refine ⟨front, [], rfl, ?_⟩
          by_contra odd
          rw [behind_eq_of_ne_comment earlier, if_neg odd] at opened
          cases opened
  · rintro ⟨lead, rest, rfl, even⟩
    rw [List.mem_append, not_or] at unbroken
    rw [behind_append]
    by_cases earlier : nothing.behind lead = comment
    · rw [earlier, comment_behind unbroken.2]
    · rw [behind_eq_of_ne_comment earlier, if_pos even, behind_cons]
      exact comment_behind fun member => unbroken.2 (List.mem_cons_of_mem _ member)

end Reach

section Documents

variable {document before left right after : Text} {offset : Nat}

/-- Whether an offset of a line lies in a comment can be read off the part of the line in front
of it. -/
theorem isCommented_iff_of_aroundLine
    (around : AroundLine document before (left ++ right) after) :
    isCommented document (before ++ left).size = true ↔
      ∃ lead rest, left = lead ++ '%' :: rest ∧ Even (endingBackslashes lead) := by
  have unbroken := around.unbroken
  rw [List.mem_append, not_or] at unbroken
  have parts : document = (before ++ left) ++ (right ++ after) := by simp [around.document_eq]
  have taken : document.takeBytes (before ++ left).size = before ++ left := by
    rw [parts, takeBytes_size_append]
  rw [isCommented, taken, lastLine_append unbroken.1 around.behindBreak,
    opensComment_iff unbroken.1, Reach.behind_eq_comment_iff unbroken.1]

/-- The percent signs between two offsets of a document are those of the text between them. -/
theorem spells_percent_iff (documentEq : document = before ++ left ++ right) :
    before.size ≤ offset ∧ offset < (before ++ left).size ∧
        document.Spells ⟨offset, offset + 1⟩ ['%'] ↔
      ∃ lead rest, left = lead ++ '%' :: rest ∧ offset = (before ++ lead).size := by
  constructor
  · rintro ⟨behind, less, front, back, frontEq, spanEq⟩
    obtain ⟨rfl, -⟩ := Span.mk.inj spanEq
    have isFront : front <+: document := ⟨['%'] ++ back, by rw [frontEq, List.append_assoc]⟩
    have isBefore : before <+: document := ⟨left ++ right, by rw [documentEq, List.append_assoc]⟩
    obtain ⟨lead, rfl⟩ := isPrefix_of_size_le isBefore isFront behind
    have reaches : (before ++ lead ++ ['%']).size ≤ (before ++ left).size := by
      rw [size_append _ ['%']]
      exact less
    obtain ⟨rest, restEq⟩ := isPrefix_of_size_le ⟨back, frontEq.symm⟩ ⟨right, documentEq.symm⟩
      reaches
    rw [List.append_assoc, List.append_assoc, List.append_cancel_left_eq] at restEq
    exact ⟨lead, rest, by simp [← restEq], rfl⟩
  · rintro ⟨lead, rest, rfl, rfl⟩
    refine ⟨by simp, ?_, before ++ lead, rest ++ right, by simp [documentEq], rfl⟩
    have positive := Char.utf8Size_pos '%'
    simp only [size_append, size_cons]
    omega

/-- A boundary lies in a comment exactly when a percent sign stands in front of it on its line,
behind an even number of backslashes there. -/
theorem isCommented_iff_exists_percent (boundary : document.isBoundary offset = true) :
    IsLineOf document offset (document.lineAt offset) ∧
      (isCommented document offset = true ↔
        ∃ percent, (document.lineAt offset).span.start ≤ percent ∧ percent < offset ∧
          document.Spells ⟨percent, percent + 1⟩ ['%'] ∧
          Even (endingBackslashes
            (document.slice ⟨(document.lineAt offset).span.start, percent⟩))) := by
  refine ⟨(isLineOf_iff boundary).mpr rfl, ?_⟩
  obtain ⟨before, left, right, after, around, rfl⟩ := exists_aroundLine boundary
  have documentEq : document = before ++ left ++ (right ++ after) := by simp [around.document_eq]
  have slice_eq {lead rest : Text} (parts : left = lead ++ rest) :
      document.slice ⟨before.size, (before ++ lead).size⟩ = lead := by
    have spells : document.Spells ⟨before.size, (before ++ lead).size⟩ lead :=
      ⟨before, rest ++ (right ++ after), by simp [documentEq, parts], by rw [size_append]⟩
    exact spells.slice_eq
  rw [isCommented_iff_of_aroundLine around, around.lineAt_eq]
  constructor
  · rintro ⟨lead, rest, parts, even⟩
    obtain ⟨behind, less, spells⟩ := (spells_percent_iff documentEq).mpr ⟨lead, rest, parts, rfl⟩
    refine ⟨(before ++ lead).size, behind, less, spells, ?_⟩
    simpa only [lineBehind, slice_eq parts] using even
  · rintro ⟨percent, behind, less, spells, even⟩
    obtain ⟨lead, rest, parts, rfl⟩ := (spells_percent_iff documentEq).mp ⟨behind, less, spells⟩
    refine ⟨lead, rest, parts, ?_⟩
    simpa only [lineBehind, slice_eq parts] using even

/-- Behind two backslashes a percent sign opens a comment. -/
theorem isCommented_iff_exists_percent_secondLine :
    Text.isBoundary "\\%\n\\\\%é".toList 8 = true ∧
      isCommented "\\%\n\\\\%é".toList 8 = true := by
  have boundary : Text.isBoundary "\\%\n\\\\%é".toList 8 = true := by decide
  have found := (isCommented_iff_exists_percent boundary).2.mpr
  refine ⟨boundary, found ⟨5, by decide, by decide, ?_, by decide⟩⟩
  exact ⟨"\\%\n\\\\".toList, "é".toList, by decide, by decide⟩

end Documents

end LatexTabular.Markup
