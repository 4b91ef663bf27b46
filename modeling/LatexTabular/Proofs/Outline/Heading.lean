import LatexTabular.Proofs.Outline.Basic
import LatexTabular.Proofs.Sheet.Basic
import Mathlib.Data.List.InsertIdx

/-!
# Headings as specifiers

The text of a heading is read as its columns (`Heading.columns_text`), and what the
planners write for columns that come and go is the text of a heading again.
-/

namespace LatexTabular

open Specifier

namespace Specifier

theorem marks_of_forall {text : Text}
    (unbraced : ∀ character ∈ text, character ≠ '{' ∧ character ≠ '}') :
    marks 0 text = text.map fun character => ⟨character, false⟩ := by
  induction text with
  | nil => rfl
  | cons head rest ih =>
      obtain ⟨notOpening, notClosing⟩ := unbraced head List.mem_cons_self
      rw [marks, if_neg notOpening, if_neg notClosing,
        ih fun character member => unbraced character (List.mem_cons_of_mem _ member)]
      rfl

/-- The reading after bars that belong to the last column. -/
theorem foldl_take_bars (count : Nat) (last : Column) (earlier : List Column) :
    (List.replicate count (⟨'|', false⟩ : Mark)).foldl Reading.take ⟨last :: earlier, 0, []⟩
      = ⟨{ last with rightRules := last.rightRules + count } :: earlier, 0, []⟩ := by
  induction count generalizing last with
  | zero => rfl
  | succ count ih =>
      have isBar : Reading.take ⟨last :: earlier, 0, []⟩ ⟨'|', false⟩
          = ⟨{ last with rightRules := last.rightRules + 1 } :: earlier, 0, []⟩ := rfl
      rw [List.replicate_succ, List.foldl_cons, isBar, ih]
      simp only [Nat.add_assoc, Nat.add_comm 1 count]

/-- The reading after bars that wait for a column. -/
theorem foldl_take_waiting_bars (count rules : Nat) :
    (List.replicate count (⟨'|', false⟩ : Mark)).foldl Reading.take ⟨[], rules, []⟩
      = ⟨[], rules + count, []⟩ := by
  induction count generalizing rules with
  | zero => rfl
  | succ count ih =>
      have isBar : Reading.take ⟨[], rules, []⟩ ⟨'|', false⟩ = ⟨[], rules + 1, []⟩ := rfl
      rw [List.replicate_succ, List.foldl_cons, isBar, ih]
      simp only [Nat.add_assoc, Nat.add_comm 1 count]

end Specifier

namespace Letter

/-- The marks of a letter without braces. -/
def marks (letter : Letter) : List Mark :=
  letter.text.map fun character => ⟨character, false⟩

/-- A letter makes a column, to which the bars behind it belong. -/
theorem foldl_take (letter : Letter) (isLetter : Text.isLetter letter.letter = true) (rules : Nat)
    (earlier : List Column) :
    letter.marks.foldl Reading.take ⟨earlier, rules, []⟩
      = ⟨letter.column rules :: earlier, 0, []⟩ := by
  have bars : (List.replicate letter.bars '|').map (fun character => (⟨character, false⟩ : Mark))
      = List.replicate letter.bars ⟨'|', false⟩ := by simp
  have first : Reading.take ⟨earlier, rules, []⟩ ⟨letter.letter, false⟩
      = ⟨{ letter.column rules with rightRules := 0 } :: earlier, 0, []⟩ := by
    simp [Reading.take, Mark.makesColumn, isLetter, column]
  rw [marks, text, List.map_cons, bars, List.foldl_cons, first, foldl_take_bars]
  simp [column]

end Letter

namespace Heading

/-- A heading of letters, of which there is at least one. -/
structure WellFormed (heading : Heading) : Prop where
  nonempty : heading.letters ≠ []
  letters : ∀ letter ∈ heading.letters, Text.isLetter letter.letter = true

variable {heading : Heading}

theorem text_ofText (text : Text) : (ofText text).text = text := by
  induction text with
  | nil => rfl
  | cons character rest ih =>
      rw [ofText]
      split
      next isBar =>
        subst isBar
        rw [Heading.text, List.replicate_succ, List.cons_append]
        exact congrArg _ ih
      next =>
        rw [Heading.text, List.replicate_zero, List.nil_append, List.flatMap_cons, Letter.text,
          List.cons_append]
        exact congrArg _ ih

theorem length_letters_ofText {text : Text} (barred : text.IsBarred) :
    (ofText text).letters.length = text.countP Text.isLetter := by
  have bar : Text.isLetter '|' = false := by decide
  induction text with
  | nil => rfl
  | cons character rest ih =>
      have others := ih fun other member => barred other (List.mem_cons_of_mem _ member)
      rw [ofText]
      rcases barred character List.mem_cons_self with isLetter | rfl
      · have notBar : character ≠ '|' := by
          rintro rfl
          exact absurd isLetter (by decide)
        rw [if_neg notBar, List.length_cons, others, List.countP_cons_of_pos isLetter]
      · rw [if_pos rfl, List.countP_cons_of_neg (by simp [bar]), others]

theorem isLetter_of_mem_ofText {text : Text} (barred : text.IsBarred) :
    ∀ letter ∈ (ofText text).letters, Text.isLetter letter.letter = true := by
  induction text with
  | nil => exact fun letter member => absurd member List.not_mem_nil
  | cons character rest ih =>
      have others := ih fun other member => barred other (List.mem_cons_of_mem _ member)
      intro letter member
      rw [ofText] at member
      split at member
      next => exact others letter member
      next notBar =>
        rcases List.mem_cons.mp member with rfl | member
        · exact (barred character List.mem_cons_self).resolve_right notBar
        · exact others letter member

/-- A specifier of letters and bars with at least one letter is that of its heading. -/
theorem wellFormed_ofText {text : Text} (barred : text.IsBarred)
    (nonempty : text.countP Text.isLetter ≠ 0) : (ofText text).WellFormed := by
  refine ⟨?_, isLetter_of_mem_ofText barred⟩
  rw [← length_letters_ofText barred, ne_eq, List.length_eq_zero_iff] at nonempty
  exact nonempty

theorem isBarred_text (wellFormed : heading.WellFormed) : heading.text.IsBarred := by
  intro character member
  rcases List.mem_append.mp member with inFront | inLetters
  · exact Or.inr (List.eq_of_mem_replicate inFront)
  · obtain ⟨letter, isLetter, inLetter⟩ := List.mem_flatMap.mp inLetters
    cases inLetter with
    | head => exact Or.inl (wellFormed.letters letter isLetter)
    | tail _ inBars => exact Or.inr (List.eq_of_mem_replicate inBars)

theorem foldl_take_letters {letters : List Letter}
    (areLetters : ∀ letter ∈ letters, Text.isLetter letter.letter = true) (earlier : List Column) :
    (letters.flatMap Letter.marks).foldl Reading.take ⟨earlier, 0, []⟩
      = ⟨(letters.map (Letter.column 0)).reverse ++ earlier, 0, []⟩ := by
  induction letters generalizing earlier with
  | nil => rfl
  | cons letter rest ih =>
      have first := letter.foldl_take (areLetters letter List.mem_cons_self) 0 earlier
      have others := ih (fun other member => areLetters other (List.mem_cons_of_mem _ member))
        (letter.column 0 :: earlier)
      rw [List.flatMap_cons, List.foldl_append, first, others]
      simp

/-- A heading is read as its columns. -/
theorem columns_text (wellFormed : heading.WellFormed) :
    Specifier.columns heading.text = heading.columns := by
  obtain ⟨bars, letters⟩ := heading
  cases letters with
  | nil => exact absurd rfl wellFormed.nonempty
  | cons letter rest =>
      have unbraced : ∀ character ∈ (Heading.mk bars (letter :: rest)).text,
          character ≠ '{' ∧ character ≠ '}' := by
        intro character member
        rcases isBarred_text wellFormed character member with isLetter | rfl
        · constructor <;> rintro rfl <;> exact absurd isLetter (by decide)
        · decide
      have marksEq : (Heading.mk bars (letter :: rest)).text.map
          (fun character => (⟨character, false⟩ : Mark))
            = List.replicate bars ⟨'|', false⟩
              ++ (letter.marks ++ rest.flatMap Letter.marks) := by
        simp only [text, List.flatMap_cons, List.map_append, List.map_replicate,
          List.map_flatMap]
        rfl
      have areLetters (other : Letter) (member : other ∈ rest) :=
        wellFormed.letters other (List.mem_cons_of_mem _ member)
      have isLetter := wellFormed.letters letter List.mem_cons_self
      rw [Specifier.columns, marks_of_forall unbraced, marksEq, List.foldl_append,
        List.foldl_append, Reading.start, foldl_take_waiting_bars, Nat.zero_add,
        letter.foldl_take isLetter, foldl_take_letters areLetters]
      cases reversed : (rest.map (Letter.column 0)).reverse with
      | nil =>
          obtain rfl : rest = [] := by simpa using reversed
          simp [Reading.finish, columns, Letter.column]
      | cons last others =>
          have restEq : rest.map (Letter.column 0) = others.reverse ++ [last] := by
            rw [← List.reverse_reverse (rest.map _), reversed, List.reverse_cons]
          simp [Reading.finish, columns, restEq]

theorem length_columns (heading : Heading) : heading.columns.length = heading.letters.length := by
  unfold columns
  cases heading.letters with
  | nil => rfl
  | cons first rest => simp

theorem render_column (letter : Letter) (bars : Nat) :
    (letter.column bars).render = List.replicate bars '|' ++ letter.text := by
  simp [Column.render, Letter.column, Letter.text]

theorem render_letters (letters : List Letter) :
    Specifier.render (letters.map (Letter.column 0)) = letters.flatMap Letter.text := by
  simp [Specifier.render, List.flatMap_map, render_column]

/-- The columns of a heading are written as its text. -/
theorem render_columns (heading : Heading) (nonempty : heading.letters ≠ []) :
    Specifier.render heading.columns = heading.text := by
  obtain ⟨bars, letters⟩ := heading
  cases letters with
  | nil => exact absurd rfl nonempty
  | cons first rest =>
      have others := render_letters rest
      simp only [Specifier.render] at others ⊢
      simp [columns, text, render_column, others]

/-- A new column is written as its letter. -/
theorem render_insertIdx (index : Nat) (nonempty : heading.letters ≠ []) :
    Specifier.render (heading.columns.insertIdx index (.plain .left))
      = (heading.insertColumn index).text := by
  have whole := heading.render_columns nonempty
  obtain ⟨bars, letters⟩ := heading
  cases letters with
  | nil => exact absurd rfl nonempty
  | cons first rest =>
      cases index with
      | zero =>
          have newColumn : (Column.plain .left).render = ['l'] := by decide
          simp only [Specifier.render] at whole ⊢
          simp [whole, newColumn, insertColumn, text, Letter.text, Letter.plain]
      | succ index =>
          have newColumn : Column.plain .left = Letter.column 0 .plain := rfl
          have others : (rest.map (Letter.column 0)).insertIdx index (.plain .left)
              = (rest.insertIdx index .plain).map (Letter.column 0) := by
            rw [newColumn, List.map_insertIdx]
          have rendered := render_letters (rest.insertIdx index .plain)
          simp only [Specifier.render] at rendered ⊢
          simp [columns, others, rendered, insertColumn, text, render_column]

theorem columns_of_bars_eq_zero (letters : List Letter) :
    (Heading.mk 0 letters).columns = letters.map (Letter.column 0) := by
  cases letters with
  | nil => rfl
  | cons first rest => rfl

/-- The columns that stay are those of the heading without the others. -/
theorem take_append_drop_columns (heading : Heading) (left right : Nat) :
    heading.columns.take left ++ heading.columns.drop (right + 1)
      = (heading.removeColumns left right).columns := by
  obtain ⟨bars, letters⟩ := heading
  cases letters with
  | nil => simp [columns, removeColumns]
  | cons first rest =>
      cases left with
      | zero =>
          have others := columns_of_bars_eq_zero (rest.drop right)
          rw [List.map_drop] at others
          simpa [removeColumns, columns] using others.symm
      | succ left => simp [removeColumns, columns, List.map_take, List.map_drop]

/-- The first column without rules is written as its letter. -/
theorem render_take_one (heading : Heading) (nonempty : heading.letters ≠ []) :
    Specifier.render ((heading.columns.take 1).map fun column =>
        { column with leftRules := 0, rightRules := 0 })
      = heading.cleared.text := by
  obtain ⟨bars, letters⟩ := heading
  cases letters with
  | nil => exact absurd rfl nonempty
  | cons first rest =>
      simp [columns, cleared, text, Specifier.render, Column.render, Letter.column, Letter.text]

theorem length_insertColumn {index : Nat} (within : index ≤ heading.letters.length) :
    (heading.insertColumn index).letters.length = heading.letters.length + 1 := by
  unfold insertColumn
  split
  · rfl
  · exact List.length_insertIdx_of_le_length within _

theorem length_removeColumns {left right : Nat} (ordered : left ≤ right)
    (within : right < heading.letters.length) :
    (heading.removeColumns left right).letters.length + (right + 1 - left)
      = heading.letters.length := by
  simp only [removeColumns, List.length_append, List.length_take, List.length_drop]
  omega

namespace WellFormed

theorem insertColumn (wellFormed : heading.WellFormed) (index : Nat) :
    (heading.insertColumn index).WellFormed := by
  have plain : Text.isLetter Letter.plain.letter = true := by decide
  unfold Heading.insertColumn
  split
  · refine ⟨List.cons_ne_nil _ _, ?_⟩
    intro letter member
    cases member with
    | head => exact plain
    | tail _ member => exact wellFormed.letters letter member
  · constructor
    · intro (empty : heading.letters.insertIdx index .plain = [])
      have longer := @List.length_le_length_insertIdx _ heading.letters .plain index
      rw [empty, List.length_nil, Nat.le_zero, List.length_eq_zero_iff] at longer
      exact wellFormed.nonempty longer
    · intro letter member
      rcases List.eq_or_mem_of_mem_insertIdx member with rfl | member
      · exact plain
      · exact wellFormed.letters letter member

theorem removeColumns (wellFormed : heading.WellFormed) {left right : Nat}
    (remaining : (heading.removeColumns left right).letters ≠ []) :
    (heading.removeColumns left right).WellFormed := by
  refine ⟨remaining, ?_⟩
  intro letter member
  rcases List.mem_append.mp member with inFront | behind
  · exact wellFormed.letters letter (List.mem_of_mem_take inFront)
  · exact wellFormed.letters letter (List.mem_of_mem_drop behind)

theorem cleared (wellFormed : heading.WellFormed) : heading.cleared.WellFormed := by
  obtain ⟨bars, letters⟩ := heading
  cases letters with
  | nil => exact absurd rfl wellFormed.nonempty
  | cons first rest =>
      refine ⟨List.cons_ne_nil _ _, ?_⟩
      rintro letter ⟨⟩
      · exact wellFormed.letters first List.mem_cons_self
      · contradiction

end WellFormed

end Heading

end LatexTabular
