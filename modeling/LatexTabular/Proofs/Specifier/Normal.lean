import LatexTabular.Proofs.Outline.Bare
import LatexTabular.Proofs.Specifier.Rewriting

/-!
# Specifiers in normal form

Writing the columns of a specifier again brings it into a normal form: no blanks, and the bars
between two columns directly behind the first of them.  It loses neither markup nor bars if there
is a column at all (`Specifier.render_columns_conserves`), and the columns are read as they were,
with the bars between two of them behind the first, so that the normal form of a normal form is
the form itself (`Specifier.render_columns_settles`).
-/

namespace LatexTabular.Specifier

/-- A specifier without its blanks; those within brace groups are none. -/
def removeSpaces (specifier : Text) : Text :=
  ((marks 0 specifier).filter (!·.isSpace)).map (·.character)

/-! ## What is left of a specifier -/

theorem Mark.isRule_eq_false {mark : Mark} (noBar : mark.character ≠ '|') :
    mark.isRule = false := by
  simp [isRule, noBar]

/-- What is within braces and what outside stays so when the rules go. -/
theorem marks_filter_isRule (depth : Nat) (text : Text) :
    marks depth (((marks depth text).filter (!·.isRule)).map (·.character))
      = (marks depth text).filter (!·.isRule) := by
  induction text generalizing depth with
  | nil => rfl
  | cons character rest ih =>
      by_cases opening : character = '{'
      · subst opening
        have noRule : Mark.isRule ⟨'{', true⟩ = false := Mark.isRule_eq_false (by decide)
        simp [marks, noRule, ih]
      · by_cases closing : character = '}'
        · subst closing
          have noRule : Mark.isRule ⟨'}', depth != 0⟩ = false := Mark.isRule_eq_false (by simp)
          simp [marks, noRule, ih]
        · cases isRule : Mark.isRule ⟨character, depth != 0⟩ <;>
            simp [marks, opening, closing, isRule, ih]

theorem marks_removeRules (specifier : Text) :
    marks 0 (removeRules specifier) = (marks 0 specifier).filter (!·.isRule) :=
  marks_filter_isRule 0 specifier

theorem Piece.filter_isRule_marks (piece : Piece) :
    piece.marks.filter (!·.isRule) = if !piece.isRule then piece.marks else [] := by
  cases piece with
  | symbol character =>
      by_cases bar : character = '|' <;> simp [isRule, marks, Mark.isRule, bar]
  | group text => simp [isRule, marks, Mark.isRule, List.filter_map, Function.comp_def]

theorem removeRules_eq (specifier : Text) :
    removeRules specifier = textOf ((pieces specifier).filter (!·.isRule)) := by
  rw [removeRules, ← flatMap_marks_pieces, ← flatMap_marks_filter Piece.filter_isRule_marks,
    map_character_flatMap_marks]

/-- Without its rules and blanks, a specifier is the text of its markup. -/
theorem removeSpaces_removeRules (specifier : Text) :
    removeSpaces (removeRules specifier) = textOf (ink (pieces specifier)) := by
  rw [removeSpaces, marks_removeRules, ← flatMap_marks_pieces,
    ← flatMap_marks_filter Piece.filter_isRule_marks,
    ← flatMap_marks_filter Piece.filter_isSpace_marks, map_character_flatMap_marks,
    List.filter_filter, ink]
  exact congrArg textOf (List.filter_congr fun piece _ => Bool.and_comm _ _)

theorem countP_isRule_marks (specifier : Text) :
    (marks 0 specifier).countP Mark.isRule = ruleCount (pieces specifier) := by
  rw [← flatMap_marks_pieces, countP_isRule_flatMap_marks]

/-! ## The number of columns -/

theorem Reading.length_take (reading : Reading) (mark : Mark) :
    (reading.take mark).columns.length
      = reading.columns.length + if mark.makesColumn then 1 else 0 := by
  cases makesColumn : mark.makesColumn with
  | true => simp [take, makesColumn]
  | false =>
      simp only [take, makesColumn, Bool.false_eq_true, if_false, Nat.add_zero]
      split
      · rfl
      · split <;> split_ifs <;> rfl

theorem Reading.length_foldl_take (reading : Reading) (all : List Mark) :
    (all.foldl take reading).columns.length
      = reading.columns.length + all.countP Mark.makesColumn := by
  induction all generalizing reading with
  | nil => rfl
  | cons mark rest ih =>
      rw [List.foldl_cons, ih, length_take, List.countP_cons, Nat.add_assoc,
        Nat.add_comm (ite _ _ _)]

theorem Reading.length_finish (reading : Reading) :
    reading.finish.length = reading.columns.length := by
  unfold finish
  split <;> simp [*]

/-- Every letter outside braces makes a column, whether or not the braces are closed. -/
theorem length_columns (specifier : Text) :
    (columns specifier).length = (marks 0 specifier).countP Mark.makesColumn := by
  rw [columns, Reading.length_finish, Reading.length_foldl_take]
  exact Nat.zero_add _

/-- A specifier has a column if a letter stands outside its braces. -/
theorem columns_ne_nil_iff {specifier : Text} :
    columns specifier ≠ [] ↔ ∃ mark ∈ marks 0 specifier, mark.makesColumn = true := by
  rw [← List.length_pos_iff, length_columns, List.countP_pos_iff]

/-! ## Written columns -/

section Fields

variable {fields : List Field}

/-- The markup of a field is the same with other bars. -/
theorem Field.ink_pieces_withBars (left right : Nat) (field : Field) :
    ink (field.withBars left right).pieces = ink field.pieces := by
  rw [pieces, pieces, ink_append, ink_append, ink_cons, ink_cons (.symbol field.letter)]
  simp [withBars]

theorem Field.ruleCount_pieces (field : Field) :
    ruleCount field.pieces
      = ruleCount field.front + (ruleCount [.symbol field.letter] + ruleCount field.back) := by
  rw [pieces, ruleCount_append, ruleCount_cons]

/-- Columns are written with the markup of their fields, in its order. -/
theorem ink_pieces_render_map (linked : Linked fields) :
    ink (pieces (render (fields.map Field.column))) = ink (fields.flatMap Field.pieces) := by
  rw [pieces_render linked, List.flatMap_map, ink, ink, List.filter_flatMap, List.filter_flatMap]
  exact List.flatMap_congr fun field _ => field.ink_pieces_withBars _ _

/-- Columns are written with the bars of their fields. -/
theorem ruleCount_pieces_render (linked : Linked fields) :
    ruleCount (pieces (render (fields.map Field.column)))
      = ruleCount (fields.flatMap Field.pieces) := by
  have each (field : Field) : ruleCount field.written.pieces = ruleCount field.pieces := by
    simp [Field.ruleCount_pieces, Field.written]
  simp only [ruleCount] at each
  simp [pieces_render linked, ruleCount, List.countP_flatMap, each, Function.comp_def]

end Fields

section Shown

variable (specifier : Text)

theorem ink_shown : ink (shown specifier) = ink (pieces specifier) := by
  rw [ink, ink, shown, List.filter_filter]
  exact List.filter_congr fun piece _ => by simp [Piece.isInk]

theorem ruleCount_shown : ruleCount (shown specifier) = ruleCount (pieces specifier) := by
  rw [ruleCount, ruleCount, shown, List.countP_filter]
  refine List.countP_congr fun piece _ => ?_
  cases piece with
  | symbol character =>
      by_cases bar : character = '|'
      · have notBlank : Text.isBlank '|' = false := by decide
        simp [Piece.isRule, Piece.isSpace, bar, notBlank]
      · simp [Piece.isRule, bar]
  | group text => simp [Piece.isRule]

end Shown

/-- Letters and bars with at least one letter are in normal form already. -/
theorem render_columns_of_isBarred {specifier : Text} (barred : specifier.IsBarred)
    (nonempty : columns specifier ≠ []) : render (columns specifier) = specifier := by
  have wellFormed : (Heading.ofText specifier).WellFormed := by
    refine Heading.wellFormed_ofText barred fun none => nonempty ?_
    rw [← List.length_eq_zero_iff, (columns_of_isBarred barred).2, none]
  calc render (columns specifier)
      = render (columns (Heading.ofText specifier).text) := by rw [Heading.text_ofText]
    _ = render (Heading.ofText specifier).columns := by rw [Heading.columns_text wellFormed]
    _ = (Heading.ofText specifier).text := Heading.render_columns _ wellFormed.nonempty
    _ = specifier := Heading.text_ofText specifier

section Closed

variable {specifier : Text} (closed : Closed specifier)
include closed

theorem fields_ne_nil (nonempty : columns specifier ≠ []) : fields specifier ≠ [] := by
  intro none
  exact nonempty (by rw [columns_eq_map_column closed, none, List.map_nil])

/-- Writing the columns of a specifier again keeps its markup and the number of its bars.  The
columns are as many as the letters outside braces, and where nothing but letters and bars
stands, the specifier itself is written. -/
theorem render_columns_conserves
    (lettered : ∃ mark ∈ marks 0 specifier, mark.makesColumn = true) :
    removeSpaces (removeRules (render (columns specifier)))
        = removeSpaces (removeRules specifier) ∧
      (marks 0 (render (columns specifier))).countP Mark.isRule
        = (marks 0 specifier).countP Mark.isRule ∧
      (columns specifier).length = (marks 0 specifier).countP Mark.makesColumn ∧
      (specifier.IsBarred → render (columns specifier) = specifier) := by
  have nonempty : columns specifier ≠ [] := columns_ne_nil_iff.mpr lettered
  have linked := linked_fields closed
  have shownPieces := flatMap_pieces_fields (fields_ne_nil closed nonempty)
  refine ⟨?_, ?_, length_columns specifier, fun barred =>
    render_columns_of_isBarred barred nonempty⟩
  · rw [removeSpaces_removeRules, removeSpaces_removeRules, columns_eq_map_column closed,
      ink_pieces_render_map linked, shownPieces, ink_shown]
  · rw [countP_isRule_marks, countP_isRule_marks, columns_eq_map_column closed,
      ruleCount_pieces_render linked, shownPieces, ruleCount_shown]

end Closed

/-- A specifier of two columns with a bar among the markup in front of the second. -/
def adorned : Text := "|l @|\x7b|\x7dp\x7b2cm\x7d| |@\x7b\x7d".toList

theorem render_columns_conserves_adorned :
    removeSpaces (removeRules (render (columns adorned))) = removeSpaces (removeRules adorned) ∧
      (marks 0 (render (columns adorned))).countP Mark.isRule = 4 ∧
      (columns adorned).length = 2 ∧
      render (columns "|l||c".toList) = "|l||c".toList := by
  have closed : Closed adorned := by decide
  have bare : Closed "|l||c".toList := by decide
  have barred : Text.IsBarred "|l||c".toList := by simp [Text.IsBarred, Text.isLetter]
  obtain ⟨markup, rules, length, -⟩ := render_columns_conserves closed (by decide)
  obtain ⟨-, -, -, rewritten⟩ := render_columns_conserves bare (by decide)
  exact ⟨markup, rules, length, rewritten barred⟩

/-! ## Columns that are read again -/

theorem getElem_settleBehind (first : Column) (rest : List Column) (index : Nat)
    (within : index < (settleBehind first rest).length) (before : index < (first :: rest).length) :
    (settleBehind first rest)[index]
      = { (first :: rest)[index] with
          leftRules := if index = 0 then (first :: rest)[index].leftRules else 0
          rightRules := (first :: rest)[index].rightRules
            + (first :: rest)[index + 1]?.elim 0 (·.leftRules) } := by
  induction rest generalizing first index with
  | nil =>
      obtain rfl : index = 0 := Nat.lt_one_iff.mp before
      rfl
  | cons next later ih =>
      cases index with
      | zero => rfl
      | succ index =>
          have inTail := ih { next with leftRules := 0 } index (Nat.lt_of_succ_lt_succ within)
            (Nat.lt_of_succ_lt_succ before)
          simp only [settleBehind, List.getElem_cons_succ, inTail]
          cases index <;> simp

/-- Of settled columns only the first has bars in front, and each has those of the next behind. -/
theorem getElem_settle (columns : List Column) (index : Nat)
    (within : index < (settle columns).length) (before : index < columns.length) :
    (settle columns)[index]
      = { columns[index] with
          leftRules := if index = 0 then columns[index].leftRules else 0
          rightRules := columns[index].rightRules
            + columns[index + 1]?.elim 0 (·.leftRules) } := by
  cases columns with
  | nil => exact absurd before (Nat.not_lt_zero _)
  | cons first rest => exact getElem_settleBehind first rest index within before

/-- What holds of columns that are read where others were written: the bars between two of them
stand behind the first. -/
structure Settles (written read : List Column) : Prop where
  alignments : read.map (·.alignment) = written.map (·.alignment)
  markups : read.map (·.markup) = written.map (·.markup)
  leftRules : ∀ index (within : index < read.length) (before : index < written.length),
    read[index].leftRules = if index = 0 then written[index].leftRules else 0
  rightRules : ∀ index (within : index < read.length) (before : index < written.length),
    read[index].rightRules
      = written[index].rightRules + written[index + 1]?.elim 0 (·.leftRules)

theorem settles_settle (columns : List Column) : Settles columns (settle columns) := by
  obtain ⟨alignments, markups⟩ := Column.map_of_map_unruled (map_unruled_settle columns)
  refine ⟨alignments, markups, fun index within before => ?_, fun index within before => ?_⟩
  · rw [getElem_settle columns index within before]
  · rw [getElem_settle columns index within before]

/-- Written columns are read as they were, with the bars between two of them behind the first, and
are then written alike. -/
theorem render_columns_settles {specifier : Text} (closed : Closed specifier) :
    Settles (columns specifier) (columns (render (columns specifier))) ∧
      render (columns (render (columns specifier))) = render (columns specifier) := by
  have readAgain : columns (render (columns specifier)) = settle (columns specifier) := by
    rw [columns_eq_map_column closed, columns_render (linked_fields closed)]
  rw [readAgain]
  exact ⟨settles_settle _, render_settle _⟩

/-- The bar among the markup of the second column is read behind the first. -/
theorem render_columns_settles_adorned :
    (columns adorned).map (·.rightRules) = [0, 2] ∧
      (columns (render (columns adorned))).map (·.rightRules) = [1, 2] ∧
      Settles (columns adorned) (columns (render (columns adorned))) ∧
      render (columns (render (columns adorned))) = render (columns adorned) :=
  ⟨by decide, by decide, render_columns_settles (by decide)⟩

end LatexTabular.Specifier
