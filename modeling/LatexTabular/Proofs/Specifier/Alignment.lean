import LatexTabular.Command.Style
import LatexTabular.Proofs.Specifier.Rewriting

/-!
# Aligned specifiers
-/

namespace LatexTabular.Specifier

/-- Markup in front of a letter is what stands there. -/
theorem markupBeforeLetter_textOf {front : List Piece}
    (areBeside : ∀ piece ∈ front, piece.IsBeside) {letter : Char} (isLetter : Text.isLetter letter)
    (rest : Text) : Column.markupBeforeLetter (textOf front ++ letter :: rest) = textOf front := by
  have areWhole : ∀ piece ∈ front, piece.IsWhole := fun piece member =>
    (areBeside piece member).whole
  have noBrace : letter ≠ '{' ∧ letter ≠ '}' := by
    constructor <;> rintro rfl <;> exact absurd isLetter (by decide)
  have marksEq : marks 0 (textOf front ++ letter :: rest)
      = front.flatMap Piece.marks ++ ⟨letter, false⟩ :: marks 0 rest := by
    rw [← flatMap_marks_pieces, pieces_append areWhole, List.flatMap_append,
      flatMap_marks_pieces]
    simp [marks, noBrace]
  have noLetter : ∀ mark ∈ front.flatMap Piece.marks, (!mark.makesColumn) = true := by
    intro mark member
    obtain ⟨piece, isPiece, inPiece⟩ := List.mem_flatMap.mp member
    rw [Piece.marks_of_letter?_eq_none (areBeside piece isPiece).noLetter mark inPiece]
    rfl
  have before : (marks 0 (textOf front ++ letter :: rest)).takeWhile (!·.makesColumn)
      = front.flatMap Piece.marks := by
    rw [marksEq, List.takeWhile_append_of_pos noLetter,
      List.takeWhile_cons_of_neg (by simpa [Mark.makesColumn] using isLetter), List.append_nil]
  have characters : (front.flatMap Piece.marks).map (·.character) = textOf front := by
    have := map_character_marks 0 (textOf front)
    rwa [← flatMap_marks_pieces, pieces_textOf areWhole] at this
  have shorter : (front.flatMap Piece.marks).length < (textOf front ++ letter :: rest).length := by
    rw [← List.length_map (·.character), characters]
    simp
  rw [Column.markupBeforeLetter, before, if_pos shorter, characters]

namespace Field

variable {field : Field}

/-- Whether aligning changes a field. -/
def isChanged (picks : Bool) (alignment : Alignment) (field : Field) : Bool :=
  picks && Alignment.ofLetter field.letter != alignment

/-- A field with an alignment, if it is picked.  Of what settles behind another letter, only the
bars stay. -/
def align (picks : Bool) (alignment : Alignment) (field : Field) : Field :=
  if field.isChanged picks alignment then
    { field with
      letter := alignment.letter
      back := field.back.filter Piece.isRule }
  else field

theorem ink_filter_isRule (all : List Piece) : ink (all.filter Piece.isRule) = [] := by
  refine List.filter_eq_nil_iff.mpr fun piece member => ?_
  simp [Piece.isInk, List.of_mem_filter member]

theorem ruleCount_filter_isRule (all : List Piece) :
    ruleCount (all.filter Piece.isRule) = ruleCount all := by
  simp [ruleCount, List.countP_filter]

/-- Aligning a column is aligning its field. -/
theorem column_align (isProper : field.IsProper) (picks : Bool) (alignment : Alignment) :
    (field.align picks alignment).column
      = if picks then field.column.align alignment else field.column := by
  cases picks with
  | false => rfl
  | true =>
      rw [if_pos rfl]
      by_cases same : Alignment.ofLetter field.letter = alignment
      · have own : field.column.alignment = alignment := same
        have unchanged : field.isChanged true alignment = false := by simp [isChanged, same]
        rw [align, unchanged, if_neg Bool.false_ne_true, Column.align, if_pos own]
      · have other : field.column.alignment ≠ alignment := same
        have changed : field.isChanged true alignment = true := by simp [isChanged, same]
        have inkBeside : ∀ piece ∈ ink field.front, piece.IsBeside :=
          fun piece member => isProper.front piece (List.mem_of_mem_filter member)
        have before : Column.markupBeforeLetter field.column.markup = textOf (ink field.front) :=
          markupBeforeLetter_textOf inkBeside isProper.letter _
        rw [align, if_pos changed, Column.align, if_neg other, before]
        simp [column, ink_filter_isRule, ruleCount_filter_isRule]

theorem isLetter_letter (alignment : Alignment) : Text.isLetter alignment.letter := by
  cases alignment <;> decide

section Align

variable (picks : Bool) (alignment : Alignment)

theorem front_align (field : Field) : (field.align picks alignment).front = field.front := by
  unfold align
  split <;> rfl

theorem back_align_subset (field : Field) :
    (field.align picks alignment).back ⊆ field.back := by
  unfold align
  split
  · exact List.filter_subset_self _
  · exact fun _ => id

theorem IsProper.align (isProper : field.IsProper) :
    (field.align picks alignment).IsProper where
  letter := by
    unfold Field.align
    split
    · exact isLetter_letter alignment
    · exact isProper.letter
  front := by
    rw [front_align]
    exact isProper.front
  back piece member := isProper.back piece (back_align_subset picks alignment field member)

end Align

end Field

/-- Fields, of which the picked ones are aligned. -/
def alignFields (picked : Nat → Bool) (alignment : Alignment) (fields : List Field) : List Field :=
  fields.mapIdx fun index field => field.align (picked index) alignment

section Fields

variable {fields : List Field}

theorem alignColumns_map_column (linked : Linked fields) (picked : Nat → Bool)
    (alignment : Alignment) :
    Plan.alignColumns picked alignment (fields.map Field.column)
      = (alignFields picked alignment fields).map Field.column := by
  refine List.ext_getElem (by simp [Plan.alignColumns, alignFields]) fun index left right => ?_
  have within : index < fields.length := by simpa [alignFields] using right
  have isProper := linked.isProper _ (List.getElem_mem within)
  simp only [Plan.alignColumns, alignFields, List.getElem_mapIdx, List.getElem_map]
  exact (Field.column_align isProper (picked index) alignment).symm

/-- Aligned fields stay linked. -/
theorem linked_alignFields (linked : Linked fields) (picked : Nat → Bool)
    (alignment : Alignment) : Linked (alignFields picked alignment fields) := by
  constructor
  · intro field member
    obtain ⟨index, within, rfl⟩ := List.mem_mapIdx.mp member
    exact (linked.isProper _ (List.getElem_mem within)).align (picked index) alignment
  · refine List.isChain_iff_getElem.mpr fun index within => ?_
    have inFields : index + 1 < fields.length := by simpa [alignFields] using within
    obtain ⟨settle, stands⟩ := List.isChain_iff_getElem.mp linked.isChain index inFields
    simp only [alignFields, List.getElem_mapIdx]
    refine ⟨fun piece member => settle piece (Field.back_align_subset _ _ _ member), ?_⟩
    rw [Field.front_align]
    exact stands

end Fields

/-! ## Realigned specifiers -/

section Closed

variable {specifier : Text} {picked : Nat → Bool} {alignment : Alignment}

end Closed

end LatexTabular.Specifier
