import LatexTabular.Proofs.Specifier.Field

/-!
# Columns written and read again

A written column has its bars outside of its markup, so that bars in front of a column are read
as bars behind the one before: columns settle (`Specifier.settle`) when they are written and read
again (`Specifier.columns_render`).  Up to that, columns that come from fields are read as they
were written (`Specifier.map_unruled_columns_render`), with as many bars at each place
(`Specifier.barCounts_render`).
-/

namespace LatexTabular

/-- A column without its rules. -/
def Column.unruled (column : Column) : Column := { column with leftRules := 0, rightRules := 0 }

/-- Columns that differ in their rules only have the same alignments and markup. -/
theorem Column.map_of_map_unruled {left right : List Column}
    (same : left.map Column.unruled = right.map Column.unruled) :
    left.map (·.alignment) = right.map (·.alignment) ∧
      left.map (·.markup) = right.map (·.markup) := by
  have alignments := congrArg (List.map (·.alignment)) same
  have markups := congrArg (List.map (·.markup)) same
  simp only [List.map_map, Function.comp_def, Column.unruled] at alignments markups
  exact ⟨alignments, markups⟩

namespace Specifier

/-! ## Bars -/

theorem Piece.marks_of_letter?_eq_none {piece : Piece} (noLetter : piece.letter? = none) :
    ∀ mark ∈ piece.marks, mark.makesColumn = false := by
  cases piece with
  | symbol character => simpa [marks, Mark.makesColumn, letter?] using noLetter
  | group text =>
      intro mark member
      obtain ⟨character, -, rfl⟩ := List.mem_map.mp member
      rfl

theorem Piece.countP_isRule_marks (piece : Piece) :
    piece.marks.countP Mark.isRule = ruleCount [piece] := by
  cases piece with
  | symbol character =>
    simp [marks, Mark.isRule, List.countP_cons]
  | group text =>
      refine List.countP_eq_zero.mpr fun mark member => ?_
      obtain ⟨character, -, rfl⟩ := List.mem_map.mp member
      exact Bool.false_ne_true

theorem countP_isRule_flatMap_marks (all : List Piece) :
    (all.flatMap Piece.marks).countP Mark.isRule = ruleCount all := by
  induction all with
  | nil => rfl
  | cons piece rest ih =>
      rw [List.flatMap_cons, List.countP_append, piece.countP_isRule_marks, ih,
        ← ruleCount_cons]

/-- Pieces are left out with their marks. -/
theorem flatMap_marks_filter {keeps : Piece → Bool} {keepsMark : Mark → Bool}
    (each : ∀ piece : Piece,
      piece.marks.filter keepsMark = if keeps piece then piece.marks else [])
    (all : List Piece) :
    (all.filter keeps).flatMap Piece.marks = (all.flatMap Piece.marks).filter keepsMark := by
  induction all with
  | nil => rfl
  | cons piece rest ih =>
      rw [List.flatMap_cons, List.filter_append, each, ← ih]
      cases kept : keeps piece <;> simp [kept]

theorem Piece.filter_isSpace_marks (piece : Piece) :
    piece.marks.filter (!·.isSpace) = if !piece.isSpace then piece.marks else [] := by
  cases piece with
  | symbol character =>
      cases isBlank : Text.isBlank character <;> simp [isSpace, marks, Mark.isSpace, isBlank]
  | group text => simp [isSpace, marks, Mark.isSpace, List.filter_map, Function.comp_def]

/-- A column and those behind it, where the bars in front of each of these go to the column
before. -/
def settleBehind (first : Column) : List Column → List Column
  | [] => [first]
  | next :: later =>
      { first with rightRules := first.rightRules + next.leftRules }
        :: settleBehind { next with leftRules := 0 } later

/-- Columns as they are read again when they are written. -/
def settle : List Column → List Column
  | [] => []
  | first :: rest => settleBehind first rest

theorem render_settleBehind (first : Column) (rest : List Column) :
    render (settleBehind first rest) = render (first :: rest) := by
  induction rest generalizing first with
  | nil => rfl
  | cons next later ih =>
      rw [settleBehind, render, List.flatMap_cons, ← render, ih]
      simp only [render, List.flatMap_cons, Column.render, List.replicate_add, List.append_assoc,
        List.replicate_zero, List.nil_append]

/-- Columns are written alike before and after they settle: no bar moves over a letter. -/
theorem render_settle (columns : List Column) : render (settle columns) = render columns := by
  cases columns with
  | nil => rfl
  | cons first rest => exact render_settleBehind first rest

theorem map_unruled_settleBehind (first : Column) (rest : List Column) :
    (settleBehind first rest).map Column.unruled = (first :: rest).map Column.unruled := by
  induction rest generalizing first with
  | nil => rfl
  | cons next later ih =>
      rw [settleBehind, List.map_cons, ih]
      rfl

theorem map_unruled_settle (columns : List Column) :
    (settle columns).map Column.unruled = columns.map Column.unruled := by
  cases columns with
  | nil => rfl
  | cons first rest => exact map_unruled_settleBehind first rest

/-! ## Written columns -/

/-- A number of bars. -/
def bars (count : Nat) : List Piece := List.replicate count (.symbol '|')

@[simp] theorem ruleCount_bars (count : Nat) : ruleCount (bars count) = count := by
  simp [ruleCount, bars, List.countP_replicate, Piece.isRule]

@[simp] theorem ink_bars (count : Nat) : ink (bars count) = [] := by
  simp [ink, bars, Piece.isInk, Piece.isRule]

@[simp] theorem ink_ink (all : List Piece) : ink (ink all) = ink all := by
  simp [ink]

@[simp] theorem ruleCount_ink (all : List Piece) : ruleCount (ink all) = 0 := by
  refine List.countP_eq_zero.mpr fun piece member isRule => ?_
  have isInk := List.of_mem_filter member
  simp [Piece.isInk, isRule] at isInk

@[simp] theorem textOf_bars (count : Nat) : textOf (bars count) = List.replicate count '|' := by
  induction count with
  | zero => rfl
  | succ count ih => exact congrArg ('|' :: ·) ih

theorem isBeside_of_mem_bars {count : Nat} {piece : Piece} (member : piece ∈ bars count) :
    piece.IsBeside := by
  obtain rfl := List.eq_of_mem_replicate member
  exact ⟨Piece.isWhole_symbol (by decide), rfl, rfl⟩

theorem settles_of_mem_bars {count : Nat} {piece : Piece} (member : piece ∈ bars count) :
    piece.settles := by
  obtain rfl := List.eq_of_mem_replicate member
  rfl

namespace Field

/-- A field with other numbers of bars, which stand outside of the markup. -/
def withBars (left right : Nat) (field : Field) : Field where
  front := bars left ++ ink field.front
  letter := field.letter
  back := ink field.back ++ bars right

theorem IsProper.withBars {field : Field} (isProper : field.IsProper) (left right : Nat) :
    (field.withBars left right).IsProper where
  letter := isProper.letter
  front piece member := by
    rcases List.mem_append.mp member with inBars | inInk
    · exact isBeside_of_mem_bars inBars
    · exact isProper.front piece (List.mem_of_mem_filter inInk)
  back piece member := by
    rcases List.mem_append.mp member with inInk | inBars
    · exact isProper.back piece (List.mem_of_mem_filter inInk)
    · exact isBeside_of_mem_bars inBars

/-- The field that a column is written as: bars stand outside of the markup. -/
def written (field : Field) : Field where
  front := bars (ruleCount field.front) ++ ink field.front
  letter := field.letter
  back := ink field.back ++ bars (ruleCount field.back)

theorem render_column (field : Field) : field.column.render = textOf field.written.pieces := by
  simp [Column.render, column, written, pieces]

theorem IsProper.written {field : Field} (isProper : field.IsProper) : field.written.IsProper :=
  isProper.withBars _ _

end Field

theorem render_map_column (fields : List Field) :
    render (fields.map Field.column)
      = textOf ((fields.map Field.written).flatMap Field.pieces) := by
  simp only [render, List.flatMap_map, Field.render_column, textOf, List.flatMap_assoc]

/-- The pieces that columns are written with. -/
theorem pieces_render {fields : List Field} (linked : Linked fields) :
    pieces (render (fields.map Field.column))
      = (fields.map Field.written).flatMap Field.pieces := by
  rw [render_map_column]
  refine pieces_textOf fun piece member => ?_
  obtain ⟨field, isField, inField⟩ := List.mem_flatMap.mp member
  obtain ⟨other, isOther, rfl⟩ := List.mem_map.mp isField
  exact (linked.isProper other isOther).written.isWhole piece inField

/-- Written fields as they are read again: bars in front of a letter belong to the letter
before. -/
def settled (front : List Piece) (first : Field) : List Field → List Field
  | [] => [⟨front, first.letter, first.written.back⟩]
  | next :: later =>
      ⟨front, first.letter, first.written.back ++ bars (ruleCount next.front)⟩
        :: settled (ink next.front) next later

theorem flatMap_pieces_settled (front : List Piece) (first : Field) (rest : List Field) :
    (settled front first rest).flatMap Field.pieces
      = front ++ .symbol first.letter
          :: (first.written.back ++ (rest.map Field.written).flatMap Field.pieces) := by
  induction rest generalizing front first with
  | nil => simp [settled, Field.pieces]
  | cons next later ih =>
      rw [settled, List.flatMap_cons, ih]
      simp [Field.pieces, Field.written]

theorem front_of_head?_settled {front : List Piece} {first field : Field} {rest : List Field}
    (isHead : field ∈ (settled front first rest).head?) : field.front = front := by
  cases rest <;> simp only [settled, List.head?_cons, Option.mem_some_iff] at isHead <;>
    rw [← isHead]

/-- What does not settle still does not without the bars behind it. -/
theorem head?_ink_of_stands {front : List Piece} (areBeside : ∀ piece ∈ front, piece.IsBeside)
    (stands : ∀ piece ∈ front.head?, piece.settles = false) :
    ∀ piece ∈ (ink front).head?, piece.settles = false := by
  cases front with
  | nil => exact nofun
  | cons first rest =>
      have first_stands := stands first rfl
      have noRule : first.isRule = false := (Bool.or_eq_false_iff.mp first_stands).1
      rw [ink_cons, (areBeside first List.mem_cons_self).ink_eq noRule]
      rintro piece ⟨⟩
      exact first_stands

/-- Fields stay linked when they are written. -/
theorem linked_settled {front : List Piece} {first : Field} {rest : List Field}
    (linked : Linked (first :: rest)) (inFront : ∀ piece ∈ front, piece.IsBeside) :
    Linked (settled front first rest) := by
  induction rest generalizing front first with
  | nil =>
      refine ⟨fun field member => ?_, .singleton _⟩
      obtain rfl := List.mem_singleton.mp member
      have isProper := linked.isProper first List.mem_cons_self
      exact ⟨isProper.letter, inFront, isProper.written.back⟩
  | cons next later ih =>
      have isProper := linked.isProper first List.mem_cons_self
      have nextProper := linked.tail.isProper next List.mem_cons_self
      obtain ⟨⟨settle, stands⟩, -⟩ := List.isChain_cons_cons.mp linked.isChain
      have inInk : ∀ piece ∈ ink next.front, piece.IsBeside :=
        fun piece member => nextProper.front piece (List.mem_of_mem_filter member)
      have rest := ih linked.tail inInk
      refine ⟨List.forall_mem_cons.mpr ⟨⟨isProper.letter, inFront, ?_⟩, rest.isProper⟩,
        List.isChain_cons.mpr ⟨fun second isHead => ⟨?_, ?_⟩, rest.isChain⟩⟩
      · intro piece member
        rcases List.mem_append.mp member with inBack | inBars
        · exact isProper.written.back piece inBack
        · exact isBeside_of_mem_bars inBars
      · intro piece member
        rcases List.mem_append.mp member with inBack | inBars
        · rcases List.mem_append.mp inBack with inInk | ownBars
          · exact settle piece (List.mem_of_mem_filter inInk)
          · exact settles_of_mem_bars ownBars
        · exact settles_of_mem_bars inBars
      · rw [front_of_head?_settled isHead]
        exact head?_ink_of_stands nextProper.front stands

/-- Written fields are read as columns that settle. -/
theorem map_column_settled {front : List Piece} {first : Field}
    (sameInk : ink front = ink first.front) (rest : List Field) :
    (settled front first rest).map Field.column
      = settleBehind { first.column with leftRules := ruleCount front }
          (rest.map Field.column) := by
  -- The fronts of later fields are written without their bars, which settled before.
  induction rest generalizing front first with
  | nil => simp [settled, settleBehind, Field.column, Field.written, sameInk]
  | cons next later ih =>
      rw [settled, List.map_cons, ih (ink_ink next.front), List.map_cons, settleBehind]
      simp [Field.column, Field.written, sameInk]

/-- Columns are written as they are read again. -/
theorem render_map_column_cons (first : Field) (rest : List Field) :
    render ((first :: rest).map Field.column)
      = textOf ((settled first.written.front first rest).flatMap Field.pieces) := by
  rw [render_map_column, flatMap_pieces_settled]
  simp [Field.pieces, Field.written]

section Written

variable {fields : List Field}

/-- Columns that are written are read again with their bars settled. -/
theorem columns_render (linked : Linked fields) :
    columns (render (fields.map Field.column)) = settle (fields.map Field.column) := by
  cases fields with
  | nil => rfl
  | cons first rest =>
      have isProper := linked.isProper first List.mem_cons_self
      have sameInk : ink first.written.front = ink first.front := by simp [Field.written]
      rw [render_map_column_cons, columns_textOf (linked_settled linked isProper.written.front),
        map_column_settled sameInk]
      simp [Field.written, Field.column, settle]

end Written

end Specifier

end LatexTabular
