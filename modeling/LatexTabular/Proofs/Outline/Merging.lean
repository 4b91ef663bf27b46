import LatexTabular.Options
import LatexTabular.Proofs.Outline.Columns
import LatexTabular.Proofs.Table.Lookup

/-!
# Merging the cells of an outline

Merging the columns from `left` to `right` of a row replaces the cells over them by one with
their contents side by side (`Outline.Row.mergeCells`).  Cells that lie only partly over these
columns are taken in whole.
-/

namespace LatexTabular

namespace Heading

/-- The number of bars directly in front of a column.  Those behind another column belong to
that one. -/
def barsBefore (column : Nat) (heading : Heading) : Nat :=
  if column = 0 then heading.bars else 0

/-- The number of bars behind a column. -/
def barsBehind (column : Nat) (heading : Heading) : Nat :=
  (heading.letters[column]?.map (·.bars)).getD 0

/-- The specifier of a cell merged from the columns `first` to `last`. -/
def mergeSpecifier (options : Options) (first last : Nat) (heading : Heading) : Text :=
  if options.mergeKeepsRules then
    List.replicate (heading.barsBefore first) '|' ++ [options.mergeAlignment.letter]
      ++ List.replicate (heading.barsBehind last) '|'
  else [options.mergeAlignment.letter]

end Heading

namespace Outline

/-- Cells with their first columns, where the first of them starts at column `first`. -/
def placedFrom (first : Nat) : List Cell → List (Nat × Cell)
  | [] => []
  | cell :: rest => (first, cell) :: placedFrom (first + cell.width) rest

namespace Row

/-- The cells of a row that satisfy a condition on their first column and the column behind
their last one. -/
def cellsWhere (holds : Nat → Nat → Bool) (row : Row) : List Cell :=
  ((placedFrom 0 row.cells).filter fun place =>
    holds place.1 (place.1 + place.2.width)).map (·.2)

/-- The cells that end in front of a column. -/
def cellsBefore (column : Nat) (row : Row) : List Cell :=
  row.cellsWhere fun _ stop => stop ≤ column

/-- The cells that take some of the columns from `left` to `right`. -/
def cellsOver (left right : Nat) (row : Row) : List Cell :=
  row.cellsWhere fun start stop => left < stop && start ≤ right

/-- The cells that start behind a column. -/
def cellsBehind (column : Nat) (row : Row) : List Cell :=
  row.cellsWhere fun start _ => column < start

/-- The cell that takes the place of others, behind some cells. -/
def mergedCell (heading : Heading) (options : Options) (before covered : List Cell) : Cell where
  content := Text.trim (List.intercalate [' '] (covered.map (·.content)))
  merge := some
    { columns := totalWidth covered
      specifier := heading.mergeSpecifier options (totalWidth before)
        (totalWidth before + totalWidth covered - 1) }

/-- Merge the cells over the columns from `left` to `right`. -/
def mergeCells (heading : Heading) (options : Options) (left right : Nat) (row : Row) : Row :=
  { row with
    cells := row.cellsBefore left
      ++ mergedCell heading options (row.cellsBefore left) (row.cellsOver left right)
        :: row.cellsBehind right }

/-- Join the contents of the cells over the columns from `left` to `right` in the first of these
columns. -/
def joinCells (left right : Nat) (row : Row) : Row :=
  { row with
    cells := row.cellsBefore left
      ++ (⟨Text.trim (List.intercalate [' '] ((row.cellsOver left right).map (·.content))), none⟩
          :: List.replicate (right - left) Cell.blank)
      ++ row.cellsBehind right }

end Row

/-- Join the contents of cells of one row. -/
def joinCells (row left right : Nat) (outline : Outline) : Outline :=
  { outline with rows := outline.rows.modify row (Row.joinCells left right) }

/-- Merge the cells of one row over the columns from `left` to `right`. -/
def mergeCells (options : Options) (row left right : Nat) (outline : Outline) : Outline :=
  { outline with
    rows := outline.rows.modify row (Row.mergeCells outline.heading options left right) }

theorem placedFrom_append (first : Nat) (cells rest : List Cell) :
    placedFrom first (cells ++ rest)
      = placedFrom first cells ++ placedFrom (first + totalWidth cells) rest := by
  induction cells generalizing first with
  | nil => rfl
  | cons cell others ih =>
      rw [List.cons_append, placedFrom, placedFrom, ih, totalWidth_cons, Nat.add_assoc,
        List.cons_append]

theorem map_cell_placedFrom (first : Nat) (cells : List Cell) :
    (placedFrom first cells).map (·.2) = cells := by
  induction cells generalizing first with
  | nil => rfl
  | cons cell rest ih => simp [placedFrom, ih]

/-- Cells lie within the columns that all of them take. -/
theorem bounds_of_mem_placedFrom {first : Nat} {cells : List Cell} {place : Nat × Cell}
    (member : place ∈ placedFrom first cells) :
    first ≤ place.1 ∧ 0 < place.2.width ∧
      place.1 + place.2.width ≤ first + totalWidth cells := by
  induction cells generalizing first with
  | nil => exact absurd member List.not_mem_nil
  | cons cell rest ih =>
      rw [totalWidth_cons]
      rcases List.mem_cons.mp member with rfl | inRest
      · exact ⟨Nat.le_refl _, cell.width_pos, by dsimp only; omega⟩
      · obtain ⟨begins, positive, ends⟩ := ih inRest
        exact ⟨by omega, positive, by omega⟩

section Covered

variable {left right : Nat} {before covered behind : List Cell}

/-- Each of the cells over some columns takes one of them. -/
theorem over_of_mem_placedFrom
    (covering : Covering left right (before.map Cell.width) (covered.map Cell.width))
    {place : Nat × Cell} (member : place ∈ placedFrom (totalWidth before) covered) :
    left < place.1 + place.2.width ∧ place.1 ≤ right := by
  constructor
  · cases covered with
    | nil => exact absurd member List.not_mem_nil
    | cons first rest =>
        have inFirst : left < totalWidth before + first.width := covering.first first.width rfl
        rcases List.mem_cons.mp member with rfl | inRest
        · exact inFirst
        · have := bounds_of_mem_placedFrom inRest
          omega
  · rcases List.eq_nil_or_concat' covered with rfl | ⟨init, last, rfl⟩
    · exact absurd member List.not_mem_nil
    · have reaches := covering.last last.width
        (by rw [List.getLast?_map, List.getLast?_concat]; rfl)
      change totalWidth before + totalWidth (init ++ [last]) ≤ right + last.width at reaches
      rw [totalWidth_append, totalWidth_cons, totalWidth_nil] at reaches
      rw [placedFrom_append] at member
      rcases List.mem_append.mp member with inInit | isLast
      · have := bounds_of_mem_placedFrom inInit
        omega
      · obtain rfl := List.mem_singleton.mp isLast
        dsimp only
        omega

/-- A part of the cells of a row, if a condition holds of its places and of no others. -/
theorem cellsWhere_eq {row : Row} {holds : Nat → Nat → Bool} {front kept back : List Cell}
    (cellsEq : row.cells = front ++ (kept ++ back))
    (notFront : ∀ place ∈ placedFrom 0 front, holds place.1 (place.1 + place.2.width) = false)
    (all : ∀ place ∈ placedFrom (totalWidth front) kept,
      holds place.1 (place.1 + place.2.width) = true)
    (notBack : ∀ place ∈ placedFrom (totalWidth front + totalWidth kept) back,
      holds place.1 (place.1 + place.2.width) = false) :
    row.cellsWhere holds = kept := by
  rw [Row.cellsWhere, cellsEq, placedFrom_append, placedFrom_append, Nat.zero_add,
    filter_append_append notFront all notBack, map_cell_placedFrom]

/-- The cells of a row in front of some columns, over them and behind them. -/
theorem cells_of_covering {row : Row} (cellsEq : row.cells = before ++ (covered ++ behind))
    (ordered : left ≤ right)
    (covering : Covering left right (before.map Cell.width) (covered.map Cell.width)) :
    row.cellsBefore left = before ∧ row.cellsOver left right = covered ∧
      row.cellsBehind right = behind := by
  have begins : totalWidth before ≤ left := covering.begins
  have ends : right < totalWidth before + totalWidth covered := covering.ends
  have overlaps (place : Nat × Cell) (member : place ∈ placedFrom (totalWidth before) covered) :=
    over_of_mem_placedFrom covering member
  refine ⟨?_, ?_, ?_⟩
  · refine @cellsWhere_eq row _ [] before (covered ++ behind) cellsEq (by simp [placedFrom]) ?_ ?_
    · intro place member
      have bounds := bounds_of_mem_placedFrom member
      rw [totalWidth_nil] at bounds
      exact decide_eq_true (by omega)
    · intro place member
      rw [totalWidth_nil, Nat.zero_add, placedFrom_append] at member
      refine decide_eq_false ?_
      rcases List.mem_append.mp member with isOver | isBehind
      · have := overlaps place isOver
        omega
      · have := bounds_of_mem_placedFrom isBehind
        omega
  · refine cellsWhere_eq cellsEq ?_ ?_ ?_
    · intro place member
      have := bounds_of_mem_placedFrom member
      simp only [Bool.and_eq_false_iff, decide_eq_false_iff_not]
      omega
    · intro place member
      simpa using overlaps place member
    · intro place member
      have := bounds_of_mem_placedFrom member
      simp only [Bool.and_eq_false_iff, decide_eq_false_iff_not]
      omega
  · refine @cellsWhere_eq row _ (before ++ covered) behind [] (by simp [cellsEq]) ?_ ?_
      (by simp [placedFrom])
    · intro place member
      rw [placedFrom_append, Nat.zero_add] at member
      refine decide_eq_false ?_
      rcases List.mem_append.mp member with isBefore | isOver
      · have := bounds_of_mem_placedFrom isBefore
        omega
      · have := overlaps place isOver
        omega
    · intro place member
      have bounds := bounds_of_mem_placedFrom member
      rw [totalWidth_append] at bounds
      exact decide_eq_true (by omega)

/-- Only different columns lie under more than one cell. -/
theorem lt_of_two_le_cellsOver {row : Row} (ordered : left ≤ right)
    (within : right < totalWidth row.cells) (several : 2 ≤ (row.cellsOver left right).length) :
    left < right := by
  obtain ⟨before, covered, behind, cellsEq, covering⟩ := exists_covering _ ordered within
  rw [(cells_of_covering cellsEq ordered covering).2.1] at several
  cases covered with
  | nil => simp at several
  | cons first rest =>
      obtain ⟨middle, last, rfl⟩ := (List.eq_nil_or_concat' rest).resolve_left (by
        rintro rfl
        simp at several)
      have inFirst : left < totalWidth before + first.width := covering.first first.width rfl
      have reaches := covering.last last.width
        (by rw [List.getLast?_map, ← List.cons_append, List.getLast?_concat]; rfl)
      change totalWidth before + totalWidth (first :: (middle ++ [last])) ≤ right + last.width
        at reaches
      rw [totalWidth_cons, totalWidth_append, totalWidth_cons, totalWidth_nil] at reaches
      omega

theorem mergeCells_of_covering {row : Row} (cellsEq : row.cells = before ++ (covered ++ behind))
    (ordered : left ≤ right)
    (covering : Covering left right (before.map Cell.width) (covered.map Cell.width))
    (heading : Heading) (options : Options) :
    row.mergeCells heading options left right
      = { row with
          cells := before ++ Row.mergedCell heading options before covered :: behind } := by
  obtain ⟨beforeEq, coveredEq, behindEq⟩ := cells_of_covering cellsEq ordered covering
  rw [Row.mergeCells, beforeEq, coveredEq, behindEq]

theorem joinCells_of_covering {row : Row} (cellsEq : row.cells = before ++ (covered ++ behind))
    (ordered : left ≤ right)
    (covering : Covering left right (before.map Cell.width) (covered.map Cell.width)) :
    row.joinCells left right
      = { row with
          cells := before
            ++ (⟨Text.trim (List.intercalate [' '] (covered.map (·.content))), none⟩
              :: List.replicate (right - left) Cell.blank)
            ++ behind } := by
  obtain ⟨beforeEq, coveredEq, behindEq⟩ := cells_of_covering cellsEq ordered covering
  rw [Row.joinCells, beforeEq, coveredEq, behindEq]

end Covered

end Outline

end LatexTabular
