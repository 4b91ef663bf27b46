import LatexTabular.Command.Removal
import Mathlib.Data.List.SplitBy
import Mathlib.Tactic.Common

/-!
# Columns of a row

Cells take consecutive columns, so those that lie wholly within some columns
stand side by side (`Plan.exists_parted`).  Removing columns from a row
therefore removes one run of cells and shrinks cells on its sides
(`Plan.removeCells_eq`).
-/

namespace LatexTabular

theorem Cell.width_pos (cell : Cell) : 0 < cell.width := by
  unfold Cell.width
  split <;> omega

namespace Row

theorem totalWidth_append (left right : List Cell) :
    totalWidth (left ++ right) = totalWidth left + totalWidth right := by
  induction left with
  | nil => simp [totalWidth]
  | cons cell rest ih => simp [totalWidth, ih, Nat.add_assoc]

theorem placedFrom_append (index first : Nat) (left right : List Cell) :
    placedFrom index first (left ++ right) = placedFrom index first left
      ++ placedFrom (index + left.length) (first + totalWidth left) right := by
  induction left generalizing index first with
  | nil => simp [placedFrom, totalWidth]
  | cons cell rest ih =>
      simp only [List.cons_append, placedFrom, ih, List.length_cons, totalWidth]
      congr 3 <;> omega

theorem map_index_placedFrom (index first : Nat) (cells : List Cell) :
    (placedFrom index first cells).map (·.1) = List.range' index cells.length := by
  induction cells generalizing index first with
  | nil => rfl
  | cons cell rest ih => simp [placedFrom, ih, List.range'_succ]

theorem map_cell_placedFrom (index first : Nat) (cells : List Cell) :
    (placedFrom index first cells).map (·.2.2) = cells := by
  induction cells generalizing index first with
  | nil => rfl
  | cons cell rest ih => simp [placedFrom, ih]

theorem mem_of_mem_placedFrom {index first : Nat} {cells : List Cell}
    {place : Nat × ColumnRange × Cell} (member : place ∈ placedFrom index first cells) :
    place.2.2 ∈ cells ∧ first ≤ place.2.1.first ∧
      place.2.1.last + 1 = place.2.1.first + place.2.2.width := by
  induction cells generalizing index first with
  | nil => simp [placedFrom] at member
  | cons cell rest ih =>
      have positive := cell.width_pos
      rcases List.mem_cons.mp member with rfl | inRest
      · refine ⟨List.mem_cons_self, Nat.le_refl _, ?_⟩
        dsimp only
        omega
      · obtain ⟨isCell, begins, width⟩ := ih inRest
        exact ⟨List.mem_cons_of_mem _ isCell, by omega, width⟩

theorem last_lt_of_mem_placedFrom {index first : Nat} {cells : List Cell}
    {place : Nat × ColumnRange × Cell} (member : place ∈ placedFrom index first cells) :
    place.2.1.last < first + totalWidth cells := by
  induction cells generalizing index first with
  | nil => simp [placedFrom] at member
  | cons cell rest ih =>
      have positive := cell.width_pos
      rw [totalWidth]
      rcases List.mem_cons.mp member with rfl | inRest
      · dsimp only
        omega
      · have := ih inRest
        omega

end Row

namespace Plan

/-- Whether a cell is removed with the columns from `left` to `right`. -/
def Removes (left right : Nat) (place : Nat × ColumnRange × Cell) : Prop :=
  coveredColumns place.2.1 left right = place.2.2.width

instance (left right : Nat) (place : Nat × ColumnRange × Cell) :
    Decidable (Removes left right place) := by
  unfold Removes
  infer_instance

theorem removes_iff {left right index first : Nat} {cell : Cell} :
    Removes left right (index, ⟨first, first + cell.width - 1⟩, cell) ↔
      left ≤ first ∧ first + cell.width ≤ right + 1 := by
  have positive := cell.width_pos
  simp only [Removes, coveredColumns]
  omega

/-- The cells behind the removed columns stay. -/
theorem not_removes_of_lt {left right index first : Nat} {cells : List Cell}
    (behind : right < first) :
    ∀ place ∈ Row.placedFrom index first cells, ¬ Removes left right place := by
  intro place member
  obtain ⟨-, begins, width⟩ := Row.mem_of_mem_placedFrom member
  have positive := place.2.2.width_pos
  simp only [Removes, coveredColumns]
  omega

/-- The three stretches of the cells of a row of which the middle one is removed
with some columns.  The first of the cells starts at column `first`. -/
structure Parted (left right first : Nat) (before removed behind : List Cell) : Prop where
  keepsBefore : ∀ index, ∀ place ∈ Row.placedFrom index first before,
    ¬ Removes left right place
  removes : ∀ index, ∀ place ∈ Row.placedFrom index (first + Row.totalWidth before) removed,
    Removes left right place
  keepsBehind : ∀ index, ∀ place ∈ Row.placedFrom index
      (first + Row.totalWidth before + Row.totalWidth removed) behind,
    ¬ Removes left right place

/-- From the removed columns on, the removed cells come first. -/
theorem exists_parted_of_le (left right : Nat) {first : Nat} (cells : List Cell)
    (within : left ≤ first) :
    ∃ removed behind, cells = removed ++ behind ∧ Parted left right first [] removed behind := by
  induction cells generalizing first with
  | nil =>
      refine ⟨[], [], rfl, ?_, ?_, ?_⟩ <;> simp [Row.placedFrom]
  | cons cell rest ih =>
      by_cases fits : first + cell.width ≤ right + 1
      · obtain ⟨removed, behind, rfl, parted⟩ := @ih (first + cell.width) (by omega)
        refine ⟨cell :: removed, behind, rfl, ?_, ?_, ?_⟩
        · simp [Row.placedFrom]
        · intro index place member
          rcases List.mem_cons.mp member with rfl | inRest
          · exact removes_iff.mpr ⟨within, fits⟩
          · exact parted.removes (index + 1) place inRest
        · intro index place member
          refine parted.keepsBehind index place ?_
          simpa [Row.totalWidth, Nat.add_assoc] using member
      · refine ⟨[], cell :: rest, rfl, ?_, ?_, ?_⟩
        · simp [Row.placedFrom]
        · simp [Row.placedFrom]
        · intro index place member
          rcases List.mem_cons.mp member with rfl | inRest
          · simp only [Row.totalWidth, Nat.add_zero, removes_iff]
            omega
          · refine not_removes_of_lt ?_ place inRest
            simp only [Row.totalWidth]
            omega

/-- The cells that are removed stand side by side. -/
theorem exists_parted (left right first : Nat) (cells : List Cell) :
    ∃ before removed behind, cells = before ++ (removed ++ behind) ∧
      Parted left right first before removed behind := by
  induction cells generalizing first with
  | nil =>
      refine ⟨[], [], [], rfl, ?_, ?_, ?_⟩ <;> simp [Row.placedFrom]
  | cons cell rest ih =>
      by_cases within : left ≤ first
      · obtain ⟨removed, behind, cellsEq, parted⟩ :=
          exists_parted_of_le left right (cell :: rest) within
        exact ⟨[], removed, behind, cellsEq, parted⟩
      · obtain ⟨before, removed, behind, rfl, parted⟩ := ih (first + cell.width)
        refine ⟨cell :: before, removed, behind, rfl, ?_, ?_, ?_⟩
        · intro index place member
          rcases List.mem_cons.mp member with rfl | inRest
          · rw [removes_iff]
            omega
          · exact parted.keepsBefore (index + 1) place inRest
        · intro index place member
          refine parted.removes index place ?_
          simpa [Row.totalWidth, Nat.add_assoc] using member
        · intro index place member
          refine parted.keepsBehind index place ?_
          simpa [Row.totalWidth, Nat.add_assoc] using member

/-- The new number of a merged cell of which some columns are removed. -/
def shrink? (left right : Nat) (place : Nat × ColumnRange × Cell) : Option Edit :=
  let count := coveredColumns place.2.1 left right
  match place.2.2.merge with
  | some merge =>
      if 0 < count && count < place.2.2.width then
        some ⟨merge.number, Text.ofNumber (place.2.2.width - count)⟩
      else none
  | none => none

theorem span_of_shrink? {left right : Nat} {place : Nat × ColumnRange × Cell} {edit : Edit}
    (found : shrink? left right place = some edit) :
    ∃ merge, place.2.2.merge = some merge ∧ edit.span = merge.number := by
  simp only [shrink?] at found
  split at found
  next merge merged =>
    split at found
    · exact ⟨merge, merged, by rw [← Option.some.inj found]⟩
    · simp at found
  next => simp at found

/-- A cell that is removed does not shrink. -/
theorem shrink?_eq_none {left right : Nat} {place : Nat × ColumnRange × Cell}
    (removes : Removes left right place) : shrink? left right place = none := by
  unfold Removes at removes
  simp only [shrink?, removes, Nat.lt_irrefl, decide_false, Bool.and_false]
  split <;> rfl

section Runs

variable {row : Row} {first last : Nat}

/-- What goes with the cells of a row from index `first` to index `last`. -/
inductive RunSpan (row : Row) (first last : Nat) : Span → Prop where
  /-- Cells at the front of the row go with the separator behind them. -/
  | toNext {firstCell lastCell : Cell} {separator : Span} (atFront : first = 0)
      (isFirst : row.cells[first]? = some firstCell) (isLast : row.cells[last]? = some lastCell)
      (isSeparator : row.separators[last]? = some separator) :
      RunSpan row first last ⟨firstCell.extent.start, separator.stop⟩
  /-- All cells of the row go up to the end of the last one. -/
  | toEnd {firstCell lastCell : Cell} (atFront : first = 0)
      (isFirst : row.cells[first]? = some firstCell) (isLast : row.cells[last]? = some lastCell)
      (noSeparator : row.separators[last]? = none) :
      RunSpan row first last ⟨firstCell.extent.start, lastCell.extent.stop⟩
  /-- Cells behind another one go with the separator in front of them. -/
  | fromPrevious {previous lastCell : Cell} (inside : first ≠ 0)
      (isPrevious : row.cells[first - 1]? = some previous)
      (isLast : row.cells[last]? = some lastCell) :
      RunSpan row first last ⟨previous.extent.stop, lastCell.extent.stop⟩

theorem removalSpan?_eq_some_iff {span : Span} :
    removalSpan? row first last = some span ↔ RunSpan row first last span := by
  simp only [removalSpan?, Option.bind_eq_bind]
  constructor
  · intro found
    obtain ⟨lastCell, isLast, found⟩ := Option.bind_eq_some_iff.mp found
    split at found
    next atFront =>
      obtain ⟨firstCell, isFirst, found⟩ := Option.bind_eq_some_iff.mp found
      split at found
      next separator isSeparator =>
        obtain rfl := Option.some.inj found
        exact .toNext atFront isFirst isLast isSeparator
      next noSeparator =>
        obtain rfl := Option.some.inj found
        exact .toEnd atFront isFirst isLast noSeparator
    next inside =>
      obtain ⟨previous, isPrevious, found⟩ := Option.bind_eq_some_iff.mp found
      obtain rfl := Option.some.inj found
      exact .fromPrevious inside isPrevious isLast
  · intro goes
    cases goes with
    | toNext atFront isFirst isLast isSeparator =>
        rw [isLast, Option.bind_some, if_pos atFront, isFirst, Option.bind_some, isSeparator]
    | toEnd atFront isFirst isLast noSeparator =>
        rw [isLast, Option.bind_some, if_pos atFront, isFirst, Option.bind_some, noSeparator]
    | fromPrevious inside isPrevious isLast =>
        rw [isLast, Option.bind_some, if_neg inside, isPrevious, Option.bind_some]

/-- A run of cells is removed with one edit, if there is anything to remove. -/
theorem removeRun_eq {count : Nat} {span : Span} (positive : count ≠ 0)
    (goes : RunSpan row first (first + count - 1) span) :
    removeRun row (List.range' first count) = if span.isEmpty then [] else [.deletion span] := by
  have isFirst : (List.range' first count).head? = some first := by
    simp [List.head?_range', positive]
  have isLast : (List.range' first count).getLast? = some (first + count - 1) := by
    simp [List.getLast?_range', positive]
  simp only [removeRun, isFirst, isLast, removalSpan?_eq_some_iff.mpr goes]

/-- Cells are removed with at most one edit, which deletes what goes with a run of them. -/
theorem removeRun_eq_nil_or (row : Row) (run : List Nat) :
    removeRun row run = [] ∨ ∃ first last span, run.head? = some first ∧
      run.getLast? = some last ∧ RunSpan row first last span ∧
        removeRun row run = [.deletion span] := by
  unfold removeRun
  split
  next first last isFirst isLast =>
    split
    next span found =>
      split
      · exact Or.inl rfl
      · exact Or.inr ⟨first, last, span, isFirst, isLast, removalSpan?_eq_some_iff.mp found, rfl⟩
    next => exact Or.inl rfl
  next => exact Or.inl rfl

end Runs

theorem splitBy_range' (start count : Nat) (nonempty : count ≠ 0) :
    (List.range' start count).splitBy (fun index next => next == index + 1)
      = [List.range' start count] := by
  refine List.splitBy_of_isChain (by simpa using nonempty) ?_
  exact (List.isChain_range' start count 1).imp fun _ _ next => by simpa using next

/-- Removing columns from a row shrinks the merged cells that reach into them and
removes one run of cells. -/
theorem removeCells_eq {left right : Nat} {row : Row} {before removed behind : List Cell}
    (cellsEq : row.cells = before ++ (removed ++ behind))
    (parted : Parted left right 0 before removed behind) :
    removeCells left right row =
      row.placed.filterMap (shrink? left right)
        ++ removeRun row (List.range' before.length removed.length) := by
  have indices : (row.placed.filterMap fun place =>
      if Removes left right place then some place.1 else none)
        = List.range' before.length removed.length := by
    have kept (places : List (Nat × ColumnRange × Cell))
        (stay : ∀ place ∈ places, ¬ Removes left right place) :
        (places.filterMap fun place =>
          if Removes left right place then some place.1 else none) = [] := by
      rw [List.filterMap_eq_nil_iff]
      exact fun place member => if_neg (stay place member)
    have middle : ((Row.placedFrom (0 + before.length) (0 + Row.totalWidth before)
          removed).filterMap fun place =>
          if Removes left right place then some place.1 else none)
        = List.range' before.length removed.length := by
      rw [List.filterMap_congr fun place member => if_pos (parted.removes _ place member),
        ← Row.map_index_placedFrom before.length (0 + Row.totalWidth before), Nat.zero_add]
      exact congrFun List.filterMap_eq_map _
    rw [Row.placed, cellsEq, Row.placedFrom_append, Row.placedFrom_append,
      List.filterMap_append, List.filterMap_append, kept _ (parted.keepsBefore _), middle,
      kept _ (parted.keepsBehind _), List.nil_append, List.append_nil]
  have runs : ((List.range' before.length removed.length).splitBy
      fun index next => next == index + 1).flatMap (removeRun row)
        = removeRun row (List.range' before.length removed.length) := by
    by_cases none : removed.length = 0
    · simp [none, removeRun]
    · simp [splitBy_range' _ _ none]
  rw [← runs, ← indices]
  simp only [removeCells, List.filterMap_map]
  rfl

end Plan

end LatexTabular
