import LatexTabular.Proofs.Table.Columns
import LatexTabular.Selection
import Mathlib.Algebra.GroupWithZero.Nat

/-!
# The cell over a column

The lookups of a row find the cell that takes a column, with its index and its
columns (`Row.columnsAt?_of_over`), and none of the cells that end in front of the
column.
-/

namespace LatexTabular

/-- Among items side by side, one lies over every place that they take. -/
theorem exists_over {α : Type} (width : α → Nat) {items : List α} {place : Nat}
    (within : place < (items.map width).sum) :
    ∃ before item behind, items = before ++ item :: behind ∧
      (before.map width).sum ≤ place ∧ place < (before.map width).sum + width item := by
  induction items generalizing place with
  | nil => simp at within
  | cons first rest ih =>
      rw [List.map_cons, List.sum_cons] at within
      by_cases inFirst : place < width first
      · exact ⟨[], first, rest, rfl, Nat.zero_le _, by simpa using inFirst⟩
      · obtain ⟨before, item, behind, rfl, begins, ends⟩ := @ih (place - width first) (by omega)
        refine ⟨first :: before, item, behind, rfl, ?_, ?_⟩ <;>
          rw [List.map_cons, List.sum_cons] <;> omega

/-- Of items side by side, those that lie over the places from `left` to `right`, by their widths
and those of the items in front of them. -/
structure Covering (left right : Nat) (before covered : List Nat) : Prop where
  begins : before.sum ≤ left
  first : ∀ width ∈ covered.head?, left < before.sum + width
  last : ∀ width ∈ covered.getLast?, before.sum + covered.sum ≤ right + width
  ends : right < before.sum + covered.sum

/-- Among items side by side, some lie over any places that they take. -/
theorem exists_covering {α : Type} (width : α → Nat) {items : List α} {left right : Nat}
    (ordered : left ≤ right) (within : right < (items.map width).sum) :
    ∃ before covered behind, items = before ++ (covered ++ behind) ∧
      Covering left right (before.map width) (covered.map width) := by
  obtain ⟨before, first, rest, rfl, begins, inFirst⟩ :=
    exists_over width (Nat.lt_of_le_of_lt ordered within)
  by_cases alone : right < (before.map width).sum + width first
  · refine ⟨before, [first], rest, rfl, begins, ?_, ?_, by simpa using alone⟩
    · simpa using inFirst
    · simp only [List.map_cons, List.map_nil, List.getLast?_singleton, Option.mem_some_iff,
        forall_eq', List.sum_cons, List.sum_nil]
      omega
  · have behindFirst : right - ((before.map width).sum + width first) < (rest.map width).sum := by
      rw [List.map_append, List.sum_append, List.map_cons, List.sum_cons] at within
      omega
    obtain ⟨middle, last, behind, rfl, reaches, ends⟩ := exists_over width behindFirst
    refine ⟨before, first :: (middle ++ [last]), behind, by simp, begins, ?_, ?_, ?_⟩
    · simpa using inFirst
    · have isLast : ((first :: (middle ++ [last])).map width).getLast? = some (width last) := by
        rw [List.getLast?_map, ← List.cons_append, List.getLast?_concat, Option.map_some]
      intro lastWidth isWidth
      obtain rfl := Option.some.inj (isLast.symm.trans isWidth)
      simp only [List.map_cons, List.map_append, List.map_nil, List.sum_cons, List.sum_append,
        List.sum_nil]
      omega
    · simp only [List.map_cons, List.map_append, List.map_nil, List.sum_cons, List.sum_append,
        List.sum_nil]
      omega

/-- A condition that holds of the middle part of a list only picks that part. -/
theorem filter_append_append {α : Type} {holds : α → Bool} {front middle back : List α}
    (inFront : ∀ item ∈ front, holds item = false) (within : ∀ item ∈ middle, holds item = true)
    (behind : ∀ item ∈ back, holds item = false) :
    (front ++ (middle ++ back)).filter holds = middle := by
  rw [List.filter_append, List.filter_append, List.filter_eq_nil_iff.mpr,
    List.filter_eq_self.mpr within, List.filter_eq_nil_iff.mpr, List.nil_append, List.append_nil]
  · exact fun item member => by simp [behind item member]
  · exact fun item member => by simp [inFront item member]

namespace Row

theorem totalWidth_eq_sum (cells : List Cell) :
    totalWidth cells = (cells.map Cell.width).sum := by
  induction cells with
  | nil => rfl
  | cons cell rest ih => simp [totalWidth, ih]

/-- Cells in front of a column are passed over. -/
theorem indexIn?_append_of_le {cells : List Cell} (rest : List Cell) {column : Nat}
    (le : totalWidth cells ≤ column) :
    indexIn? (cells ++ rest) column
      = (indexIn? rest (column - totalWidth cells)).map (· + cells.length) := by
  induction cells generalizing column with
  | nil => simp [totalWidth]
  | cons cell others ih =>
      rw [totalWidth] at le
      have notFirst : ¬ column < cell.width := by omega
      have behind := @ih (column - cell.width) (by omega)
      rw [List.cons_append, indexIn?, if_neg notFirst, behind, Option.map_map, totalWidth,
        Nat.sub_sub, List.length_cons]
      rfl

theorem columnsIn?_append_of_le {cells : List Cell} (rest : List Cell) {first column : Nat}
    (le : first + totalWidth cells ≤ column) :
    columnsIn? first (cells ++ rest) column
      = columnsIn? (first + totalWidth cells) rest column := by
  induction cells generalizing first with
  | nil => simp [totalWidth]
  | cons cell others ih =>
      have positive := cell.width_pos
      rw [totalWidth] at le
      have notFirst : ¬ column ≤ first + cell.width - 1 := by omega
      have next : first + cell.width - 1 + 1 = first + cell.width := by omega
      have behind := @ih (first + cell.width) (by omega)
      rw [List.cons_append, columnsIn?, if_neg notFirst, next, behind, totalWidth, Nat.add_assoc]

section Over

variable {row : Row} {before behind : List Cell} {cell : Cell} {column : Nat}

/-- The cell over a column stands behind the cells that end in front of it. -/
theorem exists_over_of_lt (within : column < totalWidth row.cells) :
    ∃ before cell behind, row.cells = before ++ cell :: behind ∧ totalWidth before ≤ column ∧
      column < totalWidth before + cell.width := by
  rw [totalWidth_eq_sum] at within
  obtain ⟨before, cell, behind, cellsEq, begins, ends⟩ := exists_over Cell.width within
  exact ⟨before, cell, behind, cellsEq, by rwa [totalWidth_eq_sum], by rwa [totalWidth_eq_sum]⟩

theorem cellIndex?_of_over (cellsEq : row.cells = before ++ cell :: behind)
    (begins : totalWidth before ≤ column) (ends : column < totalWidth before + cell.width) :
    row.cellIndex? column = some before.length := by
  have inCell : column - totalWidth before < cell.width := by omega
  rw [cellIndex?, cellsEq, indexIn?_append_of_le _ begins, indexIn?, if_pos inCell]
  simp

/-- A column is found among the columns that the cells take. -/
theorem lt_totalWidth_of_cellIndex? {index : Nat} (found : row.cellIndex? column = some index) :
    column < totalWidth row.cells := by
  by_contra behind
  have passed := indexIn?_append_of_le [] (Nat.not_lt.mp behind)
  rw [List.append_nil, indexIn?, Option.map_none] at passed
  rw [cellIndex?, passed] at found
  simp at found

theorem cellAt?_of_over (cellsEq : row.cells = before ++ cell :: behind)
    (begins : totalWidth before ≤ column) (ends : column < totalWidth before + cell.width) :
    row.cellAt? column = some cell := by
  rw [cellAt?, cellIndex?_of_over cellsEq begins ends, cellsEq]
  simp

theorem columnsAt?_of_over (cellsEq : row.cells = before ++ cell :: behind)
    (begins : totalWidth before ≤ column) (ends : column < totalWidth before + cell.width) :
    row.columnsAt? column
      = some ⟨totalWidth before, totalWidth before + cell.width - 1⟩ := by
  have inCell : column ≤ totalWidth before + cell.width - 1 := by omega
  rw [columnsAt?, cellsEq, columnsIn?_append_of_le _ (by omega), Nat.zero_add, columnsIn?,
    if_pos inCell]

/-- A column behind some cells is not found among them. -/
theorem length_le_of_cellIndex? (cellsEq : row.cells = before ++ behind)
    (begins : totalWidth before ≤ column) {index : Nat}
    (found : row.cellIndex? column = some index) : before.length ≤ index := by
  rw [cellIndex?, cellsEq, indexIn?_append_of_le _ begins, Option.map_eq_some_iff] at found
  obtain ⟨other, -, rfl⟩ := found
  omega

end Over

end Row

namespace Selection

theorem top_le_bottom (selection : Selection) : selection.bounds.top ≤ selection.bounds.bottom := by
  simp only [bounds]
  omega

theorem left_le_right (selection : Selection) : selection.bounds.left ≤ selection.bounds.right := by
  simp only [bounds]
  omega

end Selection

end LatexTabular
