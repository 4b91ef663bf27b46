import LatexTabular.Command.Spanning
import LatexTabular.Proofs.Table.Lookup

/-!
# What merging and splitting plan

Merging takes the cells over the selected columns in whole.  `Plan.Merges` says which these are,
and `Plan.Merges.mergeCells_eq` what is written in their place.  Nothing is planned for other
selections (`Plan.mergeCells_cases`).  Splitting takes a merged cell at the first corner of the
selection (`Plan.unmergeCells_cases`).
-/

namespace LatexTabular

variable {row : Row} {left right : Nat} {before covered behind : List Cell}

/-- The cells of a row that take some of the columns from `left` to `right`. -/
def Row.cellsOver (left right : Nat) (row : Row) : List Cell :=
  (row.placed.filter fun place => left ≤ place.2.1.last && place.2.1.first ≤ right).map (·.2.2)

/-- The cells of a row that lie over the columns from `left` to `right`, between the others. -/
structure Row.PartedAt (row : Row) (left right : Nat) (before covered behind : List Cell) :
    Prop where
  cells : row.cells = before ++ (covered ++ behind)
  covering : Covering left right (before.map Cell.width) (covered.map Cell.width)

namespace Row.PartedAt

variable {first last : Cell} {rest init : List Cell}

theorem exists_of_lt (ordered : left ≤ right) (within : right < totalWidth row.cells) :
    ∃ before covered behind, row.PartedAt left right before covered behind := by
  rw [totalWidth_eq_sum] at within
  obtain ⟨before, covered, behind, cellsEq, covering⟩ := exists_covering _ ordered within
  exact ⟨before, covered, behind, cellsEq, covering⟩

theorem ne_nil (covers : row.PartedAt left right before covered behind) (ordered : left ≤ right) :
    covered ≠ [] := by
  rintro rfl
  have begins := covers.covering.begins
  have ends := covers.covering.ends
  simp only [List.map_nil, List.sum_nil] at ends
  omega

/-- The left column is looked up in the first of the cells. -/
theorem lookup_first (covers : row.PartedAt left right before covered behind)
    (coveredEq : covered = first :: rest) :
    row.cellIndex? left = some before.length ∧
      row.columnsAt? left = some ⟨totalWidth before, totalWidth before + first.width - 1⟩ := by
  have cellsEq : row.cells = before ++ first :: (rest ++ behind) := by
    rw [covers.cells, coveredEq, List.cons_append]
  have begins := covers.covering.begins
  have inFirst := covers.covering.first first.width (by rw [coveredEq]; rfl)
  rw [← totalWidth_eq_sum] at begins inFirst
  exact ⟨cellIndex?_of_over cellsEq begins inFirst, columnsAt?_of_over cellsEq begins inFirst⟩

/-- The right column is looked up in the last of the cells. -/
theorem lookup_last (covers : row.PartedAt left right before covered behind)
    (coveredEq : covered = init ++ [last]) :
    row.cellIndex? right = some (before.length + init.length) ∧
      row.columnsAt? right = some ⟨totalWidth (before ++ init),
        totalWidth before + totalWidth covered - 1⟩ := by
  have cellsEq : row.cells = (before ++ init) ++ last :: behind := by
    rw [covers.cells, coveredEq, List.append_assoc, List.append_assoc, List.singleton_append]
  have reaches := covers.covering.last last.width
    (by rw [coveredEq, List.getLast?_map, List.getLast?_concat]; rfl)
  have ends := covers.covering.ends
  rw [← totalWidth_eq_sum, ← totalWidth_eq_sum] at reaches ends
  have split : totalWidth (before ++ init) + last.width
      = totalWidth before + totalWidth covered := by
    rw [coveredEq, totalWidth_append, totalWidth_append, Nat.add_assoc]
    rfl
  rw [← List.length_append, ← split]
  exact ⟨cellIndex?_of_over cellsEq (by omega) (by omega),
    columnsAt?_of_over cellsEq (by omega) (by omega)⟩

/-- Each of the cells takes one of the columns. -/
theorem over_of_mem_placedFrom (covers : row.PartedAt left right before covered behind)
    {index : Nat} {place : Nat × ColumnRange × Cell}
    (member : place ∈ placedFrom index (totalWidth before) covered) :
    left ≤ place.2.1.last ∧ place.2.1.first ≤ right := by
  have positive := place.2.2.width_pos
  constructor
  · cases covered with
    | nil => exact absurd member List.not_mem_nil
    | cons first rest =>
        have inFirst := covers.covering.first first.width rfl
        rw [← totalWidth_eq_sum] at inFirst
        rcases List.mem_cons.mp member with rfl | inRest
        · dsimp only
          omega
        · obtain ⟨-, begins, ends⟩ := mem_of_mem_placedFrom inRest
          omega
  · rcases List.eq_nil_or_concat' covered with rfl | ⟨init, last, rfl⟩
    · exact absurd member List.not_mem_nil
    · have reaches := covers.covering.last last.width
        (by rw [List.getLast?_map, List.getLast?_concat]; rfl)
      rw [← totalWidth_eq_sum, ← totalWidth_eq_sum, totalWidth_append] at reaches
      change totalWidth before + (totalWidth init + last.width) ≤ right + last.width at reaches
      rw [placedFrom_append] at member
      rcases List.mem_append.mp member with inInit | isLast
      · have ends := last_lt_of_mem_placedFrom inInit
        have width := (mem_of_mem_placedFrom inInit).2.2
        omega
      · obtain rfl := List.mem_singleton.mp isLast
        dsimp only
        omega

theorem cellsOver_eq (covers : row.PartedAt left right before covered behind) :
    row.cellsOver left right = covered := by
  have begins := covers.covering.begins
  have ends := covers.covering.ends
  rw [← totalWidth_eq_sum] at begins ends
  rw [← totalWidth_eq_sum] at ends
  rw [cellsOver, placed, covers.cells, placedFrom_append, placedFrom_append, Nat.zero_add,
    Nat.zero_add, filter_append_append, map_cell_placedFrom]
  · intro place member
    have := last_lt_of_mem_placedFrom member
    rw [Bool.and_eq_false_iff, decide_eq_false_iff_not]
    omega
  · intro place member
    simpa using covers.over_of_mem_placedFrom member
  · intro place member
    have := (mem_of_mem_placedFrom member).2.1
    rw [Bool.and_eq_false_iff, decide_eq_false_iff_not, decide_eq_false_iff_not]
    omega

/-- Columns that are looked up in different cells lie under more than one. -/
theorem several (covers : row.PartedAt left right before covered behind) (ordered : left ≤ right)
    (apart : row.cellIndex? left ≠ row.cellIndex? right) : 2 ≤ covered.length := by
  cases covered with
  | nil => exact absurd rfl (covers.ne_nil ordered)
  | cons first rest =>
      cases rest with
      | nil =>
          have ofLeft := (covers.lookup_first rfl).1
          have ofRight := (covers.lookup_last (List.nil_append [first]).symm).1
          exact absurd (ofLeft.trans ofRight.symm) apart
      | cons second rest => exact Nat.le_add_left 2 rest.length

end Row.PartedAt

namespace Plan

variable {table : Table} {selection : Selection} {options : Options} {first last : Cell}

/-- The columns that cells take behind others. -/
def columnsBehind (before covered : List Cell) : ColumnRange :=
  ⟨Row.totalWidth before, Row.totalWidth before + Row.totalWidth covered - 1⟩

/-- The contents of cells side by side. -/
def joined (cells : List Cell) : Text :=
  Text.trim (List.intercalate [' '] (cells.map (·.content)))

/-- The cells of one row over the columns of a selection, which are more than one. -/
structure Merges (table : Table) (selection : Selection) (row : Row)
    (before covered behind : List Cell) : Prop where
  oneRow : selection.bounds.top = selection.bounds.bottom
  isRow : table.rows[selection.bounds.top]? = some row
  covers : row.PartedAt selection.bounds.left selection.bounds.right before covered behind
  several : 2 ≤ covered.length

/-- One merged cell is written in place of the cells. -/
theorem Merges.mergeCells_eq (merges : Merges table selection row before covered behind)
    (isFirst : covered.head? = some first) (isLast : covered.getLast? = some last) :
    mergeCells table selection options
      = [⟨⟨first.outer.start, last.outer.stop⟩, mergeText (columnsBehind before covered)
        (mergedColumn table (columnsBehind before covered) options) (joined covered)⟩] := by
  obtain ⟨rest, firstEq⟩ := List.head?_eq_some_iff.mp isFirst
  obtain ⟨init, lastEq⟩ := List.getLast?_eq_some_iff.mp isLast
  obtain ⟨firstIndex, firstColumns⟩ := merges.covers.lookup_first firstEq
  obtain ⟨lastIndex, lastColumns⟩ := merges.covers.lookup_last lastEq
  have several := merges.several
  have length : covered.length = init.length + 1 := by rw [lastEq, List.length_append]; rfl
  have different : before.length ≠ before.length + init.length := by omega
  have count : before.length + init.length + 1 - before.length = covered.length := by omega
  have cellsEq : (row.cells.drop before.length).take
      (before.length + init.length + 1 - before.length) = covered := by
    rw [merges.covers.cells, List.drop_left, count, List.take_left]
  simp only [mergeCells, if_pos merges.oneRow, merges.isRow, firstIndex, lastIndex, firstColumns,
    lastColumns, cellsEq, isFirst, isLast, if_neg different, Option.bind_eq_bind,
    Option.bind_some, Option.toList_some, columnsBehind, joined]

/-- An edit is only planned for cells of one row. -/
theorem exists_merges_of_ne_nil (planned : mergeCells table selection options ≠ []) :
    ∃ row before covered behind, Merges table selection row before covered behind := by
  unfold mergeCells at planned
  simp only [Option.bind_eq_bind, ne_eq, Option.toList_eq_nil_iff] at planned
  obtain ⟨edit, planned⟩ := Option.ne_none_iff_exists'.mp planned
  split at planned
  next oneRow =>
    obtain ⟨row, isRow, planned⟩ := Option.bind_eq_some_iff.mp planned
    obtain ⟨first, firstIndex, planned⟩ := Option.bind_eq_some_iff.mp planned
    obtain ⟨last, lastIndex, planned⟩ := Option.bind_eq_some_iff.mp planned
    have apart : row.cellIndex? selection.bounds.left ≠ row.cellIndex? selection.bounds.right := by
      rw [firstIndex, lastIndex]
      rintro ⟨⟩
      simp at planned
    have ordered := selection.left_le_right
    obtain ⟨before, covered, behind, covers⟩ :=
      Row.PartedAt.exists_of_lt ordered (Row.lt_totalWidth_of_cellIndex? lastIndex)
    exact ⟨row, before, covered, behind, oneRow, isRow, covers, covers.several ordered apart⟩
  next => simp at planned

/-- Merging plans nothing, or one merged cell in place of cells of one row. -/
theorem mergeCells_cases (table : Table) (selection : Selection) (options : Options) :
    mergeCells table selection options = [] ∨
      ∃ row before covered behind first last,
        Merges table selection row before covered behind ∧
        covered.head? = some first ∧ covered.getLast? = some last ∧
        mergeCells table selection options
          = [⟨⟨first.outer.start, last.outer.stop⟩, mergeText (columnsBehind before covered)
            (mergedColumn table (columnsBehind before covered) options) (joined covered)⟩] := by
  refine or_iff_not_imp_left.mpr fun planned => ?_
  obtain ⟨row, before, covered, behind, merges⟩ := exists_merges_of_ne_nil planned
  have nonempty := merges.covers.ne_nil selection.left_le_right
  have isFirst := List.head?_eq_some_head nonempty
  have isLast := List.getLast?_eq_some_getLast nonempty
  exact ⟨row, before, covered, behind, _, _, merges, isFirst, isLast,
    merges.mergeCells_eq isFirst isLast⟩

/-- Splitting plans nothing, or to take away what makes a cell of the selected row a merged one. -/
theorem unmergeCells_cases (table : Table) (selection : Selection) (options : Options) :
    unmergeCells table selection options = [] ∨
      ∃ row cell merge, table.rows[selection.anchor.row]? = some row ∧
        row.cellAt? selection.anchor.column = some cell ∧ cell.merge = some merge ∧
        unmergeCells table selection options
          = [.deletion merge.preamble,
            ⟨merge.postamble, Text.repeated (merge.columns - 1) options.bareSeparator⟩] := by
  unfold unmergeCells
  split
  next merge found =>
    obtain ⟨cell, isCell, merged⟩ := Option.bind_eq_some_iff.mp found
    simp only [Table.cellAt?, Option.bind_eq_bind] at isCell
    obtain ⟨row, isRow, isCell⟩ := Option.bind_eq_some_iff.mp isCell
    exact .inr ⟨row, cell, merge, isRow, isCell, merged, rfl⟩
  next => exact .inl rfl

end Plan

end LatexTabular
