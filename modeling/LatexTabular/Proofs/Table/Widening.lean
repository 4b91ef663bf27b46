import LatexTabular.Proofs.Table.Lookup
import LatexTabular.Table.Read
import Mathlib.Logic.Function.Iterate

/-!
# Widening a selection to whole cells

Columns keep the cells of a row whole when they contain each cell that they meet.  As cells take
consecutive columns, only the cells over the two outer columns decide this
(`Row.keepsWhole_iff`), so each side of a selection can be moved on its own, and a widened
selection is the least one that keeps the cells of its rows whole (`Selection.widened_least`).
Taking in the cells over both sides row by row, in passes, comes to the same
(`Selection.exists_iterate_sweep`).
-/

namespace LatexTabular

namespace Row

variable {row : Row} {left right column : Nat}

/-- The cell found over a column is the placed one that takes the column. -/
theorem columnsIn?_eq_some_iff {index first : Nat} {cells : List Cell} {range : ColumnRange}
    (behind : first ≤ column) :
    columnsIn? first cells column = some range ↔
      (∃ place ∈ placedFrom index first cells, place.2.1 = range) ∧
        range.first ≤ column ∧ column ≤ range.last := by
  induction cells generalizing index first with
  | nil => simp [columnsIn?, placedFrom]
  | cons cell rest ih =>
      have positive := cell.width_pos
      simp only [columnsIn?, placedFrom, List.exists_mem_cons_iff]
      split
      next inFirst =>
        constructor
        · intro found
          obtain rfl := Option.some.inj found
          exact ⟨.inl rfl, behind, inFirst⟩
        · rintro ⟨rfl | ⟨place, member, rfl⟩, begins, -⟩
          · rfl
          · have := (mem_of_mem_placedFrom member).2.1
            omega
      next notFirst =>
        have next : first + cell.width - 1 + 1 = first + cell.width := by omega
        rw [next, @ih (index + 1) (first + cell.width) (by omega)]
        refine and_congr_left fun taken => ⟨.inr, fun found => found.resolve_left ?_⟩
        rintro rfl
        exact notFirst taken.2

theorem columnsAt?_eq_some_iff {range : ColumnRange} :
    row.columnsAt? column = some range ↔
      (∃ place ∈ row.placed, place.2.1 = range) ∧ range.first ≤ column ∧ column ≤ range.last :=
  columnsIn?_eq_some_iff (Nat.zero_le column)

theorem le_cellStart_iff (inFront : left ≤ column) :
    left ≤ row.cellStart column ↔ ∀ range ∈ row.columnsAt? column, left ≤ range.first := by
  unfold cellStart
  cases row.columnsAt? column <;> simp [inFront]

theorem cellEnd_le_iff (behind : column ≤ right) :
    row.cellEnd column ≤ right ↔ ∀ range ∈ row.columnsAt? column, range.last ≤ right := by
  unfold cellEnd
  cases row.columnsAt? column <;> simp [behind]

/-- Whether some columns contain every cell of a row that they meet. -/
def KeepsWhole (left right : Nat) (row : Row) : Prop :=
  ∀ place ∈ row.placed, place.2.1.first ≤ right → left ≤ place.2.1.last →
    left ≤ place.2.1.first ∧ place.2.1.last ≤ right

/-- Columns keep all cells whole when the cells over the first and the last of them do not reach
out of them. -/
theorem keepsWhole_iff (ordered : left ≤ right) : row.KeepsWhole left right ↔
    left ≤ row.cellStart left ∧ row.cellEnd right ≤ right := by
  rw [le_cellStart_iff (Nat.le_refl _), cellEnd_le_iff (Nat.le_refl _)]
  constructor
  · intro whole
    refine ⟨fun range found => ?_, fun range found => ?_⟩
    · obtain ⟨⟨place, member, rfl⟩, begins, ends⟩ := columnsAt?_eq_some_iff.mp found
      exact (whole place member (Nat.le_trans begins ordered) ends).1
    · obtain ⟨⟨place, member, rfl⟩, begins, ends⟩ := columnsAt?_eq_some_iff.mp found
      exact (whole place member begins (Nat.le_trans ordered ends)).2
  · intro ⟨atLeft, atRight⟩ place member begins ends
    constructor
    · by_contra outside
      have taken := columnsAt?_eq_some_iff.mpr
        ⟨⟨place, member, rfl⟩, Nat.le_of_not_le outside, ends⟩
      exact outside (atLeft _ taken)
    · by_contra outside
      have taken := columnsAt?_eq_some_iff.mpr
        ⟨⟨place, member, rfl⟩, begins, Nat.le_of_not_le outside⟩
      exact outside (atRight _ taken)

/-- A side that splits no cell is not passed by the cells over columns behind it. -/
theorem le_cellStart_of_le (whole : left ≤ row.cellStart left) (behind : left ≤ column) :
    left ≤ row.cellStart column := by
  refine (le_cellStart_iff behind).mpr fun range found => ?_
  obtain ⟨isPlace, -, ends⟩ := columnsAt?_eq_some_iff.mp found
  by_contra outside
  have taken := columnsAt?_eq_some_iff.mpr
    ⟨isPlace, Nat.le_of_not_le outside, Nat.le_trans behind ends⟩
  exact outside ((le_cellStart_iff (Nat.le_refl _)).mp whole _ taken)

/-- A side that splits no cell is not passed by the cells over columns in front of it. -/
theorem cellEnd_le_of_le (whole : row.cellEnd right ≤ right) (inFront : column ≤ right) :
    row.cellEnd column ≤ right := by
  refine (cellEnd_le_iff inFront).mpr fun range found => ?_
  obtain ⟨isPlace, begins, -⟩ := columnsAt?_eq_some_iff.mp found
  by_contra outside
  have taken := columnsAt?_eq_some_iff.mpr
    ⟨isPlace, Nat.le_trans begins inFront, Nat.le_of_not_le outside⟩
  exact outside ((cellEnd_le_iff (Nat.le_refl _)).mp whole _ taken)

end Row

namespace Selection

variable {rows : List Row} {left right column : Nat}

theorem le_leastStart_iff : left ≤ leastStart rows column ↔
    left ≤ column ∧ ∀ row ∈ rows, left ≤ row.cellStart column := by
  have folded (least : Nat) :
      left ≤ rows.foldl (fun least row => min least (row.cellStart column)) least ↔
        left ≤ least ∧ ∀ row ∈ rows, left ≤ row.cellStart column := by
    induction rows generalizing least with
    | nil => simp
    | cons row rest ih => rw [List.foldl_cons, ih, Nat.le_min, List.forall_mem_cons, and_assoc]
  exact folded column

theorem greatestEnd_le_iff : greatestEnd rows column ≤ right ↔
    column ≤ right ∧ ∀ row ∈ rows, row.cellEnd column ≤ right := by
  have folded (greatest : Nat) :
      rows.foldl (fun greatest row => max greatest (row.cellEnd column)) greatest ≤ right ↔
        greatest ≤ right ∧ ∀ row ∈ rows, row.cellEnd column ≤ right := by
    induction rows generalizing greatest with
    | nil => simp
    | cons row rest ih => rw [List.foldl_cons, ih, Nat.max_le, List.forall_mem_cons, and_assoc]
  exact folded column

/-- A widened left side moves to the left. -/
theorem widenLeft_le (rows : List Row) (column : Nat) : widenLeft rows column ≤ column := by
  fun_induction widenLeft rows column with
  | case1 column wider ih => exact Nat.le_trans ih (Nat.le_of_lt wider)
  | case2 column => exact Nat.le_refl _

theorem le_widenRight (rows : List Row) (column : Nat) : column ≤ widenRight rows column := by
  fun_induction widenRight rows column with
  | case1 column wider ih => exact Nat.le_trans (Nat.le_of_lt wider) ih
  | case2 column => exact Nat.le_refl _

/-- A widened left side splits no cell. -/
theorem widenLeft_le_leastStart (rows : List Row) (column : Nat) :
    widenLeft rows column ≤ leastStart rows (widenLeft rows column) := by
  fun_induction widenLeft rows column with
  | case1 column wider ih => exact ih
  | case2 column settled => exact Nat.le_of_not_lt settled

/-- A widened right side splits no cell. -/
theorem greatestEnd_le_widenRight (rows : List Row) (column : Nat) :
    greatestEnd rows (widenRight rows column) ≤ widenRight rows column := by
  fun_induction widenRight rows column with
  | case1 column wider ih => exact ih
  | case2 column settled => exact Nat.le_of_not_lt settled

/-- Of the left sides that split no cell, the widened one is the next. -/
theorem le_widenLeft (whole : ∀ row ∈ rows, left ≤ row.cellStart left) (inFront : left ≤ column) :
    left ≤ widenLeft rows column := by
  fun_induction widenLeft rows column with
  | case1 column wider ih =>
      exact ih (le_leastStart_iff.mpr
        ⟨inFront, fun row member => Row.le_cellStart_of_le (whole row member) inFront⟩)
  | case2 column => exact inFront

/-- Of the right sides that split no cell, the widened one is the next. -/
theorem widenRight_le (whole : ∀ row ∈ rows, row.cellEnd right ≤ right) (behind : column ≤ right) :
    widenRight rows column ≤ right := by
  fun_induction widenRight rows column with
  | case1 column wider ih =>
      exact ih (greatestEnd_le_iff.mpr
        ⟨behind, fun row member => Row.cellEnd_le_of_le (whole row member) behind⟩)
  | case2 column => exact behind

/-- Widening both sides gives the least columns around some others that keep all cells whole. -/
theorem keepsWhole_widen (ordered : left ≤ right) :
    ∀ row ∈ rows, row.KeepsWhole (widenLeft rows left) (widenRight rows right) := by
  intro row member
  have leftOrdered := widenLeft_le rows left
  have rightOrdered := le_widenRight rows right
  refine (Row.keepsWhole_iff (by omega)).mpr ⟨?_, ?_⟩
  · exact (le_leastStart_iff.mp (widenLeft_le_leastStart rows left)).2 row member
  · exact (greatestEnd_le_iff.mp (greatestEnd_le_widenRight rows right)).2 row member

theorem widen_within {left' right' : Nat} (ordered : left ≤ right)
    (whole : ∀ row ∈ rows, row.KeepsWhole left' right') (inFront : left' ≤ left)
    (behind : right ≤ right') :
    left' ≤ widenLeft rows left ∧ widenRight rows right ≤ right' := by
  have ordered' : left' ≤ right' := by omega
  refine ⟨le_widenLeft (fun row member => ?_) inFront, widenRight_le (fun row member => ?_) behind⟩
  · exact ((Row.keepsWhole_iff ordered').mp (whole row member)).1
  · exact ((Row.keepsWhole_iff ordered').mp (whole row member)).2

/-- Widen some columns by the cell of a row over one of them. -/
def takeIn (row : Row) (columns : ColumnRange) (column : Nat) : ColumnRange :=
  match row.columnsAt? column with
  | some range => ⟨min columns.first range.first, max columns.last range.last⟩
  | none => columns

/-- Widen some columns by the cells of a row over the first and the last of them. -/
def sweepRow (columns : ColumnRange) (row : Row) : ColumnRange :=
  [columns.first, columns.last].foldl (takeIn row) columns

/-- One pass over rows that takes in the cells over both outer columns, row by row. -/
def sweep (rows : List Row) (columns : ColumnRange) : ColumnRange :=
  rows.foldl sweepRow columns

/-- Whether some columns, at least one, lie among others. -/
structure Among (inner outer : ColumnRange) : Prop where
  first_le : outer.first ≤ inner.first
  ordered : inner.first ≤ inner.last
  last_le : inner.last ≤ outer.last

section Sweep

variable {columns wide : ColumnRange}

theorem Among.refl (ordered : columns.first ≤ columns.last) : Among columns columns :=
  ⟨Nat.le_refl _, ordered, Nat.le_refl _⟩

theorem Among.trans {inner : ColumnRange} (first : Among inner columns)
    (second : Among columns wide) : Among inner wide :=
  ⟨Nat.le_trans second.first_le first.first_le, first.ordered,
    Nat.le_trans first.last_le second.last_le⟩

theorem Among.antisymm (first : Among columns wide) (second : Among wide columns) :
    columns = wide := by
  obtain ⟨_, _⟩ := columns
  obtain ⟨_, _⟩ := wide
  rw [ColumnRange.mk.injEq]
  exact ⟨Nat.le_antisymm second.first_le first.first_le,
    Nat.le_antisymm first.last_le second.last_le⟩

theorem among_takeIn (row : Row) (ordered : columns.first ≤ columns.last) (column : Nat) :
    Among columns (takeIn row columns column) := by
  unfold takeIn
  split
  · exact ⟨Nat.min_le_left .., ordered, Nat.le_max_left ..⟩
  · exact .refl ordered

/-- What keeps the cells of a row whole contains all that is taken in. -/
theorem takeIn_among {row : Row} (whole : row.KeepsWhole wide.first wide.last)
    (among : Among columns wide) (begins : wide.first ≤ column) (ends : column ≤ wide.last) :
    Among (takeIn row columns column) wide := by
  have ordered := among.ordered
  unfold takeIn
  split
  next range found =>
    obtain ⟨⟨place, member, rfl⟩, fromFirst, toLast⟩ := Row.columnsAt?_eq_some_iff.mp found
    have within := whole place member (Nat.le_trans fromFirst ends) (Nat.le_trans begins toLast)
    exact ⟨Nat.le_min.mpr ⟨among.first_le, within.1⟩, by dsimp only; omega,
      Nat.max_le.mpr ⟨among.last_le, within.2⟩⟩
  next => exact among

theorem among_sweepRow (row : Row) (ordered : columns.first ≤ columns.last) :
    Among columns (sweepRow columns row) := by
  have first := among_takeIn row ordered columns.first
  have grown : (takeIn row columns columns.first).first
      ≤ (takeIn row columns columns.first).last :=
    Nat.le_trans first.first_le (Nat.le_trans ordered first.last_le)
  exact first.trans (among_takeIn row grown columns.last)

theorem sweepRow_among {row : Row} (whole : row.KeepsWhole wide.first wide.last)
    (among : Among columns wide) : Among (sweepRow columns row) wide := by
  have begins := among.first_le
  have ends := among.last_le
  have ordered := among.ordered
  have first := takeIn_among whole among begins (Nat.le_trans ordered ends)
  exact takeIn_among whole first (Nat.le_trans begins ordered) ends

theorem among_sweep (rows : List Row) (ordered : columns.first ≤ columns.last) :
    Among columns (sweep rows columns) := by
  induction rows generalizing columns with
  | nil => exact .refl ordered
  | cons row rest ih =>
      have first := among_sweepRow row ordered
      exact first.trans (ih (Nat.le_trans first.first_le (Nat.le_trans ordered first.last_le)))

theorem sweep_among (whole : ∀ row ∈ rows, row.KeepsWhole wide.first wide.last)
    (among : Among columns wide) : Among (sweep rows columns) wide := by
  induction rows generalizing columns with
  | nil => exact among
  | cons row rest ih =>
      obtain ⟨wholeFirst, wholeRest⟩ := List.forall_mem_cons.mp whole
      exact ih wholeRest (sweepRow_among wholeFirst among)

/-- Columns that a pass over a row leaves keep its cells whole. -/
theorem keepsWhole_of_sweepRow_eq {row : Row} (ordered : columns.first ≤ columns.last)
    (settled : sweepRow columns row = columns) : row.KeepsWhole columns.first columns.last := by
  have first := among_takeIn row ordered columns.first
  have grown := Nat.le_trans first.first_le (Nat.le_trans ordered first.last_le)
  have second := among_takeIn row grown columns.last
  -- Neither of the two cells adds a column.
  have secondEq : takeIn row (takeIn row columns columns.first) columns.last = columns := settled
  rw [secondEq] at second
  have firstEq := second.antisymm first
  rw [firstEq] at secondEq
  rw [Row.keepsWhole_iff ordered, Row.le_cellStart_iff (Nat.le_refl _),
    Row.cellEnd_le_iff (Nat.le_refl _)]
  constructor
  · intro range found
    have reached := congrArg ColumnRange.first firstEq
    simp only [takeIn, Option.mem_def.mp found] at reached
    omega
  · intro range found
    have reached := congrArg ColumnRange.last secondEq
    simp only [takeIn, Option.mem_def.mp found] at reached
    omega

/-- Columns that a pass leaves keep the cells of all rows whole. -/
theorem keepsWhole_of_sweep_eq (ordered : columns.first ≤ columns.last)
    (settled : sweep rows columns = columns) :
    ∀ row ∈ rows, row.KeepsWhole columns.first columns.last := by
  induction rows with
  | nil => exact fun _ member => absurd member List.not_mem_nil
  | cons row rest ih =>
      have first := among_sweepRow row ordered
      have grown := Nat.le_trans first.first_le (Nat.le_trans ordered first.last_le)
      have others := among_sweep rest grown
      have wholeEq : sweep rest (sweepRow columns row) = columns := settled
      rw [wholeEq] at others
      have firstEq := others.antisymm first
      rw [firstEq] at wholeEq
      exact List.forall_mem_cons.mpr ⟨keepsWhole_of_sweepRow_eq ordered firstEq, ih wholeEq⟩

/-- Repeated passes come to the least columns around the given ones that keep the cells of all
rows whole. -/
theorem exists_iterate_sweep_of_among (among : Among columns wide)
    (whole : ∀ row ∈ rows, row.KeepsWhole wide.first wide.last)
    (least : ∀ other, Among columns other →
      (∀ row ∈ rows, row.KeepsWhole other.first other.last) → Among wide other) :
    ∃ passes, (sweep rows)^[passes] columns = wide := by
  -- Each pass that does not settle takes in one of the columns that are missing.
  induction missing : columns.first - wide.first + (wide.last - columns.last)
    using Nat.strongRecOn generalizing columns with
  | ind count ih =>
      by_cases settled : sweep rows columns = columns
      · have keeps := keepsWhole_of_sweep_eq among.ordered settled
        exact ⟨0, among.antisymm (least columns (.refl among.ordered) keeps)⟩
      · have grown := among_sweep rows among.ordered
        have bounded := sweep_among whole among
        have further : (sweep rows columns).first < columns.first ∨
            columns.last < (sweep rows columns).last := by
          by_contra none
          rw [not_or, Nat.not_lt, Nat.not_lt] at none
          exact settled (grown.antisymm ⟨none.1, bounded.ordered, none.2⟩).symm
        have fewer : (sweep rows columns).first - wide.first
            + (wide.last - (sweep rows columns).last) < count := by
          obtain ⟨firstLe, -, lastLe⟩ := grown
          obtain ⟨wideFirstLe, -, lastLeWide⟩ := bounded
          omega
        obtain ⟨passes, reached⟩ := ih _ fewer bounded
          (fun other around => least other (grown.trans around)) rfl
        exact ⟨passes + 1, reached⟩

/-- Repeated passes come to the widened columns and stay there. -/
theorem exists_iterate_sweep (rows : List Row) (ordered : left ≤ right) :
    sweep rows ⟨widenLeft rows left, widenRight rows right⟩
        = ⟨widenLeft rows left, widenRight rows right⟩ ∧
      ∃ passes, (sweep rows)^[passes] ⟨left, right⟩
        = ⟨widenLeft rows left, widenRight rows right⟩ := by
  have whole := @keepsWhole_widen rows left right ordered
  have around : Among ⟨left, right⟩ ⟨widenLeft rows left, widenRight rows right⟩ :=
    ⟨widenLeft_le rows left, ordered, le_widenRight rows right⟩
  have wideOrdered := Nat.le_trans around.first_le (Nat.le_trans ordered around.last_le)
  refine ⟨(sweep_among whole (.refl wideOrdered)).antisymm (among_sweep rows wideOrdered),
    exists_iterate_sweep_of_among around whole fun other outside keeps => ?_⟩
  obtain ⟨begins, ends⟩ := widen_within ordered keeps outside.first_le outside.last_le
  exact ⟨begins, wideOrdered, ends⟩

end Sweep

/-- Whether a selection lies within another. -/
structure Covers (larger selection : Selection) : Prop where
  left_le : larger.bounds.left ≤ selection.bounds.left
  le_right : selection.bounds.right ≤ larger.bounds.right
  top_le : larger.bounds.top ≤ selection.bounds.top
  le_bottom : selection.bounds.bottom ≤ larger.bounds.bottom

/-- The selected rows are those from the top to the bottom that the table has. -/
theorem mem_rows_iff {selection : Selection} {table : Table} {row : Row} :
    row ∈ selection.rows table ↔ ∃ index, selection.bounds.top ≤ index ∧
      index ≤ selection.bounds.bottom ∧ table.rows[index]? = some row := by
  have ordered := selection.top_le_bottom
  simp only [rows, height, List.mem_iff_getElem?, List.getElem?_take, List.getElem?_drop]
  constructor
  · rintro ⟨index, found⟩
    split at found
    · exact ⟨_, Nat.le_add_right .., by omega, found⟩
    · simp at found
  · rintro ⟨index, begins, ends, found⟩
    refine ⟨index - selection.bounds.top, ?_⟩
    rw [if_pos (by omega), Nat.add_sub_cancel' begins]
    exact found

/-- Whether some columns contain every cell of the selected rows that they meet. -/
def KeepsWhole (selection : Selection) (table : Table) (left right : Nat) : Prop :=
  ∀ index, selection.bounds.top ≤ index → index ≤ selection.bounds.bottom →
    ∀ row ∈ table.rows[index]?, ∀ place ∈ row.placed,
      place.2.1.first ≤ right → left ≤ place.2.1.last →
        left ≤ place.2.1.first ∧ place.2.1.last ≤ right

theorem keepsWhole_iff_rows {selection : Selection} {table : Table} :
    selection.KeepsWhole table left right ↔
      ∀ row ∈ selection.rows table, row.KeepsWhole left right := by
  simp only [KeepsWhole, Row.KeepsWhole, mem_rows_iff]
  exact ⟨fun keeps row ⟨index, begins, ends, found⟩ => keeps index begins ends row found,
    fun keeps index begins ends row found => keeps row ⟨index, begins, ends, found⟩⟩

section Widened

variable {selection larger : Selection} {table : Table}

/-- A widened selection keeps its rows, and its columns are the widened ones. -/
theorem bounds_widened (selection : Selection) (table : Table) :
    (selection.widened table).bounds
      = ⟨widenLeft (selection.rows table) selection.bounds.left,
        widenRight (selection.rows table) selection.bounds.right,
        selection.bounds.top, selection.bounds.bottom⟩ := by
  have leftLe := widenLeft_le (selection.rows table) selection.bounds.left
  have leRight := le_widenRight (selection.rows table) selection.bounds.right
  have columnsOrdered := selection.left_le_right
  have rowsOrdered := selection.top_le_bottom
  rw [bounds]
  simp only [widened, Bounds.mk.injEq]
  omega

theorem rows_widened (selection : Selection) (table : Table) :
    (selection.widened table).rows table = selection.rows table := by
  simp only [rows, height, bounds_widened]

theorem widened_widened (selection : Selection) (table : Table) :
    (selection.widened table).widened table = selection.widened table := by
  have ordered := selection.left_le_right
  have whole := @keepsWhole_widen (selection.rows table) _ _ ordered
  have leftLe := widenLeft_le (selection.rows table) selection.bounds.left
  have leRight := le_widenRight (selection.rows table) selection.bounds.right
  obtain ⟨begins, ends⟩ := widen_within (Nat.le_trans leftLe (Nat.le_trans ordered leRight)) whole
    (Nat.le_refl _) (Nat.le_refl _)
  have leftEq := Nat.le_antisymm (widenLeft_le _ _) begins
  have rightEq := Nat.le_antisymm ends (le_widenRight _ _)
  have shape (selection : Selection) : selection.widened table
      = ⟨⟨selection.bounds.top, widenLeft (selection.rows table) selection.bounds.left⟩,
        ⟨selection.bounds.bottom, widenRight (selection.rows table) selection.bounds.right⟩⟩ := rfl
  rw [shape (selection.widened table), rows_widened, bounds_widened]
  dsimp only
  rw [leftEq, rightEq, ← shape]

theorem covers_widened (covers : larger.Covers selection) :
    (larger.widened table).Covers (selection.widened table) := by
  have isPart : ∀ row ∈ selection.rows table, row ∈ larger.rows table := by
    intro row member
    obtain ⟨index, begins, ends, found⟩ := mem_rows_iff.mp member
    exact mem_rows_iff.mpr ⟨index, Nat.le_trans covers.top_le begins,
      Nat.le_trans ends covers.le_bottom, found⟩
  have whole := @keepsWhole_widen (larger.rows table) _ _ larger.left_le_right
  have leftLe := widenLeft_le (larger.rows table) larger.bounds.left
  have leRight := le_widenRight (larger.rows table) larger.bounds.right
  obtain ⟨begins, ends⟩ := widen_within selection.left_le_right
    (fun row member => whole row (isPart row member)) (Nat.le_trans leftLe covers.left_le)
    (Nat.le_trans covers.le_right leRight)
  constructor <;> rw [bounds_widened, bounds_widened]
  · exact begins
  · exact ends
  · exact covers.top_le
  · exact covers.le_bottom

end Widened

/-- A widened selection has the same rows and the least columns around the selected ones that
contain every cell of these rows that they meet.  Taking in the cells over the outer columns row
by row comes to it after finitely many passes.  So a widened selection stays as it is, and a
larger selection is widened to one at least as large. -/
theorem widened_least (selection : Selection) (table : Table) :
    ∃ left right, selection.widened table
        = ⟨⟨selection.bounds.top, left⟩, ⟨selection.bounds.bottom, right⟩⟩ ∧
      left ≤ selection.bounds.left ∧ selection.bounds.right ≤ right ∧
      selection.KeepsWhole table left right ∧
      (∀ left' right', left' ≤ selection.bounds.left → selection.bounds.right ≤ right' →
        selection.KeepsWhole table left' right' → left' ≤ left ∧ right ≤ right') ∧
      (∃ passes, (sweep (selection.rows table))^[passes]
          ⟨selection.bounds.left, selection.bounds.right⟩ = ⟨left, right⟩) ∧
      sweep (selection.rows table) ⟨left, right⟩ = ⟨left, right⟩ ∧
      (selection.widened table).widened table = selection.widened table ∧
      ∀ larger : Selection, larger.Covers selection →
        (larger.widened table).Covers (selection.widened table) := by
  have ordered := selection.left_le_right
  obtain ⟨settled, passes, reached⟩ := exists_iterate_sweep (selection.rows table) ordered
  refine ⟨_, _, rfl, widenLeft_le _ _, le_widenRight _ _, ?_, ?_, ⟨passes, reached⟩, settled,
    widened_widened selection table, fun larger covers => covers_widened covers⟩
  · exact keepsWhole_iff_rows.mpr (keepsWhole_widen ordered)
  · intro left' right' begins ends keeps
    exact widen_within ordered (keepsWhole_iff_rows.mp keeps) begins ends

/-- Two rows in which merged cells reach over one another, and a third one with a wider cell. -/
def chainedTable : Text :=
  ("\\begin{tabular}{lllll}a&\\multicolumn{2}{c}{b}&c&d\\\\"
    ++ "\\multicolumn{2}{c}{e}&\\multicolumn{2}{c}{f}&g\\\\"
    ++ "\\multicolumn{5}{c}{h}\\\\\\end{tabular}").toList

/-- In the first two rows column two is widened to the columns from zero to three, and a selection
that reaches over the third row takes them in too. -/
theorem widened_least_chainedTable :
    ∃ table, Table.readFirst chainedTable = .ok table ∧
      widened ⟨⟨1, 2⟩, ⟨0, 2⟩⟩ table = ⟨⟨0, 0⟩, ⟨1, 3⟩⟩ ∧
      KeepsWhole ⟨⟨1, 2⟩, ⟨0, 2⟩⟩ table 0 3 ∧
      Covers (widened ⟨⟨0, 2⟩, ⟨2, 2⟩⟩ table) ⟨⟨0, 0⟩, ⟨1, 3⟩⟩ := by
  have evaluated : (Table.readFirst chainedTable).map (widened ⟨⟨1, 2⟩, ⟨0, 2⟩⟩)
      = .ok ⟨⟨0, 0⟩, ⟨1, 3⟩⟩ := by decide +kernel
  cases found : Table.readFirst chainedTable with
  | error _ => simp [found, Except.map] at evaluated
  | ok table =>
      rw [found] at evaluated
      have widenedEq := Except.ok.inj evaluated
      obtain ⟨left, right, shape, -, -, keeps, -, -, -, -, monotone⟩ :=
        widened_least ⟨⟨1, 2⟩, ⟨0, 2⟩⟩ table
      rw [widenedEq] at shape
      obtain ⟨rfl, rfl⟩ : left = 0 ∧ right = 3 := by
        simp only [Selection.mk.injEq, Position.mk.injEq] at shape
        omega
      have larger := monotone ⟨⟨0, 2⟩, ⟨2, 2⟩⟩ (by constructor <;> decide)
      rw [widenedEq] at larger
      exact ⟨table, rfl, widenedEq, keeps, larger⟩

end Selection

end LatexTabular
