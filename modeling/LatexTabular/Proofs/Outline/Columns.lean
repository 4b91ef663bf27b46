import LatexTabular.Proofs.Outline.Basic
import Mathlib.Tactic.Common

/-!
# Columns of an outline

Inserting and removing columns goes cell by cell from the left.  A column that is
inserted and removed again leaves no trace (`removeColumnsIn_insertColumnIn`).
-/

namespace LatexTabular.Outline

namespace Cell

theorem width_pos (cell : Cell) : 0 < cell.width := by
  unfold width
  split <;> omega

/-- A cell that takes as many columns as it is written with. -/
def WellFormed (cell : Cell) : Prop := ∀ merge ∈ cell.merge, 1 ≤ merge.columns

/-- A cell of several columns is merged. -/
theorem width_resized {cell : Cell} {columns : Nat} (wide : 1 < cell.width)
    (positive : 1 ≤ columns) : (cell.resized columns).width = columns := by
  obtain ⟨content, merge⟩ := cell
  cases merge with
  | none => exact absurd wide (Nat.lt_irrefl 1)
  | some merge =>
      simp only [resized, width, Option.map_some]
      omega

theorem resized_resized (cell : Cell) (first second : Nat) :
    (cell.resized first).resized second = cell.resized second := by
  obtain ⟨content, merge⟩ := cell
  cases merge <;> rfl

/-- A cell keeps its columns when it gets as many as it takes. -/
theorem resized_width {cell : Cell} (wellFormed : cell.WellFormed) :
    cell.resized cell.width = cell := by
  obtain ⟨content, merge⟩ := cell
  cases merge with
  | none => rfl
  | some merge =>
      have positive : max merge.columns 1 = merge.columns := Nat.max_eq_left (wellFormed merge rfl)
      simp [resized, width, positive]

end Cell

@[simp] theorem totalWidth_nil : totalWidth [] = 0 := rfl

@[simp] theorem totalWidth_cons (cell : Cell) (rest : List Cell) :
    totalWidth (cell :: rest) = cell.width + totalWidth rest := rfl

@[simp] theorem totalWidth_append (left right : List Cell) :
    totalWidth (left ++ right) = totalWidth left + totalWidth right := by
  simp [totalWidth]

@[simp] theorem totalWidth_replicate_blank (count : Nat) :
    totalWidth (List.replicate count .blank) = count := by
  simp [totalWidth, Cell.width, Cell.blank]

section Insertion

theorem insertColumnIn_zero (cells : List Cell) : insertColumnIn 0 cells = .blank :: cells := by
  cases cells <;> rfl

/-- Cells in front of the new column stay. -/
theorem insertColumnIn_append_of_le {cells : List Cell} (rest : List Cell) {index : Nat}
    (le : totalWidth cells ≤ index) :
    insertColumnIn index (cells ++ rest)
      = cells ++ insertColumnIn (index - totalWidth cells) rest := by
  induction cells generalizing index with
  | nil => rfl
  | cons cell others ih =>
      have positive := cell.width_pos
      rw [totalWidth_cons] at le
      have notZero : index ≠ 0 := by omega
      have notWithin : ¬ index < cell.width := by omega
      have behind := @ih (index - cell.width) (by omega)
      rw [List.cons_append, insertColumnIn, if_neg notZero, if_neg notWithin, behind,
        totalWidth_cons, Nat.sub_sub, List.cons_append]

/-- Cells behind the new column stay. -/
theorem insertColumnIn_append_of_ge {cells : List Cell} (rest : List Cell) {index : Nat}
    (within : index ≤ totalWidth cells) :
    insertColumnIn index (cells ++ rest) = insertColumnIn index cells ++ rest := by
  induction cells generalizing index with
  | nil =>
      obtain rfl : index = 0 := Nat.le_zero.mp within
      exact insertColumnIn_zero rest
  | cons cell others ih =>
      rw [totalWidth_cons] at within
      have behind := @ih (index - cell.width) (by omega)
      simp only [List.cons_append, insertColumnIn, behind]
      split
      · rfl
      · split <;> rfl

/-- A cell on both sides of the new column grows. -/
theorem insertColumnIn_of_lt {cell : Cell} (rest : List Cell) {index : Nat} (notZero : index ≠ 0)
    (within : index < cell.width) :
    insertColumnIn index (cell :: rest) = cell.resized (cell.width + 1) :: rest := by
  rw [insertColumnIn, if_neg notZero, if_pos within]

theorem totalWidth_insertColumnIn {cells : List Cell} {index : Nat}
    (within : index ≤ totalWidth cells) :
    totalWidth (insertColumnIn index cells) = totalWidth cells + 1 := by
  induction cells generalizing index with
  | nil => rfl
  | cons cell rest ih =>
      rw [totalWidth_cons] at within
      by_cases notZero : index = 0
      · subst notZero
        rw [insertColumnIn_zero, totalWidth_cons, Nat.add_comm]
        rfl
      by_cases inside : index < cell.width
      · have resized := @Cell.width_resized cell (cell.width + 1) (by omega) (by omega)
        rw [insertColumnIn_of_lt rest notZero inside, totalWidth_cons, totalWidth_cons, resized]
        omega
      · have others := @ih (index - cell.width) (by omega)
        rw [insertColumnIn, if_neg notZero, if_neg inside, totalWidth_cons, totalWidth_cons, others,
          Nat.add_assoc]

theorem insertColumnIn_replicate_blank {index count : Nat} (le : index ≤ count) :
    insertColumnIn index (List.replicate count .blank) = List.replicate (count + 1) .blank := by
  have parts : List.replicate count Cell.blank
      = List.replicate index .blank ++ List.replicate (count - index) .blank := by
    rw [List.replicate_append_replicate]
    congr 1
    omega
  rw [parts, insertColumnIn_append_of_le _ (by simp), totalWidth_replicate_blank, Nat.sub_self,
    insertColumnIn_zero, ← List.replicate_succ, List.replicate_append_replicate]
  congr 1
  omega

end Insertion

section Removal

variable {left right : Nat}

theorem removeColumnsIn_append (left right first : Nat) (cells rest : List Cell) :
    removeColumnsIn left right first (cells ++ rest)
      = removeColumnsIn left right first cells
        ++ removeColumnsIn left right (first + totalWidth cells) rest := by
  induction cells generalizing first with
  | nil => rfl
  | cons cell others ih =>
      simp only [List.cons_append, removeColumnsIn, ih, totalWidth_cons, Nat.add_assoc]
      split
      · rfl
      · split <;> rfl

/-- Cells on one side of the removed columns stay. -/
theorem removeColumnsIn_of_disjoint {first : Nat} {cells : List Cell}
    (disjoint : first + totalWidth cells ≤ left ∨ right < first) :
    removeColumnsIn left right first cells = cells := by
  induction cells generalizing first with
  | nil => rfl
  | cons cell rest ih =>
      have positive := cell.width_pos
      rw [totalWidth_cons] at disjoint
      have others := @ih (first + cell.width) (by omega)
      have none : coveredCount left right first cell.width = 0 := by
        unfold coveredCount
        omega
      rw [removeColumnsIn]
      simp only [none, others, Nat.ne_of_lt positive, if_false, if_true]

/-- Removing columns makes cells narrower by as many of these columns as they
take. -/
theorem totalWidth_removeColumnsIn (left right first : Nat) (cells : List Cell) :
    totalWidth (removeColumnsIn left right first cells)
        + coveredCount left right first (totalWidth cells)
      = totalWidth cells := by
  induction cells generalizing first with
  | nil =>
      simp only [removeColumnsIn, totalWidth_nil, coveredCount]
      omega
  | cons cell rest ih =>
      have others := ih (first + cell.width)
      have parts : coveredCount left right first (cell.width + totalWidth rest)
          = coveredCount left right first cell.width
            + coveredCount left right (first + cell.width) (totalWidth rest) := by
        unfold coveredCount
        omega
      have fewer : coveredCount left right first cell.width ≤ cell.width := by
        unfold coveredCount
        omega
      rw [removeColumnsIn, totalWidth_cons, parts]
      split
      next whole => omega
      split
      next none =>
        rw [totalWidth_cons]
        omega
      next some all =>
        have resized := @Cell.width_resized cell
          (cell.width - coveredCount left right first cell.width) (by omega) (by omega)
        rw [totalWidth_cons, resized]
        omega

/-- Of blank cells as many stay as columns do. -/
theorem removeColumnsIn_replicate_blank (left right first count : Nat) :
    removeColumnsIn left right first (List.replicate count .blank)
      = List.replicate (count - coveredCount left right first count) .blank := by
  have width := totalWidth_removeColumnsIn left right first (List.replicate count .blank)
  rw [totalWidth_replicate_blank] at width
  have blank : ∀ cell ∈ removeColumnsIn left right first (List.replicate count .blank),
      cell = Cell.blank := by
    clear width
    induction count generalizing first with
    | zero => simp [removeColumnsIn]
    | succ count ih =>
        intro cell member
        rw [List.replicate_succ, removeColumnsIn] at member
        split at member
        · exact ih _ cell member
        split at member
        · rcases List.mem_cons.mp member with rfl | member
          · rfl
          · exact ih _ cell member
        · rcases List.mem_cons.mp member with rfl | member
          · rfl
          · exact ih _ cell member
  have replicated := List.eq_replicate_of_mem blank
  rw [replicated, totalWidth_replicate_blank] at width
  rw [replicated]
  congr 1
  omega

end Removal

/-- A column that is inserted and removed again leaves no trace. -/
theorem removeColumnsIn_insertColumnIn {index : Nat} {cells : List Cell} (first : Nat)
    (wellFormed : ∀ cell ∈ cells, cell.WellFormed) (within : index ≤ totalWidth cells) :
    removeColumnsIn (first + index) (first + index) first (insertColumnIn index cells)
      = cells := by
  induction cells generalizing first index with
  | nil =>
      obtain rfl : index = 0 := Nat.le_zero.mp within
      simp [insertColumnIn, removeColumnsIn, coveredCount, Cell.width, Cell.blank]
  | cons cell rest ih =>
      have positive := cell.width_pos
      rw [totalWidth_cons] at within
      by_cases notZero : index = 0
      · subst notZero
        have stay := @removeColumnsIn_of_disjoint first first (first + 1) (cell :: rest)
          (Or.inr (by omega))
        have blank : coveredCount first first first Cell.blank.width = Cell.blank.width := by
          simp only [coveredCount, Cell.blank, Cell.width]
          omega
        rw [insertColumnIn_zero, Nat.add_zero, removeColumnsIn]
        simp only [blank, if_true]
        exact stay
      by_cases inside : index < cell.width
      · have resized := @Cell.width_resized cell (cell.width + 1) (by omega) (by omega)
        have one : coveredCount (first + index) (first + index) first (cell.width + 1) = 1 := by
          unfold coveredCount
          omega
        have stay := @removeColumnsIn_of_disjoint (first + index) (first + index)
          (first + (cell.width + 1)) rest (Or.inr (by omega))
        have notAll : ¬ 1 = cell.width + 1 := by omega
        have cellWellFormed := wellFormed cell List.mem_cons_self
        rw [insertColumnIn_of_lt rest notZero inside, removeColumnsIn]
        simp only [resized, one, stay, notAll, if_false, Nat.one_ne_zero, Cell.resized_resized,
          Nat.add_sub_cancel, Cell.resized_width cellWellFormed]
      · have others := @ih (index - cell.width) (first + cell.width)
          (fun other member => wellFormed other (List.mem_cons_of_mem _ member)) (by omega)
        have sameColumn : first + cell.width + (index - cell.width) = first + index := by omega
        have none : coveredCount (first + index) (first + index) first cell.width = 0 := by
          unfold coveredCount
          omega
        rw [sameColumn] at others
        rw [insertColumnIn, if_neg notZero, if_neg inside, removeColumnsIn]
        simp only [none, others, Nat.ne_of_lt positive, if_false, if_true]

/-- A column that is inserted and removed again takes no more than the bars in front of
the first one. -/
theorem removeColumns_insertColumn_heading (heading : Heading) (index : Nat) :
    (heading.insertColumn index).removeColumns index index
      = if index = 0 then { heading with bars := 0 } else heading := by
  by_cases atFront : index = 0
  · subst atFront
    simp [Heading.insertColumn, Heading.removeColumns]
  · have letters := @List.eraseIdx_insertIdx_self _ index heading.letters .plain
    rw [List.eraseIdx_eq_take_drop_succ] at letters
    simp only [Heading.insertColumn, Heading.removeColumns, atFront, if_false, letters]

/-- Rows over all columns are the same again when a column has been inserted and
removed. -/
theorem removeColumns_insertColumn {outline : Outline} {index : Nat}
    (wellFormed : ∀ row ∈ outline.rows, ∀ cell ∈ row.cells, cell.WellFormed)
    (within : ∀ row ∈ outline.rows, index ≤ totalWidth row.cells) :
    (outline.insertColumn index).removeColumns index index
      = { outline with
          heading := (outline.heading.insertColumn index).removeColumns index index } := by
  have rows : (outline.rows.map fun row => { row with
        cells := removeColumnsIn index index 0 (insertColumnIn index row.cells) }) = outline.rows := by
    conv => rhs; rw [← List.map_id outline.rows]
    refine List.map_congr_left fun row member => ?_
    have cells := @removeColumnsIn_insertColumnIn index row.cells 0 (wellFormed row member)
      (within row member)
    rw [Nat.zero_add] at cells
    rw [cells]
    rfl
  simp only [insertColumn, removeColumns, List.map_map]
  exact congrArg (fun rows => { outline with
    heading := (outline.heading.insertColumn index).removeColumns index index, rows }) rows

end LatexTabular.Outline
