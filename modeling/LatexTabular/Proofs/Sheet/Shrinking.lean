import LatexTabular.Proofs.Sheet.Insertion

/-!
# Merged cells that lose columns

Removing columns from a row gives the merged cells that lie partly in them a smaller
number, which rewrites the text of any run of cells (`rewrites_frontText_shrunk`,
`rewrites_backText_shrunk`).
-/

namespace LatexTabular

open Text Outline

variable {left right : Nat}

/-- An entry that starts at column `first`, without the columns from `left` to
`right`.  An entry that lies wholly there stays. -/
def Entry.shrunk (left right first : Nat) (entry : Entry) : Entry :=
  let count := coveredCount left right first entry.width
  if 0 < count ∧ count < entry.width then entry.resized (entry.width - count) else entry

/-- Cells of which the first starts at column `first`, with their entries shrunk. -/
def shrunkCells (left right : Nat) : (first : Nat) → List WrittenCell → List WrittenCell
  | _, [] => []
  | first, cell :: rest =>
      { cell with entry := cell.entry.shrunk left right first }
        :: shrunkCells left right (first + cell.entry.width) rest

theorem shrunkCells_append (left right first : Nat) (cells rest : List WrittenCell) :
    shrunkCells left right first (cells ++ rest)
      = shrunkCells left right first cells
        ++ shrunkCells left right (first + (cells.map (·.entry.width)).sum) rest := by
  induction cells generalizing first with
  | nil => rfl
  | cons cell others ih =>
      simp only [List.cons_append, shrunkCells, ih, List.map_cons, List.sum_cons, Nat.add_assoc]

theorem shrunkCells_eq_nil_iff {first : Nat} {cells : List WrittenCell} :
    shrunkCells left right first cells = [] ↔ cells = [] := by
  cases cells <;> simp [shrunkCells]

theorem coveredColumns_eq (left right first : Nat) {width : Nat} (positive : 0 < width) :
    Plan.coveredColumns ⟨first, first + width - 1⟩ left right
      = coveredCount left right first width := by
  simp only [Plan.coveredColumns, coveredCount]
  omega

namespace Entry

theorem width_pos (entry : Entry) : 0 < entry.width := by
  rw [← width_outline]
  exact entry.outline.width_pos

/-- Shrinking does not empty a cell. -/
theorem text_eq_nil_of_shrunk {first : Nat} {entry : Entry}
    (empty : (entry.shrunk left right first).text = []) : entry.text = [] := by
  cases entry with
  | plain content =>
      simp only [shrunk] at empty
      split at empty <;> exact empty
  | merged number specifier content =>
      simp only [shrunk] at empty
      split at empty <;> exact absurd empty (List.cons_ne_nil _ _)

/-- The new number of an entry that loses columns rewrites it. -/
theorem rewrites_shrunk {entry : Entry} (wellFormed : entry.WellFormed)
    (start index first : Nat) :
    Rewrites start entry.text
      (Plan.shrink? left right (index, ⟨first, first + entry.width - 1⟩, entry.laid start)).toList
      (entry.shrunk left right first).text := by
  have count := coveredColumns_eq left right first entry.width_pos
  have width := width_laid start entry
  simp only [Plan.shrink?, count, width, shrunk]
  cases entry with
  | plain content =>
      have same : (if 0 < coveredCount left right first (plain content).width
            ∧ coveredCount left right first (plain content).width < (plain content).width
          then (plain content).resized ((plain content).width
            - coveredCount left right first (plain content).width)
          else plain content) = plain content := by
        split <;> rfl
      rw [same]
      exact .refl _ _
  | merged number specifier content =>
      have resized := rewrites_resized wellFormed start
        ((merged number specifier content).width
          - coveredCount left right first (merged number specifier content).width)
      by_cases partly : 0 < coveredCount left right first (merged number specifier content).width
          ∧ coveredCount left right first (merged number specifier content).width
            < (merged number specifier content).width
      · simp only [laid, partly, decide_true, Bool.and_self, if_true, and_self]
        exact resized
      · have notBoth : (decide (0 < coveredCount left right first
              (merged number specifier content).width)
            && decide (coveredCount left right first (merged number specifier content).width
              < (merged number specifier content).width)) = false := by
          rw [Bool.eq_false_iff]
          simpa using partly
        simp only [laid, notBoth, if_neg partly]
        exact .refl _ _

end Entry

/-- The edits that shrink cells of which the first starts at column `first`. -/
def shrinkEdits (left right index first : Nat) (cells : List Cell) : List Edit :=
  (Row.placedFrom index first cells).filterMap (Plan.shrink? left right)

theorem shrinkEdits_append (left right index first : Nat) (cells rest : List Cell) :
    shrinkEdits left right index first (cells ++ rest)
      = shrinkEdits left right index first cells
        ++ shrinkEdits left right (index + cells.length) (first + Row.totalWidth cells) rest := by
  rw [shrinkEdits, Row.placedFrom_append, List.filterMap_append]
  rfl

theorem shrinkEdits_cons (left right index first : Nat) (cell : Cell) (rest : List Cell) :
    shrinkEdits left right index first (cell :: rest)
      = (Plan.shrink? left right (index, ⟨first, first + cell.width - 1⟩, cell)).toList
        ++ shrinkEdits left right (index + 1) (first + cell.width) rest := by
  simp only [shrinkEdits, Row.placedFrom, List.filterMap_cons]
  cases Plan.shrink? left right (index, ⟨first, first + cell.width - 1⟩, cell) <;> rfl

/-- Blank cells do not shrink. -/
theorem shrinkEdits_replicate_blank (left right index first count offset : Nat) :
    shrinkEdits left right index first (List.replicate count (Cell.blank offset)) = [] := by
  induction count generalizing index first with
  | zero => rfl
  | succ count ih =>
      rw [List.replicate_succ, shrinkEdits_cons, ih]
      rfl

/-- Cells that are removed do not shrink. -/
theorem shrinkEdits_of_removes {index first : Nat} {cells : List Cell}
    (removes : ∀ place ∈ Row.placedFrom index first cells, Plan.Removes left right place) :
    shrinkEdits left right index first cells = [] := by
  rw [shrinkEdits, List.filterMap_eq_nil_iff]
  exact fun place member => Plan.shrink?_eq_none (removes place member)

theorem WrittenCell.rewrites_shrunk {cell : WrittenCell} (wellFormed : cell.WellFormed)
    (start index first : Nat) :
    Rewrites start cell.text
      (Plan.shrink? left right (index, ⟨first, first + cell.entry.width - 1⟩,
        cell.entry.laid (start + cell.before.size))).toList
      { cell with entry := cell.entry.shrunk left right first }.text := by
  have entry := @Entry.rewrites_shrunk left right _ wellFormed.entry (start + cell.before.size)
    index first
  have whole := ((Rewrites.refl start cell.before).append entry).append (.refl _ cell.after)
  simpa [WrittenCell.text] using whole

theorem rewrites_frontText_shrunk {cells : List WrittenCell}
    (wellFormed : ∀ cell ∈ cells, cell.WellFormed) (start index first : Nat) :
    Rewrites start (frontText cells)
      (shrinkEdits left right index first (layCells start cells))
      (frontText (shrunkCells left right first cells)) := by
  induction cells generalizing start index first with
  | nil => exact .refl _ _
  | cons cell rest ih =>
      have separator : Text.size ['&'] = 1 := by decide
      have ofFirst := @WrittenCell.rewrites_shrunk left right _ (wellFormed cell List.mem_cons_self)
        start index first
      have others := ih (fun other member => wellFormed other (List.mem_cons_of_mem _ member))
        (start + cell.text.size + Text.size ['&']) (index + 1) (first + cell.entry.width)
      have whole := ofFirst.append ((Rewrites.refl _ ['&']).append others)
      rw [layCells_cons, shrinkEdits_cons, Entry.width_laid, shrunkCells, frontText_cons,
        frontText_cons]
      rw [separator] at whole
      exact whole

theorem rewrites_backText_shrunk {cells : List WrittenCell}
    (wellFormed : ∀ cell ∈ cells, cell.WellFormed) (start index first : Nat) :
    Rewrites start (backText cells)
      (shrinkEdits left right index first (layCells (start + 1) cells))
      (backText (shrunkCells left right first cells)) := by
  induction cells generalizing start index first with
  | nil => exact .refl _ _
  | cons cell rest ih =>
      have separator : Text.size ['&'] = 1 := by decide
      have ofFirst := @WrittenCell.rewrites_shrunk left right _ (wellFormed cell List.mem_cons_self)
        (start + Text.size ['&']) index first
      have others := ih (fun other member => wellFormed other (List.mem_cons_of_mem _ member))
        (start + Text.size ['&'] + cell.text.size) (index + 1) (first + cell.entry.width)
      have whole := (Rewrites.refl start ['&']).append (ofFirst.append others)
      rw [layCells_cons, shrinkEdits_cons, Entry.width_laid, shrunkCells, backText_cons,
        backText_cons]
      rw [separator] at whole
      exact whole

end LatexTabular
