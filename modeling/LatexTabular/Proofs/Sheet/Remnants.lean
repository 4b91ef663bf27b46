import LatexTabular.Proofs.Sheet.Removal

/-!
# What stays of a row

Closing the gap of the removed cells changes white space only: the outline of the row
loses the removed columns (`WrittenRow.outline_withoutRun`).  The row stays well-formed
and, if all of its cells were detached, so is the first one that stays.
-/

namespace LatexTabular

open Text Outline

variable {left right : Nat}

namespace Entry

theorem outline_shrunk (left right first : Nat) (entry : Entry) :
    (entry.shrunk left right first).outline
      = if 0 < coveredCount left right first entry.width
          ∧ coveredCount left right first entry.width < entry.width
        then entry.outline.resized (entry.width - coveredCount left right first entry.width)
        else entry.outline := by
  simp only [shrunk]
  split
  · exact outline_resized _ _
  · rfl

theorem WellFormed.shrunk {entry : Entry} {first : Nat} (wellFormed : entry.WellFormed)
    (limit : entry.width < wordLimit) : (entry.shrunk left right first).WellFormed := by
  simp only [Entry.shrunk]
  split
  · exact wellFormed.resized (by omega) (by omega)
  · exact wellFormed

/-- Shrinking keeps a plain entry plain. -/
theorem shrunk_eq_plain {entry : Entry} {first : Nat} {content : Text}
    (isPlain : entry.shrunk left right first = .plain content) : entry = .plain content := by
  cases entry with
  | plain text =>
      simp only [shrunk] at isPlain
      split at isPlain <;> exact isPlain
  | merged number specifier text =>
      simp only [shrunk] at isPlain
      split at isPlain <;> exact Entry.noConfusion isPlain

end Entry

/-- Cells that stay lose the removed columns as their outlines do. -/
theorem removeColumnsIn_of_keeps {start index first : Nat} {cells : List WrittenCell}
    (keeps : ∀ place ∈ Row.placedFrom index first (layCells start cells),
      ¬ Plan.Removes left right place) :
    removeColumnsIn left right first (cells.map (·.entry.outline))
      = (shrunkCells left right first cells).map (·.entry.outline) := by
  induction cells generalizing start index first with
  | nil => rfl
  | cons cell rest ih =>
      have width := cell.entry.width_outline
      rw [layCells_cons, Row.placedFrom, Entry.width_laid] at keeps
      have notAll := keeps _ List.mem_cons_self
      rw [Plan.Removes, Entry.width_laid, coveredColumns_eq left right first cell.entry.width_pos]
        at notAll
      have others := ih fun place member => keeps place (List.mem_cons_of_mem _ member)
      have fewer : coveredCount left right first cell.entry.width ≤ cell.entry.width := by
        unfold coveredCount
        omega
      rw [List.map_cons, removeColumnsIn, shrunkCells, List.map_cons, Entry.outline_shrunk, width,
        others]
      simp only [if_neg notAll]
      by_cases none : coveredCount left right first cell.entry.width = 0
      · rw [if_pos none, if_neg (by omega)]
      · rw [if_neg none, if_pos (by omega)]

/-- Cells that go leave nothing of their outlines. -/
theorem removeColumnsIn_of_removes {start index first : Nat} {cells : List WrittenCell}
    (removes : ∀ place ∈ Row.placedFrom index first (layCells start cells),
      Plan.Removes left right place) :
    removeColumnsIn left right first (cells.map (·.entry.outline)) = [] := by
  induction cells generalizing start index first with
  | nil => rfl
  | cons cell rest ih =>
      have width := cell.entry.width_outline
      rw [layCells_cons, Row.placedFrom, Entry.width_laid] at removes
      have all := removes _ List.mem_cons_self
      rw [Plan.Removes, Entry.width_laid, coveredColumns_eq left right first cell.entry.width_pos]
        at all
      have others := ih fun place member => removes place (List.mem_cons_of_mem _ member)
      rw [List.map_cons, removeColumnsIn, width, others]
      exact if_pos all

/-- Closing a gap keeps the entries around it. -/
theorem map_outline_closeGap {before removed behind : List WrittenCell}
    (stays : removed = [] ∨ before ≠ [] ∨ behind ≠ []) :
    (closeGap before removed behind).map (·.entry.outline)
      = before.map (·.entry.outline) ++ behind.map (·.entry.outline) := by
  rcases List.eq_nil_or_concat' removed with rfl | ⟨run, last, rfl⟩
  · rw [closeGap_nil, List.map_append]
  rcases List.eq_nil_or_concat' before with rfl | ⟨others, previous, rfl⟩
  · cases behind with
    | nil => simp at stays
    | cons next behind =>
        obtain ⟨first, rest, runEq⟩ : ∃ first rest, run ++ [last] = first :: rest :=
          List.exists_cons_of_ne_nil (by simp)
        rw [runEq, closeGap_of_next, List.map_cons, WrittenCell.entry_indented]
        rfl
  · rw [closeGap_of_previous]
    simp

theorem closeGap_ne_nil {before removed behind : List WrittenCell}
    (stays : removed ≠ [] ∨ before ≠ [] ∨ behind ≠ []) : closeGap before removed behind ≠ [] := by
  rcases List.eq_nil_or_concat' removed with rfl | ⟨run, last, rfl⟩
  · rw [closeGap_nil]
    simpa [or_iff_not_imp_left] using stays
  obtain ⟨first, rest, runEq⟩ : ∃ first rest, run ++ [last] = first :: rest :=
    List.exists_cons_of_ne_nil (by simp)
  rcases List.eq_nil_or_concat' before with rfl | ⟨others, previous, rfl⟩
  · cases behind with
    | nil =>
        rw [closeGap_of_all run first last (by rw [runEq, List.head?_cons])]
        exact List.cons_ne_nil _ _
    | cons next behind =>
        rw [runEq, closeGap_of_next]
        exact List.cons_ne_nil _ _
  · rw [closeGap_of_previous]
    simp

section Shrunk

variable {first : Nat} {cells : List WrittenCell}

theorem exists_of_mem_shrunkCells {cell : WrittenCell}
    (member : cell ∈ shrunkCells left right first cells) :
    ∃ old ∈ cells, ∃ start, cell = { old with entry := old.entry.shrunk left right start } := by
  induction cells generalizing first with
  | nil => exact absurd member List.not_mem_nil
  | cons head rest ih =>
      rcases List.mem_cons.mp member with rfl | member
      · exact ⟨head, List.mem_cons_self, first, rfl⟩
      · obtain ⟨old, isCell, found⟩ := ih member
        exact ⟨old, List.mem_cons_of_mem _ isCell, found⟩

theorem WrittenCell.WellFormed.shrunk {cell : WrittenCell} (wellFormed : cell.WellFormed)
    (limit : cell.entry.width < wordLimit) :
    ({ cell with entry := cell.entry.shrunk left right first } : WrittenCell).WellFormed :=
  ⟨wellFormed.before, wellFormed.entry.shrunk limit, wellFormed.after,
    fun empty => wellFormed.anchored (Entry.text_eq_nil_of_shrunk empty)⟩

theorem WrittenCell.Detached.shrunk {cell : WrittenCell} (detached : cell.Detached) :
    ({ cell with entry := cell.entry.shrunk left right first } : WrittenCell).Detached :=
  detached.imp_right fun empty content isPlain => empty content (Entry.shrunk_eq_plain isPlain)

theorem head?_shrunkCells :
    (shrunkCells left right first cells).head?
      = cells.head?.map fun cell => { cell with entry := cell.entry.shrunk left right first } := by
  cases cells <;> rfl

end Shrunk

section CloseGap

variable {before removed behind : List WrittenCell}

theorem wellFormed_closeGap (front : ∀ cell ∈ before, cell.WellFormed)
    (run : ∀ cell ∈ removed, cell.WellFormed) (back : ∀ cell ∈ behind, cell.WellFormed) :
    ∀ cell ∈ closeGap before removed behind, cell.WellFormed := by
  intro cell member
  rcases List.eq_nil_or_concat' removed with rfl | ⟨others, last, rfl⟩
  · rw [closeGap_nil] at member
    rcases List.mem_append.mp member with inFront | inBack
    · exact front cell inFront
    · exact back cell inBack
  have lastWellFormed := run last (by simp)
  rcases List.eq_nil_or_concat' before with rfl | ⟨others', previous, rfl⟩
  · obtain ⟨first, rest, runEq⟩ : ∃ first rest, others ++ [last] = first :: rest :=
      List.exists_cons_of_ne_nil (by simp)
    have firstWellFormed := run first (by simp [runEq])
    cases behind with
    | nil =>
        rw [closeGap_of_all others first last (by rw [runEq, List.head?_cons])] at member
        obtain rfl := List.mem_singleton.mp member
        exact ⟨isSpace_nil, Entry.wellFormed_blank,
          firstWellFormed.before.append lastWellFormed.after, fun _ => rfl⟩
    | cons next behind =>
        rw [runEq, closeGap_of_next] at member
        rcases List.mem_cons.mp member with rfl | member
        · exact (back next List.mem_cons_self).indented firstWellFormed.before
        · exact back cell (List.mem_cons_of_mem _ member)
  · have previousWellFormed := front previous (by simp)
    rw [closeGap_of_previous] at member
    rcases List.mem_append.mp member with inFront | member
    · exact front cell (List.mem_append_left _ inFront)
    · rcases List.mem_cons.mp member with rfl | inBack
      · exact ⟨previousWellFormed.before, previousWellFormed.entry, lastWellFormed.after,
          previousWellFormed.anchored⟩
      · exact back cell inBack

/-- The first cell that stays is detached if it was. -/
theorem detached_closeGap (front : ∀ cell ∈ before.head?, cell.Detached)
    (back : before = [] → ∀ cell ∈ behind.head?, cell.Detached) :
    ∀ cell ∈ (closeGap before removed behind).head?, cell.Detached := by
  intro cell isFirst
  rcases List.eq_nil_or_concat' removed with rfl | ⟨others, last, rfl⟩
  · rw [closeGap_nil] at isFirst
    cases before with
    | nil => exact back rfl cell isFirst
    | cons head rest => exact front cell isFirst
  rcases List.eq_nil_or_concat' before with rfl | ⟨others', previous, rfl⟩
  · obtain ⟨first, rest, runEq⟩ : ∃ first rest, others ++ [last] = first :: rest :=
      List.exists_cons_of_ne_nil (by simp)
    cases behind with
    | nil =>
        rw [closeGap_of_all others first last (by rw [runEq, List.head?_cons])] at isFirst
        obtain rfl := Option.mem_some.mp isFirst
        refine Or.inr ?_
        rintro content ⟨⟩
        rfl
    | cons next behind =>
        rw [runEq, closeGap_of_next] at isFirst
        obtain rfl := Option.mem_some.mp isFirst
        exact (back rfl next rfl).indented first.before
  · rw [closeGap_of_previous] at isFirst
    cases others' with
    | nil =>
        obtain rfl := Option.mem_some.mp isFirst
        exact front previous rfl
    | cons head rest => exact front cell isFirst

end CloseGap

namespace WrittenRow

variable {columnCount start : Nat} {rules : List Span} {row : WrittenRow}
  {before removed behind : List Cell}

/-- The cells that stay are what removing the columns leaves of the outline. -/
theorem removeColumnsIn_cells
    (cellsEq : (row.filled columnCount start rules).cells = before ++ (removed ++ behind))
    (parted : Plan.Parted left right 0 before removed behind) :
    removeColumnsIn left right 0 (row.cells.map (·.entry.outline))
      = (shrunkCells left right 0 (row.cells.take before.length)).map (·.entry.outline)
        ++ (shrunkCells left right
          ((row.cells.take (before.length + removed.length)).map (·.entry.width)).sum
          (row.cells.drop (before.length + removed.length))).map (·.entry.outline) := by
  have parts := parted_written cellsEq parted
  have dropped : (row.cells.drop before.length).drop removed.length
      = row.cells.drop (before.length + removed.length) := by
    rw [List.drop_drop]
  have writtenEq : row.cells = row.cells.take before.length
      ++ ((row.cells.drop before.length).take removed.length
        ++ row.cells.drop (before.length + removed.length)) := by
    rw [← dropped, List.take_append_drop, List.take_append_drop]
  have front := removeColumnsIn_of_keeps (parts.keepsBefore 0)
  have middle := removeColumnsIn_of_removes (parts.removes 0)
  have back := removeColumnsIn_of_keeps (parts.keepsBehind 0)
  rw [totalWidth_layCells, Nat.zero_add] at middle
  rw [totalWidth_layCells, totalWidth_layCells, Nat.zero_add, ← List.sum_append,
    ← List.map_append, ← List.take_add] at back
  conv => lhs; rw [writtenEq]
  rw [List.map_append, List.map_append, removeColumnsIn_append, removeColumnsIn_append,
    totalWidth_map_outline, totalWidth_map_outline, Nat.zero_add, front, middle, List.nil_append,
    ← List.sum_append, ← List.map_append, ← List.take_add, back]

/-- If none of its written cells stays, a row keeps a blank one. -/
theorem cells_withoutRun_of_all {first count : Nat}
    (someRun : (row.cells.drop first).take count ≠ [])
    (noFront : shrunkCells left right 0 (row.cells.take first) = [])
    (noBack : shrunkCells left right ((row.cells.take (first + count)).map (·.entry.width)).sum
      (row.cells.drop (first + count)) = []) :
    (row.withoutRun left right first count).cells.map (·.entry.outline) = [Outline.Cell.blank] := by
  obtain ⟨run, last, runEq⟩ :=
    (List.eq_nil_or_concat' ((row.cells.drop first).take count)).resolve_left someRun
  obtain ⟨head, rest, headEq⟩ : ∃ head rest, run ++ [last] = head :: rest :=
    List.exists_cons_of_ne_nil (by simp)
  simp only [withoutRun, noFront, noBack, runEq]
  rw [closeGap_of_all run head last (by rw [headEq, List.head?_cons])]
  rfl

/-- Removing columns from a row removes them from its outline. -/
theorem outline_withoutRun (fits : row.width ≤ columnCount)
    (ordered : left ≤ right) (within : right < columnCount) (stays : right + 1 - left < columnCount)
    (cellsEq : (row.filled columnCount start rules).cells = before ++ (removed ++ behind))
    (parted : Plan.Parted left right 0 before removed behind) :
    (row.withoutRun left right before.length removed.length).outline
        (columnCount - (right + 1 - left))
      = { row.outline columnCount with
          cells := removeColumnsIn left right 0 (row.outline columnCount).cells } := by
  have cells := removeColumnsIn_cells cellsEq parted
  have width : totalWidth (row.cells.map (·.entry.outline)) = row.width :=
    totalWidth_map_outline _
  have narrower := totalWidth_removeColumnsIn left right 0 (row.cells.map (·.entry.outline))
  have covered : coveredCount left right 0 columnCount
      = coveredCount left right 0 row.width
        + coveredCount left right row.width (columnCount - row.width) := by
    unfold coveredCount
    omega
  have all : coveredCount left right 0 columnCount = right + 1 - left := by
    unfold coveredCount
    omega
  rw [width] at narrower
  simp only [outline, Outline.Row.mk.injEq]
  refine ⟨rfl, ?_⟩
  have newWidth : totalWidth ((row.withoutRun left right before.length
      removed.length).cells.map (·.entry.outline))
        = (row.withoutRun left right before.length removed.length).width :=
    totalWidth_map_outline _
  rw [removeColumnsIn_append, removeColumnsIn_replicate_blank, width, Nat.zero_add]
  by_cases remains : (row.cells.drop before.length).take removed.length = []
      ∨ shrunkCells left right 0 (row.cells.take before.length) ≠ []
      ∨ shrunkCells left right
          ((row.cells.take (before.length + removed.length)).map (·.entry.width)).sum
          (row.cells.drop (before.length + removed.length)) ≠ []
  · have outlineEq := map_outline_closeGap remains
    rw [← cells] at outlineEq
    have sameCells : (row.withoutRun left right before.length removed.length).cells.map
        (·.entry.outline) = removeColumnsIn left right 0 (row.cells.map (·.entry.outline)) :=
      outlineEq
    rw [sameCells] at newWidth ⊢
    rw [← newWidth]
    congr 2
    omega
  · -- Of the written cells nothing but a blank one stays.
    simp only [not_or, not_not] at remains
    obtain ⟨someRun, noFront, noBack⟩ := remains
    have nothing : removeColumnsIn left right 0 (row.cells.map (·.entry.outline)) = [] := by
      rw [cells, noFront, noBack]
      rfl
    rw [cells_withoutRun_of_all someRun noFront noBack] at newWidth ⊢
    rw [nothing, totalWidth_nil] at narrower
    rw [nothing, ← newWidth, List.nil_append]
    have one : totalWidth [Outline.Cell.blank] = 1 := rfl
    rw [one, ← List.replicate_one, List.replicate_append_replicate]
    congr 1
    omega

theorem WellFormed.withoutRun (wellFormed : row.WellFormed) (limit : row.width < wordLimit)
    (first count : Nat) : (row.withoutRun left right first count).WellFormed := by
  have narrow (cell : WrittenCell) (member : cell ∈ row.cells) : cell.entry.width < wordLimit :=
    Nat.lt_of_le_of_lt (width_le_of_mem member) limit
  have shrunk {column : Nat} {cells : List WrittenCell} (part : ∀ cell ∈ cells, cell ∈ row.cells) :
      ∀ cell ∈ shrunkCells left right column cells, cell.WellFormed := by
    intro cell member
    obtain ⟨old, isCell, start, rfl⟩ := exists_of_mem_shrunkCells member
    exact (wellFormed.cells old (part old isCell)).shrunk (narrow old (part old isCell))
  refine ⟨wellFormed.ruleGaps, closeGap_ne_nil ?_, wellFormed_closeGap ?_ ?_ ?_⟩
  · by_contra nothing
    simp only [not_or, not_not, ne_eq, shrunkCells_eq_nil_iff] at nothing
    obtain ⟨noRun, noFront, noBack⟩ := nothing
    have parts : row.cells = row.cells.take first
        ++ ((row.cells.drop first).take count ++ (row.cells.drop first).drop count) := by
      rw [List.take_append_drop, List.take_append_drop]
    rw [List.drop_drop, noRun, noFront, noBack] at parts
    exact wellFormed.nonempty parts
  · exact shrunk fun cell member => List.mem_of_mem_take member
  · exact fun cell member => wellFormed.cells cell (List.mem_of_mem_drop (List.mem_of_mem_take member))
  · exact shrunk fun cell member => List.mem_of_mem_drop member

/-- A row without a run of cells starts with a detached cell if each cell that comes
to its front is detached. -/
theorem Detached.withoutRun {first count : Nat}
    (front : first ≠ 0 → ∀ cell ∈ row.cells.head?, cell.Detached)
    (back : first = 0 → ∀ cell ∈ (row.cells.drop count).head?, cell.Detached) :
    (row.withoutRun left right first count).Detached := by
  refine detached_closeGap ?_ ?_
  · intro cell isFirst
    rw [head?_shrunkCells, Option.mem_def, Option.map_eq_some_iff] at isFirst
    obtain ⟨old, isOld, rfl⟩ := isFirst
    cases first with
    | zero => simp at isOld
    | succ first =>
        refine WrittenCell.Detached.shrunk (front (Nat.succ_ne_zero _) old ?_)
        cases cellsEq : row.cells with
        | nil => simp [cellsEq] at isOld
        | cons head rest => simpa [cellsEq] using isOld
  · intro noFront cell isFirst
    rw [shrunkCells_eq_nil_iff, List.take_eq_nil_iff] at noFront
    rw [head?_shrunkCells, Option.mem_def, Option.map_eq_some_iff] at isFirst
    obtain ⟨old, isOld, rfl⟩ := isFirst
    rcases noFront with rfl | empty
    · rw [Nat.zero_add] at isOld
      exact WrittenCell.Detached.shrunk (back rfl old isOld)
    · simp [empty] at isOld

end WrittenRow

end LatexTabular
