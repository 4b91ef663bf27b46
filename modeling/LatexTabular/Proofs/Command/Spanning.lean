import LatexTabular.Proofs.Command.Merging
import LatexTabular.Proofs.Edit.Batch
import LatexTabular.Proofs.Table.Layout

/-!
# Where cells are merged and split

Merging replaces a stretch of one row, from the front of its first cell to the
end of its last one.  Splitting takes away the front of a merge and replaces the
brace behind its content.
-/

namespace LatexTabular

/-- The first and the last cell of some that follow one another. -/
theorem CellsLaid.outer_le_outer {document : Text} {start stop : Nat} {cells part : List Cell}
    {separators : List Span} (laid : CellsLaid document start cells separators stop)
    (isPart : part.Sublist cells) {first last : Cell} (isFirst : part.head? = some first)
    (isLast : part.getLast? = some last) : first.outer.start ≤ last.outer.stop := by
  obtain ⟨firstPlaced, -, -⟩ := laid.of_mem (isPart.subset (List.mem_of_mem_head? isFirst))
  obtain ⟨lastPlaced, -, -⟩ := laid.of_mem (isPart.subset (List.mem_of_mem_getLast? isLast))
  obtain ⟨firstFits, -, firstEnds⟩ := firstPlaced.outer
  obtain ⟨lastFits, lastBegins, -⟩ := lastPlaced.outer
  have firstOrdered := firstFits.ordered
  have lastOrdered := lastFits.ordered
  obtain ⟨rest, rfl⟩ := List.head?_eq_some_iff.mp isFirst
  rcases List.mem_cons.mp (List.mem_of_mem_getLast? isLast) with rfl | inRest
  · exact firstOrdered
  · have ordered := (List.pairwise_cons.mp (laid.pairwise.sublist isPart)).1 last inRest
    omega

namespace Plan

variable {table : Table} {bodyStart bodyStop : Nat}

theorem within_mergeCells (laidOut : table.LaidOut bodyStart bodyStop) (selection : Selection)
    (options : Options) :
    Batch.Within table.document table.specifierSpan.start bodyStop
      (mergeCells table selection options) := by
  rcases mergeCells_cases table selection options with
    nothing | ⟨row, before, covered, behind, first, last, merges, isFirst, isLast, planned⟩
  · rw [nothing]
    exact .nil
  · have specifierOrdered := laidOut.specifier.ordered
    have beforeBody := laidOut.specifier_lt_body
    obtain ⟨rowLaidOut, rowBegins, rowEnds⟩ :=
      laidOut.rows.of_mem (List.mem_of_getElem? merges.isRow)
    have isPart : covered.Sublist row.cells := by
      rw [merges.covers.cells]
      exact (List.sublist_append_left ..).trans (List.sublist_append_right ..)
    have ordered := rowLaidOut.cells.outer_le_outer isPart isFirst isLast
    obtain ⟨firstPlaced, begins, -⟩ :=
      rowLaidOut.cells.of_mem (isPart.subset (List.mem_of_mem_head? isFirst))
    obtain ⟨lastPlaced, -, ends⟩ :=
      rowLaidOut.cells.of_mem (isPart.subset (List.mem_of_mem_getLast? isLast))
    obtain ⟨firstFits, outerBegins, -⟩ := firstPlaced.outer
    obtain ⟨lastFits, -, outerEnds⟩ := lastPlaced.outer
    rw [planned]
    refine .singleton (firstFits.join lastFits (Or.inl rfl) (Or.inr rfl) ordered) ?_ ?_
    · dsimp only
      omega
    · dsimp only
      omega

/-- Splitting a cell takes away the front of its merge and replaces the brace at
its end. -/
theorem within_unmergeCells (laidOut : table.LaidOut bodyStart bodyStop)
    (selection : Selection) (options : Options) :
    Batch.Within table.document table.specifierSpan.start bodyStop
      (unmergeCells table selection options) := by
  rcases unmergeCells_cases table selection options with
    nothing | ⟨row, cell, merge, isRow, isCell, merged, planned⟩
  · rw [nothing]
    exact .nil
  · have specifierOrdered := laidOut.specifier.ordered
    have beforeBody := laidOut.specifier_lt_body
    have isMerge : merge ∈ table.merges :=
      List.mem_flatMap.mpr ⟨row, List.mem_of_getElem? isRow,
        List.mem_filterMap.mpr ⟨cell, Row.mem_of_cellAt? isCell, merged⟩⟩
    obtain ⟨placed, begins, ends⟩ := laidOut.of_mem_merges isMerge
    have sameStart := placed.preamble_start
    have sameStop := placed.postamble_stop
    have preambleOrdered := placed.preamble.ordered
    have postambleOrdered := placed.postamble.ordered
    have preamble : Batch.Within table.document table.specifierSpan.start
        merge.preamble.stop [.deletion merge.preamble] := by
      refine .singleton placed.preamble ?_ (Nat.le_refl _)
      dsimp only [Edit.deletion]
      omega
    have postamble (text : Text) : Batch.Within table.document merge.postamble.start bodyStop
        [⟨merge.postamble, text⟩] :=
      .singleton placed.postamble (Nat.le_refl _) (by dsimp only; omega)
    have content := placed.preamble_le_postamble
    rw [planned]
    exact preamble.append_of_le (postamble _) content (by omega) (by omega)

end Plan

end LatexTabular
