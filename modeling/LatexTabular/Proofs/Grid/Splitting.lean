import LatexTabular.Proofs.Grid.Merging
import LatexTabular.Proofs.Sheet.Splitting

/-!
# Cells of a grid that are merged and split again

Merging plain cells of a grid of which the first one is not blank, and splitting the merged cell
again, joins their contents in the first of them and leaves the others blank
(`Grid.splitting_refines`).
-/

namespace LatexTabular.Grid

open Text

variable {grid : Grid} {offset : Nat}

section Covered

variable {rowsBefore rowsBehind : List WrittenRow} {row : WrittenRow}
  {before covered behind : List WrittenCell} {left right filler : Nat}

/-- Merging written cells of a grid succeeds. -/
theorem exists_apply_mergeCells (wellFormed : grid.WellFormed) (touches : grid.Touches offset)
    (rowsEq : grid.sheet.rows = rowsBefore ++ row :: rowsBehind)
    (covers : row.Covers grid.outline.heading.letters.length left right before covered filler behind)
    (several : 2 ≤ covered.length + filler)
    (within : right < grid.outline.heading.letters.length) {selection : Selection}
    (selected : selection.bounds = ⟨left, right, rowsBefore.length, rowsBefore.length⟩) :
    ∃ merged, Command.mergeCells.apply grid.text offset (some selection) {} = .ok merged ∧
      merged.document = (grid.sheet.merged grid.outline.heading {} rowsBefore rowsBehind row before
        covered filler behind).text := by
  have regular := wellFormed.regular
  obtain ⟨read, -⟩ := readAt_text wellFormed touches
  have valid : selection.validate grid.sheet.table = .ok () := by
    refine Selection.validate_of_bounds ?_ ?_
    · rw [selected, Sheet.rowCount_table, rowsEq]
      simp
    · rw [selected, Sheet.columnCount_table regular]
      exact within
  have oneRow : selection.bounds.top = selection.bounds.bottom := by rw [selected]
  have top : selection.bounds.top = rowsBefore.length := by rw [selected]
  have coversSelected : row.Covers grid.outline.heading.letters.length selection.bounds.left
      selection.bounds.right before covered filler behind := by
    rw [selected]
    exact covers
  have edited := Sheet.apply_mergeCells {} rowsEq coversSelected regular oneRow top several
  rw [text_sheet wellFormed] at edited
  exact @Command.apply_eq_ok .mergeCells _ _ _ _ _ read valid edited

/-- Splitting a merged cell that was made of plain cells succeeds. -/
theorem exists_apply_unmergeCells (wellFormed : grid.WellFormed)
    (rowsEq : grid.sheet.rows = rowsBefore ++ row :: rowsBehind)
    (covers : row.Covers grid.outline.heading.letters.length left right before covered filler behind)
    (plain : ∀ cell ∈ (row.outline grid.outline.heading.letters.length).cellsOver left right,
      cell.merge = none)
    (several : left < right) (within : right < grid.outline.heading.letters.length)
    (limit : grid.outline.heading.letters.length < wordLimit) {offset' : Nat}
    (begins : grid.lead.size ≤ offset')
    (ends : offset' + grid.trail.size ≤ (grid.sheet.merged grid.outline.heading {} rowsBefore
      rowsBehind row before covered filler behind).text.size) :
    ∃ split, Command.unmergeCells.apply (grid.sheet.merged grid.outline.heading {} rowsBefore
          rowsBehind row before covered filler behind).text offset'
        (some (.single rowsBefore.length left)) {} = .ok split ∧
      split.document = ({ grid.sheet with
        rows := rowsBefore
          ++ row.joined grid.outline.heading {} before covered filler behind :: rowsBehind } :
        Sheet).text := by
  have regular := Sheet.Regular.merged {} rowsEq covers several.le wellFormed.regular limit
  have detached := Sheet.detached_merged {} rowsEq covers (@detached_sheet grid)
  have read := Sheet.readAt_text regular.wellFormed begins ends
  rw [Sheet.readTable_eq regular.wellFormed
    (Sheet.guarded_of_detached regular.wellFormed detached)] at read
  have valid : (Selection.single rowsBefore.length left).validate
      (grid.sheet.merged grid.outline.heading {} rowsBefore rowsBehind row before covered filler
        behind).table = .ok () := by
    refine Selection.validate_of_bounds ?_ ?_
    · rw [Sheet.rowCount_table]
      simp [Sheet.merged, Selection.single, Selection.bounds]
    · rw [Sheet.columnCount_table regular]
      simp only [Selection.single, Selection.bounds]
      omega
  exact @Command.apply_eq_ok .unmergeCells _ _ _ _ _ read valid
    (Sheet.apply_unmergeCells_merged {} covers plain several)

end Covered

/-- Merging plain cells and splitting the merged cell again succeeds, and joins the contents of the
cells in the first of them, if that is not blank.  The others are blank, and all else is kept. -/
theorem splitting_refines (wellFormed : grid.WellFormed) (touches : grid.Touches offset)
    {row : Row} {index left right : Nat} (isRow : grid.rows[index]? = some row)
    (several : left < right) (written : left < row.width) (within : right < grid.columnCount)
    (plain : ∀ cell ∈ (row.outline grid.columnCount).cellsOver left right, cell.merge = none)
    (shown : ∀ cell ∈ ((row.outline grid.columnCount).cellsOver left right).head?,
      cell.content ≠ [])
    {selection : Selection} (selected : selection.bounds = ⟨left, right, index, index⟩) :
    ∃ merged, Command.mergeCells.apply grid.text offset (some selection) {} = .ok merged ∧
      ∀ offset', grid.lead.size ≤ offset' →
        offset' + grid.trail.size ≤ merged.document.size →
        ∃ split, Command.unmergeCells.apply merged.document offset' (some (.single index left)) {}
            = .ok split ∧
          (grid.outline.joinCells index left right).ReadFrom split.document := by
  have fits := (wellFormed.rows row (List.mem_of_getElem? isRow)).fits
  have columnCount := length_letters_outline wellFormed
  obtain ⟨rowsBefore, rowsBehind, rowsEq, rfl⟩ := exists_rows isRow
  rw [← Row.width_written] at written fits
  rw [← Row.outline_written, ← columnCount] at plain shown
  rw [← columnCount] at within fits
  obtain ⟨before, covered, filler, behind, covers⟩ :=
    WrittenRow.exists_covers several.le written within fits
  obtain ⟨-, count, -⟩ := covers.columns_of_plain plain several.le
  have limit : grid.outline.heading.letters.length < wordLimit := by
    have longer := wellFormed.columnCount_lt
    omega
  obtain ⟨merged, ofMerging, documentEq⟩ :=
    exists_apply_mergeCells wellFormed touches rowsEq covers (by omega) within selected
  refine ⟨merged, ofMerging, fun offset' begins ends => ?_⟩
  rw [documentEq] at ends ⊢
  obtain ⟨split, ofSplitting, splitEq⟩ := exists_apply_unmergeCells wellFormed rowsEq covers plain
    several within limit begins ends
  refine ⟨split, ofSplitting, ?_⟩
  rw [splitEq, ← outline_sheet wellFormed]
  have inRow : ∀ cell ∈ covered, cell ∈ row.written.cells := by
    intro cell member
    simp [covers.cells, member]
  exact Sheet.readFrom_joined {} rowsEq covers plain wellFormed.regular several shown
    (fun cell member => Row.detached_of_mem_written (inRow cell member)) (@detached_sheet grid)
    limit

/-- A grid with a row of plain cells. -/
def plainSample : Grid where
  lead := []
  specifier := "|l|cr".toList
  rows :=
    [⟨0, [.plain "a".toList, .plain "b".toList, .plain "c".toList]⟩,
      ⟨1, [.plain [], .plain "d".toList]⟩]
  closingRules := 0
  trail := []

/-- Two cells are joined, and the cell behind them stays. -/
theorem splitting_refines_plainSample :
    plainSample.WellFormed ∧ plainSample.Touches 0 ∧
      (plainSample.outline.joinCells 0 0 1).rows[0]?
        = some ⟨0, [⟨"a b".toList, none⟩, .blank, ⟨"c".toList, none⟩]⟩ ∧
      ∃ merged, Command.mergeCells.apply plainSample.text 0 (some ⟨⟨0, 1⟩, ⟨0, 0⟩⟩) {}
          = .ok merged ∧
        ∃ split, Command.unmergeCells.apply merged.document 0 (some (.single 0 0)) {} = .ok split ∧
          (plainSample.outline.joinCells 0 0 1).ReadFrom split.document := by
  have wellFormed : plainSample.WellFormed := by decide +kernel
  have touches : plainSample.Touches 0 := by decide +kernel
  refine ⟨wellFormed, touches, by decide +kernel, ?_⟩
  have selected : (⟨⟨0, 1⟩, ⟨0, 0⟩⟩ : Selection).bounds = ⟨0, 1, 0, 0⟩ := rfl
  obtain ⟨merged, ofMerging, splits⟩ := splitting_refines wellFormed touches rfl (by decide)
    (by decide) (by decide +kernel) (by decide +kernel) (by decide +kernel) selected
  have noTrail : plainSample.trail.size = 0 := rfl
  obtain ⟨split, ofSplitting, read⟩ := splits 0 (Nat.le_refl 0) (by
    rw [noTrail]
    exact Nat.zero_le _)
  exact ⟨merged, ofMerging, split, ofSplitting, read⟩

end LatexTabular.Grid
