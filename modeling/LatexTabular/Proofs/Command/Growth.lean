import LatexTabular.Command.Growth
import LatexTabular.Proofs.Edit.Batch
import LatexTabular.Proofs.Table.Layout

/-!
# Where rows and columns are inserted

A new row goes between two rows.  A new column takes at most one edit in each
row, beside a cell or in the number of a merged one.
-/

namespace LatexTabular

namespace Plan

variable {table : Table} {bodyStart bodyStop : Nat}

theorem within_insertRow (laidOut : table.LaidOut bodyStart bodyStop) (selection : Selection)
    (below : Bool) (options : Options) :
    Batch.Within table.document table.specifierSpan.start bodyStop
      (insertRow table selection below options).batch := by
  have specifierOrdered := laidOut.specifier.ordered
  have beforeBody := laidOut.specifier_lt_body
  unfold insertRow
  dsimp only
  split
  next => exact .nil
  next row found =>
    obtain ⟨rowLaidOut, begins, ends⟩ := laidOut.rows.of_mem (List.mem_of_getElem? found)
    have ordered := rowLaidOut.span.ordered
    have front : table.specifierSpan.start ≤ row.span.start := by omega
    cases below with
    | true =>
        exact .singleton rowLaidOut.span.point_stop (Nat.le_trans front ordered) ends
    | false =>
        exact .singleton rowLaidOut.span.point_start front (Nat.le_trans ordered ends)

/-- How a row makes room for a column: not at all, by a new cell beside one over the column, or by
one column more of a merged cell. -/
inductive Room (column : Nat) (after : Bool) (options : Options) (row : Row) :
    List Edit → Prop where
  | nothing : Room column after options row []
  | beside {cell : Cell} (isCell : row.cellAt? column = some cell) : Room column after options row
      [.insertion (if after then cell.outer.stop else cell.outer.start) options.cellSeparator]
  | grown {cell : Cell} {merge : Merge} (isCell : row.cellAt? column = some cell)
      (merged : cell.merge = some merge) : Room column after options row
      [⟨merge.number, Text.ofNumber (merge.columns + 1)⟩]

theorem room (column : Nat) (after : Bool) (options : Options) (row : Row) :
    Room column after options row (roomInRow column after options row) := by
  unfold roomInRow
  split
  next index cell range _ isCell _ =>
    dsimp only
    generalize (if after then range.last != column else range.first != column) = splits
    split
    · exact .nothing
    split
    next merge merged =>
      split
      · exact .grown isCell merged
      · exact .beside isCell
    next => exact .beside isCell
  next => exact .nothing

/-- Room for a column is made within each row. -/
theorem within_roomInRow {document : Text} {row : Row} (laidOut : row.LaidOut document)
    (column : Nat) (after : Bool) (options : Options) :
    Batch.Within document row.span.start row.span.stop
      (roomInRow column after options row) := by
  have planned := room column after options row
  generalize roomInRow column after options row = batch at planned ⊢
  cases planned with
  | nothing => exact .nil
  | beside isCell =>
      obtain ⟨placed, begins, ends⟩ := laidOut.cells.of_mem (Row.mem_of_cellAt? isCell)
      obtain ⟨fits, outerBegins, outerEnds⟩ := placed.outer
      have ordered := fits.ordered
      cases after with
      | true =>
          exact .singleton fits.point_stop
            (Nat.le_trans begins (Nat.le_trans outerBegins ordered))
            (Nat.le_trans outerEnds ends)
      | false =>
          exact .singleton fits.point_start (Nat.le_trans begins outerBegins)
            (Nat.le_trans ordered (Nat.le_trans outerEnds ends))
  | grown isCell merged =>
      obtain ⟨placed, begins, ends⟩ := laidOut.cells.of_mem (Row.mem_of_cellAt? isCell)
      obtain ⟨mergePlaced, sameStart, inCell⟩ := placed.merge _ merged
      obtain ⟨numberBegins, numberEnds⟩ := mergePlaced.number_within
      refine .singleton mergePlaced.number ?_ ?_
      · dsimp only
        omega
      · dsimp only
        omega

theorem within_insertColumn (laidOut : table.LaidOut bodyStart bodyStop)
    (selection : Selection) (after : Bool) (options : Options) :
    Batch.Within table.document table.specifierSpan.start bodyStop
      (insertColumn table selection after options).batch := by
  have specifierOrdered := laidOut.specifier.ordered
  have beforeBody := laidOut.specifier_lt_body
  have body := laidOut.rows.start_le_stop
  refine .append_of_ge (.flatMap laidOut.rows.pairwise
    (fun row member => (laidOut.rows.of_mem member).2)
    (fun row member => within_roomInRow (laidOut.rows.of_mem member).1 _ after options))
    (.singleton laidOut.specifier (Nat.le_refl _) (Nat.le_refl _)) (Nat.le_of_lt beforeBody)
    (Nat.le_of_lt (Nat.lt_of_le_of_lt specifierOrdered beforeBody))
    (Nat.le_of_lt (Nat.lt_of_lt_of_le beforeBody body))

end Plan

end LatexTabular
