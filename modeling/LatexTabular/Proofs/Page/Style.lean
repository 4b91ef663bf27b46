import LatexTabular.Proofs.Command.Confinement
import LatexTabular.Proofs.Page.Basic
import LatexTabular.Proofs.Sheet.Growth

/-!
# Commands on pages

Each command plans steady edits for the table of a page.
-/

namespace LatexTabular

open Text Markup Body Scan

namespace Scan

variable {origin : Nat} {text front back rest : Text} {scan : Scan} {offset : Nat}

/-- The text at a place of a scanned text is that of the document there. -/
theorem At.slice_eq {part document : Text} (here : At origin text offset scan (part ++ rest))
    (documentEq : document = front ++ text ++ back) (originEq : front.size = origin) :
    document.slice ⟨offset, offset + part.size⟩ = part := by
  obtain ⟨before, rfl, rfl, -⟩ := here
  have parts : document = (front ++ before) ++ part ++ (rest ++ back) := by
    simp [documentEq]
  rw [parts, ← originEq, ← size_append]
  exact slice_append _ _ _

end Scan

/-- Whether a selection lies in a table with some columns and rows. -/
def Selection.FitsIn (shape : ℤ × ℤ) (selection : Selection) : Prop :=
  selection.bounds.right < shape.1 ∧ selection.bounds.bottom < shape.2

namespace Page

variable {page : Page} {table : Table}

namespace Reads

/-- A selection that lies in the table is valid for it. -/
theorem validate_eq_ok (reads : page.Reads table) {selection : Selection}
    (fits : selection.FitsIn page.final.shape) : selection.validate table = .ok () := by
  obtain ⟨columnBound, rowBound⟩ := fits
  have rowCount := reads.rowCount_ge
  have columnCount := reads.columnCount
  simp only [Scan.shape] at columnBound rowBound
  rw [Selection.validate, if_neg (by omega), if_neg (by omega)]

end Reads

end Page

end LatexTabular
