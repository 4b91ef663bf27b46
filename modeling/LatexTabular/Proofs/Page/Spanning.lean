import LatexTabular.Proofs.Edit.Rewrite
import LatexTabular.Proofs.Page.Style
import LatexTabular.Proofs.Sheet.Merging

/-!
# Merging and splitting cells of a page

A merge takes settled contents in, and a split lets one out; neither adds anything.
-/

namespace LatexTabular

open Text Markup Body Scan

namespace Scan

theorem Settles.append {left right : Text} (first : Settles left) (second : Settles right) :
    Settles (left ++ right) := by
  obtain ⟨mode, quiet, run⟩ := first
  obtain ⟨mode', quiet', run'⟩ := second
  have stands : StandsFor ⟨mode, 0, 0, 0⟩ ⟨.text, 0, 0, 0⟩ := ⟨rfl, Or.inr ⟨quiet, rfl⟩⟩
  obtain ⟨own, ownRun, ownStands, sameShape⟩ := stands.run (run' 0 0 0)
  have noRows : own.rows = 0 := by simpa [shape] using congrArg Prod.snd sameShape
  have whole : (⟨.text, 0, 0, 0⟩ : Scan).run (left ++ right) = some own := by
    rw [run_append_of (run 0 0 0), ownRun]
  exact @settles_of_run_text ⟨.text, 0, 0, 0⟩ own _ whole (ownStands.alike.isQuiet quiet')
    ownStands.depth noRows

end Scan

namespace Page

variable {page : Page} {table : Table}

end Page

end LatexTabular
