import LatexTabular.Proofs.Command.Growth
import LatexTabular.Proofs.Page.Style
import LatexTabular.Proofs.Sheet.Growth

/-!
# Growing a page

A new row adds a row and a new column a column, and nothing else.
-/

namespace LatexTabular

open Text Markup Body Scan

namespace Page

variable {page : Page} {table : Table}

end Page

end LatexTabular
