import LatexTabular.Proofs.Command.Captions
import LatexTabular.Proofs.Figure.Block

/-!
# Moving the caption of a figure
-/

namespace LatexTabular

open Text Captioning

/-! ## Edits of captions that rewrite a text -/

namespace Plan

variable {document block : Text} {destination : Span} {moved : List Span}

end Plan

/-! ## Captions and labels of lines -/

section Single

variable {occurrences : List Occurrence} (single : (occurrences.map (·.command)).Nodup)

include single

end Single

namespace Figure

variable {figure : Figure}

/-! ## The caption and the label of a figure -/

end Figure

end LatexTabular
