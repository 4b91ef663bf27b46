import LatexTabular.Proofs.Text.Placement
import LatexTabular.Proofs.Figure.Places
import LatexTabular.Proofs.Figure.Reading

/-!
# Where a block goes in a figure

A block goes next to the tabular, on the line above or below it, and takes the place of empty
lines there (`Figure.placeBeside_above`, `Figure.placeBeside_below`).
-/

namespace LatexTabular

open Text Markup

namespace Figure

variable {figure : Figure}

/-- The document up to the line of the tabular. -/
def upper (figure : Figure) : Text := figure.front ++ '\n' :: linesText figure.above

/-- The document up to the end of the tabular. -/
def upToTabular (figure : Figure) : Text := figure.upper ++ (figure.indent ++ figure.tabularText)

theorem text_eq_upper (figure : Figure) : figure.text = figure.upper
    ++ (figure.indent ++ figure.tabularText) ++ ('\n' :: linesText figure.below ++ figure.back) := by
  rw [text_eq]
  simp [upper, front, back]

theorem text_eq_upToTabular (figure : Figure) : figure.text
    = figure.upToTabular ++ ['\n'] ++ (linesText figure.below ++ figure.back) := by
  rw [text_eq_upper, upToTabular]
  simp

theorem size_upToTabular (figure : Figure) :
    figure.upToTabular.size = figure.sheet.tabular.span.stop := by
  have lead : figure.sheet.lead = figure.upper ++ figure.indent := rfl
  rw [stop_tabular, lead, upToTabular, ← List.append_assoc, size_append _ figure.tabularText]

theorem endsLine_upper (figure : Figure) (lines : List FloatLine) :
    Text.EndsLine (figure.front ++ '\n' :: linesText lines) := by
  have ends := endsLine_append_linesText (endsLine_newline figure.front) lines
  rwa [List.append_assoc] at ends

theorem belowStart_eq (figure : Figure) :
    figure.belowStart = (figure.upToTabular ++ ['\n']).size := by
  rw [size_append, size_upToTabular, size_newline, belowStart]

/-! ## The lines around the tabular -/

theorem allBlank_eq_false {text : Text} {character : Char} (member : character ∈ text)
    (inked : isBlank character = false) : allBlank text = false := by
  rw [allBlank, List.all_eq_false]
  exact ⟨character, member, by simp [inked]⟩

/-- The first line of the tabular. -/
theorem exists_aroundLine_start (wellFormed : figure.WellFormed) :
    ∃ line after, AroundLine figure.text figure.upper (figure.indent ++ line) after ∧
      allBlank (figure.indent ++ line) = false := by
  obtain ⟨rest, tabularEq, unbroken, beforeBreak⟩ := exists_eq_firstLine_append figure.tabularText
  refine ⟨firstLine figure.tabularText,
    rest ++ ('\n' :: linesText figure.below ++ figure.back), ⟨?_, ?_, ?_, ?_⟩, ?_⟩
  · rw [text_eq_upper]
    conv => lhs; rw [tabularEq]
    simp
  · simp [wellFormed.indent.2, unbroken]
  · exact figure.endsLine_upper figure.above
  · intro next isNext
    cases rest with
    | nil => exact (Option.some.inj isNext).symm
    | cons head rest => exact beforeBreak next isNext
  · have member : '\\' ∈ firstLine figure.tabularText := by
      rw [firstLine, tabularText]
      exact List.mem_cons_self
    exact allBlank_eq_false (List.mem_append_right _ member) (by decide)

/-- The last line of the tabular. -/
theorem exists_aroundLine_stop (figure : Figure) :
    ∃ before, figure.upToTabular = before ++ lastLine figure.upToTabular ∧
      AroundLine figure.text before (lastLine figure.upToTabular)
        ('\n' :: linesText figure.below ++ figure.back) ∧
      allBlank (lastLine figure.upToTabular) = false := by
  obtain ⟨before, upToEq, unbroken, behindBreak⟩ := exists_eq_append_lastLine figure.upToTabular
  refine ⟨before, upToEq, ⟨?_, unbroken, behindBreak, by simp⟩, ?_⟩
  · rw [← upToEq, text_eq_upToTabular]
    simp
  · have member : '}' ∈ lastLine figure.upToTabular := by
      have closing : Sheet.closing = "\\end\x7btabular".toList ++ ['}'] := by decide
      rw [lastLine, List.mem_reverse, upToTabular, tabularText, closing]
      simp
    exact allBlank_eq_false member (by decide)

/-! ## The place above the tabular -/

section Above

variable {before nearest : Text} (unbroken : '\n' ∉ nearest) (ends : before.EndsLine)
  (upperEq : figure.upper = before ++ nearest ++ ['\n'])

include unbroken ends upperEq

/-- Above the tabular a block goes to the end of the line there, behind a line feed if the line
has text. -/
theorem placeBeside_above (wellFormed : figure.WellFormed) :
    figure.text.placeBeside figure.sheet.tabular.span.start .above
      = ⟨(before ++ nearest).size, if nearest = [] then [] else ['\n'], []⟩ := by
  obtain ⟨line, after, around, inked⟩ := exists_aroundLine_start wellFormed
  have above : AroundLine figure.text before nearest ('\n' :: (figure.indent ++ line ++ after)) := by
    refine ⟨?_, unbroken, ends, by simp⟩
    rw [around.document_eq, upperEq]
    simp
  have start : figure.sheet.tabular.span.start = (figure.upper ++ figure.indent).size := rfl
  rw [start, around.placeBeside_above inked upperEq above]

end Above

section Below

variable {nearest after : Text}
  (around : AroundLine figure.text (figure.upToTabular ++ ['\n']) nearest after)

include around

/-- Below the tabular a block goes to the start of the line there, in front of a line feed if
the line has text. -/
theorem placeBeside_below : figure.text.placeBeside figure.sheet.tabular.span.stop .below
    = ⟨figure.belowStart, [], if nearest = [] then [] else ['\n']⟩ := by
  obtain ⟨before, upToEq, aroundLast, inked⟩ := exists_aroundLine_stop figure
  have stop : figure.sheet.tabular.span.stop
      = (before ++ lastLine figure.upToTabular).size := by
    rw [← upToEq, size_upToTabular]
  have below : AroundLine figure.text (before ++ (lastLine figure.upToTabular ++ []) ++ ['\n'])
      nearest after := by
    rw [List.append_nil, ← upToEq]
    exact around
  rw [← List.append_nil (lastLine figure.upToTabular)] at aroundLast inked
  rw [stop, aroundLast.placeBeside_below inked below, List.append_nil, ← upToEq, belowStart_eq]

end Below

end Figure

end LatexTabular
