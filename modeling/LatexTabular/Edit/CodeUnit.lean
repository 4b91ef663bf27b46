import LatexTabular.Edit
import LatexTabular.Text.CodeUnit

/-!
# Edits in UTF-16 code units

An editor that counts positions in UTF-16 code units is told of edits by their positions in
the code units of the unchanged document.
-/

namespace LatexTabular

/-- The span of the same characters, counted in code units. -/
def Span.inUnits (document : Text) (span : Span) : Span :=
  ⟨document.unitsOfByte span.start, document.unitsOfByte span.stop⟩

/-- The same replacement, with its positions in code units. -/
def Edit.inUnits (document : Text) (edit : Edit) : Edit :=
  ⟨edit.span.inUnits document, edit.replacement⟩

/-- The edits of a batch as an editor is told of them. -/
def Batch.inUnits (document : Text) (batch : Batch) : Batch := batch.map (Edit.inUnits document)

end LatexTabular
