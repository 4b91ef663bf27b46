import LatexTabular.Text.Numeral

/-!
# Why an edit can fail

Reading a table, checking a selection and applying a batch of edits can fail.
Each cause is a constructor, and `EditError.message` holds all the wording.
-/

namespace LatexTabular

/-- A reason why a table was not read or a document not changed. -/
inductive EditError where
  /-- The document holds no tabular. -/
  | noTabular
  /-- No tabular of the document contains the offset. -/
  | noTabularAt (offset : Nat)
  /-- The bracket of the position argument is never closed. -/
  | openPosition (offset : Nat)
  /-- No brace group follows where the column specifier belongs. -/
  | missingSpecifier (offset : Nat)
  /-- The brace group of the column specifier is never closed. -/
  | openSpecifier (offset : Nat)
  /-- A selected row lies outside the table. -/
  | rowOutside (row rowCount : Nat)
  /-- A selected column lies outside the table. -/
  | columnOutside (column columnCount : Nat)
  /-- An edit is reversed, leaves the document or splits a character. -/
  | invalidSpan (span : Span) (documentSize : Nat)
  /-- Two edits of one batch overlap. -/
  | overlap (first second : Span)
  deriving DecidableEq, Repr

namespace EditError

private def spanMessage (span : Span) : Text :=
  Text.ofNumber span.start ++ "..".toList ++ Text.ofNumber span.stop

private def readMessage (offset : Nat) (reason : String) : Text :=
  "Parse error at offset ".toList ++ Text.ofNumber offset ++ ": ".toList
    ++ reason.toList

/-- The text shown to the user. -/
def message : EditError → Text
  | noTabular => "Parse error: no tabular environment found".toList
  | noTabularAt offset => readMessage offset "no tabular environment at offset"
  | openPosition offset => readMessage offset "unterminated position argument"
  | missingSpecifier offset => readMessage offset "missing column specification"
  | openSpecifier offset => readMessage offset "unterminated column specification"
  | rowOutside row rowCount =>
      "Invalid selection: row ".toList ++ Text.ofNumber row
        ++ " outside table of ".toList ++ Text.ofNumber rowCount ++ " rows".toList
  | columnOutside column columnCount =>
      "Invalid selection: column ".toList ++ Text.ofNumber column
        ++ " outside table of ".toList ++ Text.ofNumber columnCount
        ++ " columns".toList
  | invalidSpan span documentSize =>
      "Invalid range ".toList ++ spanMessage span
        ++ " for document of length ".toList ++ Text.ofNumber documentSize
  | overlap first second =>
      "Overlapping changes ".toList ++ spanMessage first ++ " and ".toList
        ++ spanMessage second

end EditError

end LatexTabular
