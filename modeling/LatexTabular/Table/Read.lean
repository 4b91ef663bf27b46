import LatexTabular.Body.Layout
import LatexTabular.Error
import LatexTabular.Table.Float

/-!
# Reading tables from a document

Every tabular environment of a document can be read as a table.  An optional
position argument and the column specifier stand in front of its body.
Environments within the body are opaque: what they contain belongs to a cell.
-/

namespace LatexTabular

open Markup Body

/-- What stands in front of the body of a tabular. -/
structure Declaration where
  /-- The content of the braces around the column specifier. -/
  specifier : Text
  specifierStart : Nat
  body : Text
  deriving DecidableEq, Repr

namespace Declaration

def specifierSpan (declaration : Declaration) : Span :=
  ⟨declaration.specifierStart,
    declaration.specifierStart + declaration.specifier.size⟩

/-- The offset of the body, which follows the closing brace. -/
def bodyStart (declaration : Declaration) : Nat :=
  declaration.specifierSpan.stop + 1

/-- Read the column specifier at the front of a text that starts at `offset`. -/
def readSpecifier (offset : Nat) (text : Text) : Except EditError Declaration :=
  let gap := spaces text
  let start := offset + gap.size
  match text.drop gap.length with
  | '{' :: rest =>
      match untilClosed? 0 rest with
      | some specifier =>
          .ok ⟨specifier, start + 1, rest.drop (specifier.length + 1)⟩
      | none => .error (.openSpecifier start)
  | _ => .error (.missingSpecifier start)

/-- Read what stands in front of a body, in the text of a tabular that starts at
`offset`. -/
def read (offset : Nat) (text : Text) : Except EditError Declaration :=
  let gap := spaces text
  let start := offset + gap.size
  match text.drop gap.length with
  | '[' :: rest =>
      match optionalGroup? ('[' :: rest) with
      | some position =>
          readSpecifier (start + position.size)
            (('[' :: rest).drop position.length)
      | none => .error (.openPosition start)
  | _ => readSpecifier offset text

end Declaration

namespace Table

/-- The environments of a document that are tabulars. -/
def tabulars (environments : List Environment) : List Environment :=
  environments.filter (·.name == "tabular".toList)

/-- Read one tabular among the environments of a document. -/
def ofTabular (document : Text) (environments : List Environment)
    (tabular : Environment) : Except EditError Table := do
  let interior := tabular.interior
  let declaration ← Declaration.read interior.start (document.slice interior)
  let nested := (environments.map Environment.span).filter fun span =>
    declaration.bodyStart ≤ span.start && span.stop ≤ interior.stop
  let lexemes := lex nested declaration.bodyStart .start declaration.body
  let columnCount := (Specifier.columns declaration.specifier).length
  return {
    document
    span := tabular.span
    specifierSpan := declaration.specifierSpan
    rows := (rowsOf declaration.bodyStart lexemes).map (Row.padded columnCount)
    float := Captioning.ofTabular? document environments tabular.span }

/-- Read all tables of a document, in the order of their beginnings. -/
def readAll (document : Text) : Except EditError (List Table) :=
  let all := environments document
  (tabulars all).mapM (ofTabular document all)

/-- Read the first table of a document. -/
def readFirst (document : Text) : Except EditError Table :=
  let all := environments document
  match (tabulars all).head? with
  | some tabular => ofTabular document all tabular
  | none => .error .noTabular

/-- Read the innermost table around an offset, which may be either end of it. -/
def readAt (document : Text) (offset : Nat) : Except EditError Table :=
  let all := environments document
  let around := (tabulars all).filter fun tabular =>
    tabular.span.start ≤ offset && offset ≤ tabular.span.stop
  match around.getLast? with
  | some tabular => ofTabular document all tabular
  | none => .error (.noTabularAt offset)

end Table

end LatexTabular
