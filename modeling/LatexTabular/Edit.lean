import LatexTabular.Error

/-!
# Edits and batches of edits

An edit replaces one span of a document by a text.  A batch of edits speaks
about offsets of the unchanged document and is applied as a whole or not at all:
the edits must lie in the document, on character boundaries, and must not
overlap.
-/

namespace LatexTabular

/-- The replacement of the text in a span. -/
structure Edit where
  span : Span
  replacement : Text
  deriving DecidableEq, Repr

namespace Edit

/-- An edit that puts a text at an offset. -/
def insertion (offset : Nat) (text : Text) : Edit := ⟨.point offset, text⟩

/-- An edit that removes the text of a span. -/
def deletion (span : Span) : Edit := ⟨span, []⟩

/-- The replacement of `current` by `updated`, unless they are the same. -/
def revision (span : Span) (current updated : Text) : List Edit :=
  if current = updated then [] else [⟨span, updated⟩]

/-- Whether an edit comes before another, by its start and then by its end. -/
def precedes (first second : Edit) : Bool :=
  first.span.start < second.span.start
    || first.span.start == second.span.start
      && first.span.stop ≤ second.span.stop

/-- Whether an edit lies in a document and splits none of its characters. -/
def fits (document : Text) (edit : Edit) : Bool :=
  edit.span.start ≤ edit.span.stop && edit.span.stop ≤ document.size
    && document.isBoundary edit.span.start && document.isBoundary edit.span.stop

end Edit

/-- Edits of one document, in the order in which they were planned. -/
abbrev Batch := List Edit

namespace Batch

/-- The edits of a batch from the front of the document to its end.  Edits of
one and the same span keep their order. -/
def sorted (batch : Batch) : List Edit := batch.mergeSort Edit.precedes

/-- The first two neighbours of which the second starts before the first ends. -/
def overlap? : List Edit → Option (Edit × Edit)
  | first :: second :: rest =>
      if second.span.start < first.span.stop then some (first, second)
      else overlap? (second :: rest)
  | _ => none

/-- Check a batch against a document.  An edit that does not fit is reported
before any overlap. -/
def validate (document : Text) (batch : Batch) : Except EditError Unit :=
  match batch.sorted.find? (fun edit => !edit.fits document) with
  | some edit => .error (.invalidSpan edit.span document.size)
  | none =>
      match overlap? batch.sorted with
      | some (first, second) => .error (.overlap first.span second.span)
      | none => .ok ()

/-- Copy a document that starts at offset `start`, replacing what the edits, in
the order of the document, cover. -/
def splice : (start : Nat) → Text → List Edit → Text
  | _, document, [] => document
  | start, document, edit :: rest =>
      document.takeBytes (edit.span.start - start) ++ edit.replacement
        ++ splice edit.span.stop
          (document.dropBytes (edit.span.stop - start)) rest

/-- Apply a batch to a document, or report why it cannot be applied. -/
def apply (document : Text) (batch : Batch) : Except EditError Text := do
  validate document batch
  return splice 0 document batch.sorted

end Batch

end LatexTabular
