import LatexTabular.Command.Basic
import LatexTabular.Options

/-!
# Moving and removing captions

A caption moves to the lines above or below its tabular and takes along a label
that does not stand within it.  A line that held nothing but the caption or the
label disappears with it.
-/

namespace LatexTabular.Plan

/-- Whether deleting the text of `extent` would take away the place of a new
block. -/
def clashes (extent destination : Span) : Bool :=
  if destination.isEmpty then
    extent.start < destination.start && destination.start < extent.stop
  else extent.start < destination.stop && destination.start < extent.stop

/-- Take moved texts away from where they stand.  The first of them whose line
clashes with the destination gives its place to the block; the result tells
whether one did. -/
def takeAway (document block : Text) (destination : Span) (placed : Bool) :
    List Span → List Edit × Bool
  | [] => ([], placed)
  | span :: rest =>
      let extent := document.wholeLine span
      if !clashes extent destination then
        let (edits, placed) := takeAway document block destination placed rest
        (.deletion extent :: edits, placed)
      else
        let (edits, after) := takeAway document block destination true rest
        ((if placed then .deletion span else ⟨span, block⟩) :: edits, after)

/-- Put a block beside the tabular, on lines of its own, and take away the texts
it replaces. -/
def relocate (table : Table) (side : Side) (block : Text) (moved : List Span)
    (options : Options) : Batch :=
  let document := table.document
  let offset :=
    match side with
    | .above => table.span.start
    | .below => table.span.stop
  let place := document.placeBeside offset side
  let destination :=
    document.spanWithBlankLines place.offset options.blankLines side
  let (edits, placed) := takeAway document block destination false moved
  if placed then edits
  else edits ++ [⟨destination, place.lead ++ block ++ place.trail⟩]

/-- The label of a table unless it stands within its caption. -/
def freeLabel? (table : Table) : Option Span :=
  table.label.filter fun label =>
    !(table.caption.any fun caption => caption.contains label)

/-- Whether a caption stands on a side of its tabular. -/
def isOnSide (tabular caption : Span) : Side → Bool
  | .above => caption.start < tabular.start
  | .below => tabular.stop < caption.start

/-- Move the caption with a free label to a side of the tabular.  A table without
a caption gets the default one, above its label or the default label. -/
def moveCaption (table : Table) (side : Side) (options : Options) : Batch :=
  match table.caption with
  | some caption =>
      if isOnSide table.span caption side then []
      else
        match freeLabel? table with
        | some label =>
            relocate table side
              (table.slice caption ++ ['\n'] ++ table.slice label)
              [label, caption] options
        | none => relocate table side (table.slice caption) [caption] options
  | none =>
      match table.label with
      | some label =>
          relocate table side
            (options.defaultCaption ++ ['\n'] ++ table.slice label) [label] options
      | none =>
          relocate table side
            (options.defaultCaption ++ ['\n'] ++ options.defaultLabel) [] options

/-- Remove the caption and the label, each with its line if it stands alone
there. -/
def removeCaption (table : Table) : Batch :=
  (table.caption.toList ++ (freeLabel? table).toList).map fun span =>
    .deletion (table.document.wholeLine span)

end LatexTabular.Plan
