import LatexTabular.Proofs.Command.Captions
import LatexTabular.Proofs.Edit.Cutting

/-!
# Captions are only relocated

The lines that are taken away with caption and label, and the blank lines that the block
replaces, hold no other ink (`Plan.coverSameInk_takeAway`, `Plan.not_covers_destination`), and
the block is written once (`Plan.takeAway_writes`).  So but for blank characters, moving a
caption cuts out caption and label and inserts the block at one place, and removing it only cuts
them out (`Command.captions_relocated`).
-/

namespace LatexTabular

open Markup

/-- A block is kept apart from other text by blank characters only. -/
theorem Text.allBlank_placeBeside (document : Text) (offset : Nat) (side : Side) :
    allBlank (document.placeBeside offset side).lead = true ∧
      allBlank (document.placeBeside offset side).trail = true := by
  have newline : allBlank ['\n'] = true := by decide
  have nothing : allBlank [] = true := rfl
  unfold placeBeside
  grind

namespace Plan

variable {document block : Text} {destination : Span} {spans : List Span} {placed : Bool}

/-- What is taken away covers the ink of its texts. -/
theorem coverSameInk_takeAway (fits : ∀ span ∈ spans, span.Fits document) :
    document.CoverSameInk
      ((takeAway document block destination placed spans).1.map (·.span)) spans := by
  intro place member inked
  induction spans generalizing placed with
  | nil => rfl
  | cons span rest ih =>
      obtain ⟨fitsFirst, fitsRest⟩ := List.forall_mem_cons.mp fits
      have wide := Text.covers_wholeLine fitsFirst member inked
      simp only [takeAway]
      split
      · simp only [List.map_cons, List.any_cons, Edit.deletion, wide, ih fitsRest]
      · split
        · simp only [List.map_cons, List.any_cons, Edit.deletion, ih fitsRest]
        · simp only [List.map_cons, List.any_cons, ih fitsRest]

/-- Texts are taken away without a trace, but one of them may give its place to the block. -/
theorem takeAway_writes :
    (placed = (takeAway document block destination placed spans).2 ∧
      ∀ edit ∈ (takeAway document block destination placed spans).1, edit.replacement = []) ∨
    (placed = false ∧ (takeAway document block destination placed spans).2 = true ∧
      ∃ edit deletions, edit.replacement = block ∧
        (∀ deletion ∈ deletions, deletion.replacement = []) ∧
        (takeAway document block destination placed spans).1.Perm (edit :: deletions)) := by
  induction spans generalizing placed with
  | nil => exact .inl ⟨rfl, by simp [takeAway]⟩
  | cons span rest ih =>
      have deletes (extent : Span) {edits : List Edit}
          (others : ∀ edit ∈ edits, edit.replacement = []) :
          ∀ edit ∈ Edit.deletion extent :: edits, edit.replacement = [] :=
        List.forall_mem_cons.mpr ⟨rfl, others⟩
      simp only [takeAway]
      split
      · rcases @ih placed with
          ⟨same, others⟩ | ⟨rfl, isPlaced, edit, deletions, blockEq, others, perm⟩
        · exact .inl ⟨same, deletes _ others⟩
        · exact .inr ⟨rfl, isPlaced, edit, _, blockEq, deletes _ others,
            (perm.cons _).trans (.swap _ _ _)⟩
      · have others : ∀ edit ∈ (takeAway document block destination true rest).1,
            edit.replacement = [] :=
          (@ih true).elim (·.2) fun unplaced => absurd unplaced.1 Bool.noConfusion
        cases placed with
        | true => exact .inl ⟨(takeAway_placed ..).symm, deletes _ others⟩
        | false => exact .inr ⟨rfl, takeAway_placed .., _, _, rfl, others, .refl _⟩

/-- The place of a block holds no ink. -/
theorem not_covers_destination {offset : Nat} (boundary : document.isBoundary offset = true)
    (limit : Nat) (side : Side) {place : Nat × Char} (member : place ∈ document.places 0)
    (inked : Text.isBlank place.2 = false) :
    (document.spanWithBlankLines offset limit side).covers place.1 = false := by
  obtain ⟨gap, blank, spells⟩ := Text.exists_spells_spanWithBlankLines boundary limit side
  rw [← List.append_nil gap, ← List.append_nil (gap ++ [])] at spells
  rw [Text.covers_eq_of_spells spells blank rfl member inked]
  simp [Span.covers]

/-- Texts are cut out and the block, with blank characters around it, is put at a destination
without ink unless one of them gives it its place. -/
theorem exists_ink_takeAway (lines : LinesApart document spans)
    (target : destination.Fits document)
    (blankTarget : ∀ place ∈ document.places 0, Text.isBlank place.2 = false →
      destination.covers place.1 = false)
    {replacement : Text} (padded : replacement.ink = block.ink) :
    ∃ result front back, Batch.apply document
        (if (takeAway document block destination false spans).2 then
          (takeAway document block destination false spans).1
        else
          (takeAway document block destination false spans).1 ++ [⟨destination, replacement⟩])
        = .ok result ∧
      (document.without spans).ink = front ++ back ∧
      result.ink = front ++ block.ink ++ back := by
  have valid := @validate_takeAway document block destination spans lines target replacement
  have covered := @coverSameInk_takeAway document block destination spans false lines.fits
  rcases @takeAway_writes document block destination spans false with
    ⟨unplaced, deletes⟩ | ⟨-, isPlaced, edit, deletions, rfl, deletes, perm⟩
  · rw [← unplaced] at valid ⊢
    rw [← padded]
    refine Batch.exists_ink_apply valid List.perm_append_comm deletes fun place member inked => ?_
    rw [if_neg Bool.false_ne_true, List.map_append, List.any_append, covered place member inked]
    simp [blankTarget place member inked]
  · rw [isPlaced] at valid ⊢
    exact Batch.exists_ink_apply valid perm deletes covered

/-- Relocating texts cuts them out and writes the block at one place. -/
theorem exists_ink_relocate {table : Table} (fits : table.span.Fits table.document)
    (lines : LinesApart table.document spans) (side : Side) (block : Text) (options : Options) :
    ∃ result front back,
      Batch.apply table.document (relocate table side block spans options) = .ok result ∧
      (table.document.without spans).ink = front ++ back ∧
      result.ink = front ++ block.ink ++ back := by
  have beside {offset : Nat} (boundary : table.document.isBoundary offset = true) :
      ∃ result front back, Batch.apply table.document
          (let place := table.document.placeBeside offset side
          let destination := table.document.spanWithBlankLines place.offset options.blankLines side
          let taken := takeAway table.document block destination false spans
          if taken.2 then taken.1
          else taken.1 ++ [⟨destination, place.lead ++ block ++ place.trail⟩]) = .ok result ∧
        (table.document.without spans).ink = front ++ back ∧
        result.ink = front ++ block.ink ++ back := by
    have atPlace := Text.isBoundary_placeBeside boundary side
    obtain ⟨blankLead, blankTrail⟩ := Text.allBlank_placeBeside table.document offset side
    refine exists_ink_takeAway lines (Text.fits_spanWithBlankLines atPlace _ side)
      (fun place member inked => not_covers_destination atPlace _ side member inked) ?_
    simp [Text.ink_eq_nil_iff.mpr blankLead, Text.ink_eq_nil_iff.mpr blankTrail]
  cases side with
  | above => exact beside fits.startBoundary
  | below => exact beside fits.stopBoundary

/-- The texts that a caption command takes away: the caption, and the label unless it stands
within it. -/
def captionSpans (table : Table) : List Span :=
  table.caption.toList ++ (freeLabel? table).toList

/-- Removing the caption leaves what is left without caption and label, but for blank characters. -/
theorem exists_ink_removeCaption {table : Table}
    (lines : LinesApart table.document ((freeLabel? table).toList ++ table.caption.toList)) :
    ∃ result, Batch.apply table.document (removeCaption table) = .ok result ∧
      result.ink = (table.document.without (captionSpans table)).ink := by
  refine Batch.exists_ink_apply_of_deletions (validate_removeCaption lines) ?_ ?_
  · intro edit member
    obtain ⟨span, -, rfl⟩ := List.mem_map.mp member
    rfl
  · have fits := (lines.perm List.perm_append_comm).fits
    simpa [captionSpans, Function.comp_def, Edit.deletion, removeCaption]
      using Text.coverSameInk_wholeLine fits

end Plan

namespace Command

/-- The caption commands only relocate.  For every tabular that can be read and whose label lies
apart from its caption or within it, moving the caption, unless it is in place, makes of the
document what is left without caption and label, with the block inserted at one place, and
removing the caption makes of it what is left without them, but for blank characters. -/
theorem captions_relocated (document : Text) (options : Options) :
    ∀ tabular ∈ Table.tabulars (environments document), ∀ table,
      Table.ofTabular document (environments document) tabular = .ok table →
      table.LabelApartOrWithin → ∀ selection : Selection,
        (∀ side, ((moveCaption side).plan table selection options).batch ≠ [] →
          ∃ result front back,
            Batch.apply document ((moveCaption side).plan table selection options).batch
              = .ok result ∧
            (document.without (Plan.captionSpans table)).ink = front ++ back ∧
            result.ink = front ++ (Plan.captionBlock table options).ink ++ back) ∧
        ∃ result,
          Batch.apply document (removeCaption.plan table selection options).batch = .ok result ∧
          result.ink = (document.without (Plan.captionSpans table)).ink := by
  intro tabular isTabular table found nested selection
  obtain ⟨rfl, floatEq, _, -, hasBody⟩ :=
    Table.exists_body_of_ofTabular (List.mem_filter.mp isTabular).1 found
  have lines := Plan.linesApart_of_float floatEq nested
  refine ⟨fun side changes => ?_, ?_⟩
  · rcases Plan.moveCaption_eq table side options with inPlace | moved
    · exact absurd inPlace changes
    · obtain ⟨result, front, back, applied, left, inked⟩ :=
        Plan.exists_ink_relocate hasBody.span_fits lines side (Plan.captionBlock table options) options
      have same : table.document.CoverSameInk (Plan.captionSpans table)
          ((Plan.freeLabel? table).toList ++ table.caption.toList) :=
        fun _ _ _ => List.perm_append_comm.any_eq
      simp only [plan, Plan.ofBatch, moved]
      exact ⟨result, front, back, applied, same.ink_without_eq.trans left, inked⟩
  · exact Plan.exists_ink_removeCaption lines

/-- A float with its caption and its label on one line below its tabular. -/
def captionBelow : Text :=
  "\\begin{table}\n\\begin{tabular}{c}\nx\n\\end{tabular}\n\\caption{A}\\label{b}\n".toList
    ++ "\\end{table}".toList

/-- Moving the caption above puts it once into the document with its label, and removing it
leaves the rest. -/
theorem captions_relocated_captionBelow :
    ∃ tabular ∈ Table.tabulars (environments captionBelow), ∃ table,
      Table.ofTabular captionBelow (environments captionBelow) tabular = .ok table ∧
      table.LabelApartOrWithin ∧
      ((moveCaption .above).plan table (.single 0 0) {}).batch ≠ [] ∧
      (∃ result front back,
        Batch.apply captionBelow ((moveCaption .above).plan table (.single 0 0) {}).batch
          = .ok result ∧
        front ++ back = "\\begin{table}\\begin{tabular}{c}x\\end{tabular}\\end{table}".toList ∧
        result.ink = front ++ "\\caption{A}\\label{b}".toList ++ back) ∧
      ∃ result,
        Batch.apply captionBelow (removeCaption.plan table (.single 0 0) {}).batch = .ok result ∧
        result.ink = "\\begin{table}\\begin{tabular}{c}x\\end{tabular}\\end{table}".toList := by
  have delimited : delimiters captionBelow
      = [⟨true, "table".toList, ⟨0, 13⟩⟩, ⟨true, "tabular".toList, ⟨14, 29⟩⟩,
        ⟨false, "tabular".toList, ⟨35, 48⟩⟩, ⟨false, "table".toList, ⟨70, 81⟩⟩] := by
    decide +kernel
  have matched : environments captionBelow = [⟨"table".toList, ⟨0, 13⟩, ⟨70, 81⟩⟩,
      ⟨"tabular".toList, ⟨14, 29⟩, ⟨35, 48⟩⟩] :=
    environments_of_enclosed delimited (by decide)
  have isTabular : ⟨"tabular".toList, ⟨14, 29⟩, ⟨35, 48⟩⟩
      ∈ Table.tabulars (environments captionBelow) := by
    rw [matched]
    decide +kernel
  have facts : (Table.ofTabular captionBelow (environments captionBelow)
        ⟨"tabular".toList, ⟨14, 29⟩, ⟨35, 48⟩⟩).map (fun table => (table.caption,
          table.label, ((moveCaption .above).plan table (.single 0 0) {}).batch.length,
          (Plan.captionBlock table {}).ink, Plan.captionSpans table))
      = .ok (some ⟨49, 60⟩, some ⟨60, 69⟩, 3, "\\caption{A}\\label{b}".toList,
        [⟨49, 60⟩, ⟨60, 69⟩]) := by
    rw [matched]
    decide +kernel
  have cut : (captionBelow.without [⟨49, 60⟩, ⟨60, 69⟩]).ink
      = "\\begin{table}\\begin{tabular}{c}x\\end{tabular}\\end{table}".toList := by
    decide +kernel
  obtain ⟨table, found, evaluated⟩ := exists_eq_ok_of_map facts
  obtain ⟨captionEq, evaluated⟩ := Prod.mk.inj evaluated
  obtain ⟨labelEq, evaluated⟩ := Prod.mk.inj evaluated
  obtain ⟨count, evaluated⟩ := Prod.mk.inj evaluated
  obtain ⟨blockEq, spansEq⟩ := Prod.mk.inj evaluated
  have nested := Table.labelApartOrWithin_of_eq captionEq labelEq (.inr (.inl (by decide)))
  have changes : ((moveCaption .above).plan table (.single 0 0) {}).batch ≠ [] := by
    intro nothing
    rw [nothing] at count
    exact absurd count (by decide)
  obtain ⟨moves, removed⟩ :=
    captions_relocated captionBelow {} _ isTabular table found nested (.single 0 0)
  obtain ⟨result, front, back, applied, left, inked⟩ := moves .above changes
  rw [spansEq, cut] at left removed
  rw [blockEq] at inked
  exact ⟨_, isTabular, table, found, nested, changes,
    ⟨result, front, back, applied, left.symm, inked⟩, removed⟩

end Command

end LatexTabular
