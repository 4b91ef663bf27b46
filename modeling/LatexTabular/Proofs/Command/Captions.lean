import LatexTabular.Proofs.Command.Confinement
import LatexTabular.Proofs.Edit.Validity
import LatexTabular.Proofs.Table.Float
import LatexTabular.Proofs.Text.Placement

/-!
# Edits of captions

Moving a caption takes away up to two texts, each with its line if it stands alone there, and
puts a block beside the tabular.  The lines lie apart because a caption begins and ends with
ink (`Plan.linesApart_of_float`), and the block goes where it meets none of them
(`Plan.clashes_eq_false_iff`); so the edits are valid, however caption, label, blank lines and
tabular adjoin (`Command.valid_of_captions`).
-/

namespace LatexTabular

open Markup

namespace Table

/-- Whether the label of a table lies apart from its caption or within it. -/
def LabelApartOrWithin (table : Table) : Prop :=
  ∀ caption ∈ table.caption, ∀ label ∈ table.label,
    label.stop ≤ caption.start ∨ caption.stop ≤ label.start ∨ caption.contains label = true

theorem labelApartOrWithin_of_eq {table : Table} {caption label : Span}
    (captionEq : table.caption = some caption) (labelEq : table.label = some label)
    (apart : label.stop ≤ caption.start ∨ caption.stop ≤ label.start ∨
      caption.contains label = true) : table.LabelApartOrWithin := by
  intro other isCaption another isLabel
  obtain rfl := Option.some.inj (captionEq.symm.trans isCaption)
  obtain rfl := Option.some.inj (labelEq.symm.trans isLabel)
  exact apart

end Table

namespace Plan

variable {document block : Text} {destination : Span} {spans : List Span} {placed : Bool}

/-- Spans of a document whose whole lines lie apart. -/
structure LinesApart (document : Text) (spans : List Span) : Prop where
  fits : ∀ span ∈ spans, span.Fits document
  apart : spans.Pairwise fun first second =>
    (document.wholeLine first).stop ≤ (document.wholeLine second).start ∨
      (document.wholeLine second).stop ≤ (document.wholeLine first).start

theorem LinesApart.tail {span : Span} (lines : LinesApart document (span :: spans)) :
    LinesApart document spans :=
  ⟨fun other member => lines.fits other (List.mem_cons_of_mem _ member),
    (List.pairwise_cons.mp lines.apart).2⟩

theorem LinesApart.perm {others : List Span} (lines : LinesApart document spans)
    (same : spans.Perm others) : LinesApart document others :=
  ⟨fun span member => lines.fits span (same.mem_iff.mpr member),
    same.pairwise lines.apart Or.symm⟩

/-- The spans that do not clash with a destination lie apart from it. -/
theorem clashes_eq_false_iff {extent : Span} (ordered : destination.start ≤ destination.stop) :
    clashes extent destination = false
      ↔ extent.stop ≤ destination.start ∨ destination.stop ≤ extent.start := by
  unfold clashes Span.isEmpty
  by_cases empty : destination.stop ≤ destination.start
  · simp only [empty, decide_true, if_true, Bool.and_eq_false_iff, decide_eq_false_iff_not]
    omega
  · simp only [empty, decide_false, Bool.false_eq_true, if_false, Bool.and_eq_false_iff,
      decide_eq_false_iff_not]
    omega

/-- A text is taken away with its line or alone. -/
theorem exists_of_mem_takeAway (fits : ∀ span ∈ spans, span.Fits document) {edit : Edit}
    (member : edit ∈ (takeAway document block destination placed spans).1) :
    ∃ span ∈ spans, edit.span.Fits document ∧
      (document.wholeLine span).contains edit.span = true := by
  induction spans generalizing placed with
  | nil => simp [takeAway] at member
  | cons span rest ih =>
      have later {placed : Bool}
          (inRest : edit ∈ (takeAway document block destination placed rest).1) :
          ∃ other ∈ span :: rest, edit.span.Fits document ∧
            (document.wholeLine other).contains edit.span = true := by
        obtain ⟨other, inRest, found⟩ :=
          ih (fun other member => fits other (List.mem_cons_of_mem _ member)) inRest
        exact ⟨other, List.mem_cons_of_mem _ inRest, found⟩
      obtain ⟨wideFits, contains⟩ := Text.fits_wholeLine (fits span List.mem_cons_self)
      simp only [takeAway] at member
      split at member
      · rcases List.mem_cons.mp member with rfl | inRest
        · exact ⟨span, List.mem_cons_self, wideFits, by simp [Edit.deletion, Span.contains]⟩
        · exact later inRest
      · rcases List.mem_cons.mp member with rfl | inRest
        · refine ⟨span, List.mem_cons_self, ?_⟩
          split
          · exact ⟨fits span List.mem_cons_self, contains⟩
          · exact ⟨fits span List.mem_cons_self, contains⟩
        · exact later inRest

/-- Parts of lines that lie apart lie apart. -/
theorem apart_of_contains {wide wide' span span' : Span} (contains : wide.contains span = true)
    (contains' : wide'.contains span' = true)
    (apart : wide.stop ≤ wide'.start ∨ wide'.stop ≤ wide.start) :
    span.stop ≤ span'.start ∨ span'.stop ≤ span.start := by
  simp only [Span.contains, Bool.and_eq_true, decide_eq_true_eq] at contains contains'
  omega

theorem pairwise_takeAway (lines : LinesApart document spans) :
    (takeAway document block destination placed spans).1.Pairwise Edit.Apart := by
  induction spans generalizing placed with
  | nil => exact .nil
  | cons span rest ih =>
      have front {edit : Edit} {placed : Bool}
          (within : (document.wholeLine span).contains edit.span = true) :
          (edit :: (takeAway document block destination placed rest).1).Pairwise Edit.Apart := by
        refine List.pairwise_cons.mpr ⟨fun other inRest => ?_, ih lines.tail⟩
        obtain ⟨behind, isSpan, -, contains⟩ := exists_of_mem_takeAway lines.tail.fits inRest
        exact apart_of_contains within contains
          ((List.pairwise_cons.mp lines.apart).1 behind isSpan)
      obtain ⟨-, contains⟩ := Text.fits_wholeLine (lines.fits span List.mem_cons_self)
      simp only [takeAway]
      split
      · exact front (by simp [Edit.deletion, Span.contains])
      · refine front ?_
        split
        · exact contains
        · exact contains

theorem takeAway_placed (document block : Text) (destination : Span) (spans : List Span) :
    (takeAway document block destination true spans).2 = true := by
  induction spans with
  | nil => rfl
  | cons span rest ih =>
      simp only [takeAway]
      split
      · exact ih
      · exact ih

/-- Without a place for the block among them, the texts are taken away beside its
destination. -/
theorem apart_of_takeAway_unplaced (ordered : destination.start ≤ destination.stop)
    (unplaced : (takeAway document block destination placed spans).2 = false) {edit : Edit}
    (member : edit ∈ (takeAway document block destination placed spans).1) :
    edit.span.stop ≤ destination.start ∨ destination.stop ≤ edit.span.start := by
  induction spans generalizing placed with
  | nil => simp [takeAway] at member
  | cons span rest ih =>
      simp only [takeAway] at unplaced member
      split at unplaced
      next clear =>
        rw [if_pos clear] at member
        rcases List.mem_cons.mp member with rfl | inRest
        · exact (clashes_eq_false_iff ordered).mp (by simpa [Edit.deletion] using clear)
        · exact ih unplaced inRest
      next =>
        rw [takeAway_placed] at unplaced
        exact absurd unplaced Bool.noConfusion

/-- Texts whose whole lines lie apart can be taken away, with a block put at a destination
unless one of them gives it its place. -/
theorem validate_takeAway (lines : LinesApart document spans) (target : destination.Fits document)
    (replacement : Text) :
    Batch.validate document
      (if (takeAway document block destination false spans).2 then
        (takeAway document block destination false spans).1
      else
        (takeAway document block destination false spans).1 ++ [⟨destination, replacement⟩])
      = .ok () := by
  have taken : ∀ edit ∈ (takeAway document block destination false spans).1,
      edit.span.Fits document := by
    intro edit member
    obtain ⟨-, -, fits, -⟩ := exists_of_mem_takeAway lines.fits member
    exact fits
  split
  · exact Batch.validate_eq_ok taken (pairwise_takeAway lines)
  next unplaced =>
    refine Batch.validate_eq_ok (fun edit member => ?_) ?_
    · rcases List.mem_append.mp member with inTaken | isBlock
      · exact taken edit inTaken
      · obtain rfl := List.mem_singleton.mp isBlock
        exact target
    · refine List.pairwise_append.mpr ⟨pairwise_takeAway lines, List.pairwise_singleton _ _, ?_⟩
      intro edit inTaken last isBlock
      obtain rfl := List.mem_singleton.mp isBlock
      exact apart_of_takeAway_unplaced target.ordered (by simpa using unplaced) inTaken

/-- Moving texts to a side of a tabular is valid when their whole lines lie apart. -/
theorem validate_relocate {table : Table} {moved : List Span}
    (fits : table.span.Fits table.document) (lines : LinesApart table.document moved)
    (side : Side) (block : Text) (options : Options) :
    Batch.validate table.document (relocate table side block moved options) = .ok () := by
  have target {offset : Nat} (boundary : table.document.isBoundary offset = true) :=
    Text.fits_spanWithBlankLines (Text.isBoundary_placeBeside boundary side) options.blankLines side
  cases side with
  | above => exact validate_takeAway lines (target fits.startBoundary) _
  | below => exact validate_takeAway lines (target fits.stopBoundary) _

/-- What stands beside a tabular after its caption was moved: the caption or the default one,
and on the next line the free label, or the default label where there is none of both. -/
def captionBlock (table : Table) (options : Options) : Text :=
  (table.caption.map table.slice).getD options.defaultCaption ++
    match freeLabel? table with
    | some label => '\n' :: table.slice label
    | none => if table.caption.isSome then [] else '\n' :: options.defaultLabel

/-- A caption that is not in place moves with a free label. -/
theorem moveCaption_eq (table : Table) (side : Side) (options : Options) :
    moveCaption table side options = [] ∨ moveCaption table side options
      = relocate table side (captionBlock table options)
        ((freeLabel? table).toList ++ table.caption.toList) options := by
  cases captionEq : table.caption with
  | none =>
      right
      have free : freeLabel? table = table.label := by
        cases labelEq : table.label <;> simp [freeLabel?, captionEq, labelEq]
      cases labelEq : table.label with
      | none => simp [moveCaption, captionBlock, captionEq, free, labelEq]
      | some label => simp [moveCaption, captionBlock, captionEq, free, labelEq]
  | some caption =>
      simp only [moveCaption, captionEq]
      split
      · exact .inl rfl
      · right
        cases freeEq : freeLabel? table with
        | none => simp [captionBlock, captionEq, freeEq]
        | some label => simp [captionBlock, captionEq, freeEq]

/-- A free label is the label, outside the caption. -/
theorem freeLabel?_eq_some_iff {table : Table} {label : Span} :
    freeLabel? table = some label ↔ table.label = some label ∧
      ∀ caption ∈ table.caption, caption.contains label = false := by
  cases captionEq : table.caption <;> simp [freeLabel?, captionEq, Option.filter_eq_some_iff]

/-- The whole lines of the caption and of a free label lie apart. -/
theorem linesApart_of_float {table : Table} {tabular : Span}
    (floatEq : table.float
      = Captioning.ofTabular? table.document (environments table.document) tabular)
    (nested : table.LabelApartOrWithin) :
    LinesApart table.document ((freeLabel? table).toList ++ table.caption.toList) := by
  have ofFloat {span : Span} (isCommand : table.caption = some span ∨ table.label = some span) :
      ∃ captioning, Captioning.ofTabular? table.document (environments table.document) tabular
          = some captioning ∧ captioning.caption = table.caption ∧
        captioning.label = table.label := by
    cases isFloat : table.float with
    | none => simp [Table.caption, Table.label, isFloat] at isCommand
    | some captioning =>
        exact ⟨captioning, by rw [← floatEq, isFloat], by simp [Table.caption, isFloat],
          by simp [Table.label, isFloat]⟩
  constructor
  · intro span member
    have isCommand : table.caption = some span ∨ table.label = some span := by
      rcases List.mem_append.mp member with isLabel | isCaption
      · exact .inr (freeLabel?_eq_some_iff.mp (Option.mem_toList.mp isLabel)).1
      · exact .inl (Option.mem_toList.mp isCaption)
    obtain ⟨captioning, found, captionEq, labelEq⟩ := ofFloat isCommand
    obtain ⟨_, -, commands⟩ := Captioning.exists_float_of_ofTabular? found
    exact (commands span (by rwa [captionEq, labelEq])).1
  · have single (planned : Option Span) {relation : Span → Span → Prop} :
        planned.toList.Pairwise relation := by
      cases planned with
      | none => exact .nil
      | some span => exact List.pairwise_singleton _ _
    refine List.pairwise_append.mpr ⟨single _, single _, fun label isLabel caption isCaption => ?_⟩
    have isCaption := Option.mem_toList.mp isCaption
    obtain ⟨isLabel, outside⟩ := freeLabel?_eq_some_iff.mp (Option.mem_toList.mp isLabel)
    obtain ⟨captioning, found, captionEq, labelEq⟩ := ofFloat (.inr isLabel)
    rw [← captionEq] at isCaption
    rw [← labelEq] at isLabel
    rcases nested caption (captionEq ▸ isCaption) label (labelEq ▸ isLabel)
      with labelFirst | captionFirst | contains
    · exact .inl (Captioning.wholeLine_stop_le_start found (.inr isLabel) (.inl isCaption) labelFirst)
    · exact .inr (Captioning.wholeLine_stop_le_start found (.inl isCaption) (.inr isLabel)
        captionFirst)
    · rw [outside caption (captionEq ▸ isCaption)] at contains
      exact absurd contains Bool.noConfusion

/-- Removing texts with their lines is valid when the lines lie apart. -/
theorem validate_removeCaption {table : Table}
    (lines : LinesApart table.document ((freeLabel? table).toList ++ table.caption.toList)) :
    Batch.validate table.document (removeCaption table) = .ok () := by
  have lines := lines.perm List.perm_append_comm
  refine Batch.validate_eq_ok (fun edit member => ?_) ?_
  · obtain ⟨span, isSpan, rfl⟩ := List.mem_map.mp member
    exact (Text.fits_wholeLine (lines.fits span isSpan)).1
  · exact List.pairwise_map.mpr lines.apart

end Plan

namespace Command

/-- A caption command plans a valid batch for every tabular whose label lies apart from its
caption or within it. -/
theorem validate_plan {command : Command}
    (forCaption : command = .removeCaption ∨ ∃ side, command = .moveCaption side)
    {document : Text} {tabular : Environment} {table : Table}
    (member : tabular ∈ environments document)
    (found : Table.ofTabular document (environments document) tabular = .ok table)
    (nested : table.LabelApartOrWithin) (selection : Selection) (options : Options) :
    Batch.validate document (command.plan table selection options).batch = .ok () := by
  obtain ⟨rfl, floatEq, _, -, hasBody⟩ := Table.exists_body_of_ofTabular member found
  have lines := Plan.linesApart_of_float floatEq nested
  rcases forCaption with rfl | ⟨side, rfl⟩
  · exact Plan.validate_removeCaption lines
  · rcases Plan.moveCaption_eq table side options with inPlace | moved
    · simp only [plan, Plan.ofBatch, inPlace]
      exact Batch.validate_eq_ok (by simp) .nil
    · simp only [plan, Plan.ofBatch, moved]
      exact Plan.validate_relocate hasBody.span_fits lines side _ options

/-- The commands for captions yield a valid batch for every tabular that can be read and whose
label lies apart from its caption or within it, whatever the side and the options are.  Applying
one to such a tabular succeeds, and elsewhere it fails as the reading does. -/
theorem valid_of_captions (command : Command)
    (forCaption : command = .removeCaption ∨ ∃ side, command = .moveCaption side)
    (document : Text) (options : Options) :
    (∀ tabular ∈ Table.tabulars (environments document), ∀ table,
      Table.ofTabular document (environments document) tabular = .ok table →
      table.LabelApartOrWithin → ∀ selection : Selection,
        Batch.validate document (command.plan table selection options).batch = .ok ()) ∧
    ∀ offset (selection : Option Selection),
      (∀ table, Table.readAt document offset = .ok table → table.LabelApartOrWithin) →
        (∀ table, Table.readAt document offset = .ok table →
          ∃ applied, command.apply document offset selection options = .ok applied) ∧
        (∀ span size, command.apply document offset selection options
          ≠ .error (.invalidSpan span size)) ∧
        ∀ first second, command.apply document offset selection options
          ≠ .error (.overlap first second) := by
  have valid {tabular : Environment} (isTabular : tabular ∈ Table.tabulars (environments document))
      {table : Table}
      (found : Table.ofTabular document (environments document) tabular = .ok table)
      (nested : table.LabelApartOrWithin) (selection : Selection) :
      Batch.validate document (command.plan table selection options).batch = .ok () :=
    validate_plan forCaption (List.mem_filter.mp isTabular).1 found nested selection options
  refine ⟨fun tabular isTabular table found nested selection =>
    valid isTabular found nested selection, fun offset selection nested => ?_⟩
  have applies (table : Table) (readEq : Table.readAt document offset = .ok table) :
      ∃ applied, command.apply document offset selection options = .ok applied := by
    obtain ⟨tabular, isTabular, found⟩ := Table.exists_tabular_of_readAt readEq
    have checked := valid isTabular found (nested table readEq) (selection.getD (.single 0 0))
    have unused : command.usesSelection = false := by
      rcases forCaption with rfl | ⟨side, rfl⟩
      · rfl
      · rfl
    rw [apply, readEq]
    simp [unused, Batch.apply, checked, bind, Except.bind, pure, Except.pure]
  have fails {error : EditError}
      (failed : command.apply document offset selection options = .error error) :
      error.concernsEdits = false := by
    cases readEq : Table.readAt document offset with
    | error cause =>
        simp only [apply, readEq, bind, Except.bind, Except.error.injEq] at failed
        exact failed ▸ Table.concernsEdits_of_readAt readEq
    | ok table =>
        obtain ⟨applied, succeeds⟩ := applies table readEq
        simp [succeeds] at failed
  refine ⟨applies, fun span size failed => ?_, fun first second failed => ?_⟩
  · simpa [EditError.concernsEdits] using fails failed
  · simpa [EditError.concernsEdits] using fails failed

/-- A float with its label directly above its tabular and its caption below. -/
def splitCaptioning : Text :=
  "\\begin{table}\n\\label{b}\n\\begin{tabular}{c}\nx\n\\end{tabular}\n\\caption{A}\n".toList
    ++ "\\end{table}".toList

/-- The label gives its place to the caption, which takes it along. -/
theorem valid_of_captions_splitCaptioning :
    ∃ tabular ∈ Table.tabulars (environments splitCaptioning), ∃ table,
      Table.ofTabular splitCaptioning (environments splitCaptioning) tabular = .ok table ∧
      table.LabelApartOrWithin ∧
      Batch.validate splitCaptioning
        ((moveCaption .above).plan table (.single 0 0) {}).batch = .ok () ∧
      ((moveCaption .above).plan table (.single 0 0) {}).batch
        = [⟨⟨14, 23⟩, "\\caption{A}\n\\label{b}".toList⟩, .deletion ⟨59, 71⟩] := by
  have delimited : delimiters splitCaptioning
      = [⟨true, "table".toList, ⟨0, 13⟩⟩, ⟨true, "tabular".toList, ⟨24, 39⟩⟩,
        ⟨false, "tabular".toList, ⟨45, 58⟩⟩, ⟨false, "table".toList, ⟨71, 82⟩⟩] := by
    decide +kernel
  have matched : environments splitCaptioning = [⟨"table".toList, ⟨0, 13⟩, ⟨71, 82⟩⟩,
      ⟨"tabular".toList, ⟨24, 39⟩, ⟨45, 58⟩⟩] :=
    environments_of_enclosed delimited (by decide)
  have isTabular : ⟨"tabular".toList, ⟨24, 39⟩, ⟨45, 58⟩⟩
      ∈ Table.tabulars (environments splitCaptioning) := by
    rw [matched]
    decide +kernel
  have planned : (Table.ofTabular splitCaptioning (environments splitCaptioning)
        ⟨"tabular".toList, ⟨24, 39⟩, ⟨45, 58⟩⟩).map (fun table => (table.caption,
          table.label, ((moveCaption .above).plan table (.single 0 0) {}).batch))
      = .ok (some ⟨59, 70⟩, some ⟨14, 23⟩,
        [⟨⟨14, 23⟩, "\\caption{A}\n\\label{b}".toList⟩, .deletion ⟨59, 71⟩]) := by
    rw [matched]
    decide +kernel
  obtain ⟨table, found, evaluated⟩ := exists_eq_ok_of_map planned
  obtain ⟨captionEq, others⟩ := Prod.mk.inj evaluated
  obtain ⟨labelEq, batchEq⟩ := Prod.mk.inj others
  have nested := Table.labelApartOrWithin_of_eq captionEq labelEq (.inl (by decide))
  obtain ⟨valid, -⟩ := valid_of_captions (moveCaption .above) (.inr ⟨.above, rfl⟩)
    splitCaptioning {}
  exact ⟨_, isTabular, table, found, nested, valid _ isTabular table found nested _, batchEq⟩

end Command

end LatexTabular
