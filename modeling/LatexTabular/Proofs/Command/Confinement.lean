import LatexTabular.Command.Apply
import LatexTabular.Proofs.Command.Growth
import LatexTabular.Proofs.Command.Removal
import LatexTabular.Proofs.Command.Spanning
import LatexTabular.Proofs.Command.Style
import Mathlib

/-!
# Edits stay within their table

A command other than those for captions edits nothing but its tabular, strictly
between the delimiters, and its edits never overlap.  Its batch is therefore
valid for every document, table and selection, and what stands around the
tabular stays as it is.
-/

namespace LatexTabular

open Markup

/-- Whether an error is about the edits of a batch, rather than about the text of
a table or a selection. -/
def EditError.concernsEdits : EditError → Bool
  | invalidSpan .. | overlap .. => true
  | _ => false

/-- A specifier that cannot be read is no error of an edit. -/
theorem Declaration.concernsEdits_of_read {offset : Nat} {text : Text} {error : EditError}
    (failed : read offset text = .error error) : error.concernsEdits = false := by
  have specifier {offset : Nat} {text : Text}
      (failed : readSpecifier offset text = .error error) : error.concernsEdits = false := by
    simp only [readSpecifier] at failed
    split at failed
    · split at failed
      · simp at failed
      · rw [← Except.error.inj failed]
        rfl
    · rw [← Except.error.inj failed]
      rfl
  simp only [read] at failed
  split at failed
  · split at failed
    · exact specifier failed
    · rw [← Except.error.inj failed]
      rfl
  · exact specifier failed

theorem Table.concernsEdits_of_readAt {document : Text} {offset : Nat} {error : EditError}
    (failed : readAt document offset = .error error) : error.concernsEdits = false := by
  simp only [readAt] at failed
  split at failed
  next tabular _ =>
    simp only [ofTabular] at failed
    cases readEq : Declaration.read tabular.interior.start
        (document.slice tabular.interior) with
    | error cause =>
        simp only [readEq, bind, Except.bind, Except.error.injEq] at failed
        rw [← failed]
        exact Declaration.concernsEdits_of_read readEq
    | ok declaration => simp [readEq, bind, Except.bind, pure, Except.pure] at failed
  next =>
    rw [← Except.error.inj failed]
    rfl

theorem Selection.concernsEdits_of_validate {selection : Selection} {table : Table}
    {error : EditError} (failed : selection.validate table = .error error) :
    error.concernsEdits = false := by
  simp only [validate] at failed
  split at failed
  · rw [← Except.error.inj failed]
    rfl
  split at failed
  · rw [← Except.error.inj failed]
    rfl
  · simp at failed

namespace Command

variable {command : Command}

/-- The edits of a command stand between the column specifier and the end of the
body, whatever is selected. -/
theorem within_plan {table : Table} {bodyStart bodyStop : Nat}
    (laidOut : table.LaidOut bodyStart bodyStop) (staysPut : ∀ side, command ≠ .moveCaption side)
    (keeps : command ≠ .removeCaption) (selection : Selection) (options : Options) :
    Batch.Within table.document table.specifierSpan.start bodyStop
      (command.plan table selection options).batch := by
  cases command with
  | setBorders theme => exact Plan.within_setBorders laidOut theme options
  | setAlignment alignment => exact Plan.within_setAlignment laidOut selection alignment
  | insertRow below => exact Plan.within_insertRow laidOut selection below options
  | insertColumn after => exact Plan.within_insertColumn laidOut selection after options
  | removeRowsOrColumns => exact Plan.within_removeRowsOrColumns laidOut selection options
  | mergeCells => exact Plan.within_mergeCells laidOut selection options
  | unmergeCells => exact Plan.within_unmergeCells laidOut selection options
  | moveCaption side => exact absurd rfl (staysPut side)
  | removeCaption => exact absurd rfl keeps

/-- A batch that stands within a table is applied, and keeps what stands around
the tabular. -/
theorem apply_batch_eq {table : Table} {bodyStart bodyStop : Nat} {batch : Batch}
    (laidOut : table.LaidOut bodyStart bodyStop)
    (within : Batch.Within table.document table.specifierSpan.start bodyStop batch) :
    ∃ front inside back changed, table.document = front ++ inside ++ back ∧
      table.span = ⟨front.size, front.size + inside.size⟩ ∧
      batch.apply table.document = .ok (front ++ changed ++ back) := by
  obtain ⟨inside, front, back, documentEq, spanEq⟩ := laidOut.tabular
  have begins := laidOut.start_lt_specifier
  have ends := laidOut.body_lt_stop
  rw [documentEq] at within
  rw [spanEq] at begins ends
  have inTabular := within.mono (Nat.le_of_lt begins) (Nat.le_of_lt ends)
  obtain ⟨changed, applied⟩ := inTabular.apply_eq
  exact ⟨front, inside, back, changed, documentEq, spanEq, documentEq ▸ applied⟩

/-- Applying a command fails for the text of the table or for the selection, never
for its edits. -/
theorem concernsEdits_of_apply (staysPut : ∀ side, command ≠ .moveCaption side)
    (keeps : command ≠ .removeCaption) {document : Text} {offset : Nat}
    {selection : Option Selection} {options : Options} {error : EditError}
    (failed : command.apply document offset selection options = .error error) :
    error.concernsEdits = false := by
  simp only [apply] at failed
  cases readEq : Table.readAt document offset with
  | error cause =>
      simp only [readEq, bind, Except.bind, Except.error.injEq] at failed
      rw [← failed]
      exact Table.concernsEdits_of_readAt readEq
  | ok table =>
      obtain ⟨tabular, isTabular, found⟩ := Table.exists_tabular_of_readAt readEq
      obtain ⟨documentEq, -, bodyStart, bodyStop, laidOut⟩ :=
        Table.exists_laidOut_of_ofTabular (List.mem_filter.mp isTabular).1 found
      obtain ⟨front, -, back, changed, -, -, applied⟩ := apply_batch_eq laidOut
        (within_plan laidOut staysPut keeps (selection.getD (.single 0 0)) options)
      rw [documentEq] at applied
      simp only [readEq, applied, bind, Except.bind] at failed
      split at failed
      · cases checked : (selection.getD (.single 0 0)).validate table with
        | error cause =>
            simp only [checked, Except.error.injEq] at failed
            rw [← failed]
            exact Selection.concernsEdits_of_validate checked
        | ok => simp [checked, pure, Except.pure] at failed
      · simp [pure, Except.pure] at failed

/-- Every command but those for captions yields a valid batch for every tabular
that can be read and every selection, valid or not.  Its edits lie strictly
within the tabular, so that the text around it stays, and applying the command
fails at most for the text of the table or for the selection. -/
theorem confined (command : Command) (staysPut : ∀ side, command ≠ .moveCaption side)
    (keeps : command ≠ .removeCaption) (document : Text) (options : Options) :
    (∀ tabular ∈ Table.tabulars (environments document), ∀ table,
      Table.ofTabular document (environments document) tabular = .ok table →
      ∀ selection : Selection,
        let batch := (command.plan table selection options).batch
        Batch.validate document batch = .ok () ∧
        (∀ edit ∈ batch, edit.span.Fits document) ∧ batch.Pairwise Edit.Apart ∧
        (∀ edit ∈ batch, tabular.span.start < edit.span.start
          ∧ edit.span.stop < tabular.span.stop) ∧
        ∃ front inside back changed, document = front ++ inside ++ back ∧
          tabular.span = ⟨front.size, front.size + inside.size⟩ ∧
          batch.apply document = .ok (front ++ changed ++ back)) ∧
    ∀ offset (selection : Option Selection),
      (∀ span size, command.apply document offset selection options
        ≠ .error (.invalidSpan span size)) ∧
      ∀ first second, command.apply document offset selection options
        ≠ .error (.overlap first second) := by
  constructor
  · intro tabular isTabular table found selection
    obtain ⟨documentEq, tabularEq, bodyStart, bodyStop, laidOut⟩ :=
      Table.exists_laidOut_of_ofTabular (List.mem_filter.mp isTabular).1 found
    have within := within_plan laidOut staysPut keeps selection options
    have begins := laidOut.start_lt_specifier
    have ends := laidOut.body_lt_stop
    rw [tabularEq] at begins ends
    have kept := apply_batch_eq laidOut within
    rw [documentEq] at within kept
    rw [tabularEq] at kept
    refine ⟨Batch.validate_eq_ok within.fits within.apart, within.fits, within.apart, ?_, kept⟩
    intro edit member
    have bounds := within.bounds edit member
    omega
  · intro offset selection
    constructor
    · intro span size failed
      simpa [EditError.concernsEdits] using concernsEdits_of_apply staysPut keeps failed
    · intro first second failed
      simpa [EditError.concernsEdits] using concernsEdits_of_apply staysPut keeps failed

/-- A table with a rule, a merged cell and an open last row. -/
def mixedTable : Text :=
  "x\\begin{tabular}{lcr}\\hline a&\\multicolumn{2}{l}{b}\\\\c\\end{tabular}y".toList

/-- The last column goes from a merged cell and from a row that is too short to
have it. -/
theorem confined_mixedTable :
    ∃ tabular ∈ Table.tabulars (environments mixedTable), ∃ table,
      Table.ofTabular mixedTable (environments mixedTable) tabular = .ok table ∧
      Batch.validate mixedTable
        (removeRowsOrColumns.plan table ⟨⟨0, 2⟩, ⟨1, 2⟩⟩ {}).batch = .ok () ∧
      ∃ front inside back changed, mixedTable = front ++ inside ++ back ∧
        (removeRowsOrColumns.plan table ⟨⟨0, 2⟩, ⟨1, 2⟩⟩ {}).batch.apply mixedTable
          = .ok (front ++ changed ++ back) := by
  have isTabular : ⟨"tabular".toList, ⟨1, 16⟩, ⟨54, 67⟩⟩
      ∈ Table.tabulars (environments mixedTable) := by
    have all : Table.tabulars (environments mixedTable)
        = [⟨"tabular".toList, ⟨1, 16⟩, ⟨54, 67⟩⟩] := by decide +kernel
    rw [all]
    exact List.mem_singleton_self _
  obtain ⟨table, found⟩ : ∃ table, Table.ofTabular mixedTable (environments mixedTable)
      ⟨"tabular".toList, ⟨1, 16⟩, ⟨54, 67⟩⟩ = .ok table := by
    have parses : (Table.ofTabular mixedTable (environments mixedTable)
        ⟨"tabular".toList, ⟨1, 16⟩, ⟨54, 67⟩⟩).toBool = true := by decide +kernel
    cases found : Table.ofTabular mixedTable (environments mixedTable)
        ⟨"tabular".toList, ⟨1, 16⟩, ⟨54, 67⟩⟩ with
    | ok table => exact ⟨table, rfl⟩
    | error _ =>
        rw [found] at parses
        exact absurd parses Bool.noConfusion
  obtain ⟨valid, -, -, -, front, inside, back, changed, documentEq, -, applied⟩ :=
    (confined removeRowsOrColumns (fun _ => nofun) nofun mixedTable {}).1 _ isTabular table
      found ⟨⟨0, 2⟩, ⟨1, 2⟩⟩
  exact ⟨_, isTabular, table, found, valid, front, inside, back, changed, documentEq, applied⟩

end Command

end LatexTabular
