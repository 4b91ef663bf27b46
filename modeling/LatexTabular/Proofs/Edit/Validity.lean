import LatexTabular.Proofs.Edit.Batch
import Mathlib

/-!
# What a batch does

A batch is valid exactly when all its edits fit the document and any two of them lie apart,
although only neighbours in the order of the document are compared
(`Batch.validate_eq_ok_iff`).  Applying a valid batch in one pass does what its edits do
one at a time, each a single replacement, from the end of the document to its front
(`Batch.splice_eq_foldr_perform`).
-/

namespace LatexTabular

namespace Edit

/-- What a single replacement makes of a document. -/
def perform (document : Text) (edit : Edit) : Text :=
  document.takeBytes edit.span.start ++ edit.replacement
    ++ document.dropBytes edit.span.stop

/-- A replacement in the front part of a document leaves the rest. -/
theorem perform_append {front : Text} (back : Text) {edit : Edit}
    (ordered : edit.span.start ≤ edit.span.stop) (within : edit.span.stop ≤ front.size) :
    perform (front ++ back) edit = perform front edit ++ back := by
  unfold perform
  rw [Text.takeBytes_append_of_ge back (Nat.le_trans ordered within),
    Text.dropBytes_append_of_ge back within, List.append_assoc _ _ back]

end Edit

namespace Batch

variable {document : Text} {batch : Batch} {edits : List Edit}

/-- Edits of which no neighbours overlap follow one another. -/
theorem pairwise_of_overlap? (none : overlap? edits = none)
    (ordered : ∀ edit ∈ edits, edit.span.start ≤ edit.span.stop) :
    edits.Pairwise fun first second => first.span.stop ≤ second.span.start := by
  induction edits with
  | nil => exact .nil
  | cons first rest ih =>
      cases rest with
      | nil => exact List.pairwise_singleton _ _
      | cons second others =>
          simp only [overlap?] at none
          split_ifs at none with overlaps
          have following := ih none fun edit member => ordered edit (List.mem_cons_of_mem _ member)
          refine List.pairwise_cons.mpr ⟨fun edit member => ?_, following⟩
          have secondOrdered := ordered second (by simp)
          rcases List.mem_cons.mp member with rfl | member
          · omega
          · have behind := (List.pairwise_cons.mp following).1 edit member
            omega

/-- A reported overlap is one of two neighbours. -/
theorem isInfix_of_overlap? {first second : Edit} (found : overlap? edits = some (first, second)) :
    [first, second] <:+: edits ∧ second.span.start < first.span.stop := by
  fun_induction overlap? edits with
  | case1 head next rest overlaps =>
      obtain ⟨rfl, rfl⟩ := Prod.mk.inj (Option.some.inj found)
      exact ⟨⟨[], rest, rfl⟩, overlaps⟩
  | case2 head next rest _ ih =>
      obtain ⟨isPart, overlaps⟩ := ih found
      exact ⟨isPart.trans (List.suffix_cons head _).isInfix, overlaps⟩
  | case3 => simp at found

/-- Why a batch is refused: for an edit that does not fit, or else for two edits that do not
lie apart. -/
theorem exists_of_validate_eq_error {error : EditError}
    (refused : validate document batch = .error error) :
    (∃ edit ∈ batch, ¬ edit.span.Fits document ∧
      error = .invalidSpan edit.span document.size) ∨
    ((∀ edit ∈ batch, edit.span.Fits document) ∧
      ∃ first second, [first, second] <:+: batch.sorted ∧ ¬ Edit.Apart first second ∧
        error = .overlap first.span second.span) := by
  unfold validate at refused
  split at refused
  next edit found =>
    refine .inl ⟨edit, (sorted_perm batch).mem_iff.mp (List.mem_of_find?_eq_some found), ?_,
      (Except.error.inj refused).symm⟩
    intro fits
    have fails := List.find?_some found
    simp [Edit.fits_iff.mpr fits] at fails
  next allFit =>
    have fits : ∀ edit ∈ batch, edit.span.Fits document := by
      intro edit member
      have fits := List.find?_eq_none.mp allFit edit ((sorted_perm batch).mem_iff.mpr member)
      exact Edit.fits_iff.mp (by simpa using fits)
    split at refused
    next first second found =>
      obtain ⟨isPart, overlaps⟩ := isInfix_of_overlap? found
      have members := isPart.subset
      have inOrder : first.precedes second = true := by
        have pair := (pairwise_sorted batch).sublist isPart.sublist
        exact (List.pairwise_cons.mp pair).1 second (by simp)
      have secondFits := fits second ((sorted_perm batch).mem_iff.mp (members (by simp)))
      refine .inr ⟨fits, first, second, isPart, ?_, (Except.error.inj refused).symm⟩
      intro apart
      have := Edit.stop_le_start_of_precedes inOrder secondFits apart
      omega
    next => simp at refused

/-- A batch is valid exactly when its edits fit the document and any two lie apart. -/
theorem validate_eq_ok_iff : validate document batch = .ok () ↔
    (∀ edit ∈ batch, edit.span.Fits document) ∧ batch.Pairwise Edit.Apart := by
  refine ⟨fun valid => ?_, fun ⟨fits, apart⟩ => validate_eq_ok fits apart⟩
  unfold validate at valid
  split at valid
  · simp at valid
  next allFit =>
    split at valid
    · simp at valid
    next none =>
      have fits : ∀ edit ∈ batch.sorted, edit.span.Fits document := by
        intro edit member
        have fits := List.find?_eq_none.mp allFit edit member
        exact Edit.fits_iff.mp (by simpa using fits)
      have following := pairwise_of_overlap? none fun edit member => (fits edit member).ordered
      exact ⟨fun edit member => fits edit ((sorted_perm batch).mem_iff.mpr member),
        (sorted_perm batch).pairwise (following.imp Or.inl) Edit.Apart.symm⟩

/-- The edits of a valid batch lie in the document, one behind the other. -/
theorem pairwise_of_validate (valid : validate document batch = .ok ()) :
    (∀ edit ∈ batch.sorted, edit.span.Fits document) ∧
      batch.sorted.Pairwise fun first second => first.span.stop ≤ second.span.start := by
  obtain ⟨fits, apart⟩ := validate_eq_ok_iff.mp valid
  exact ⟨fun edit member => fits edit ((sorted_perm batch).mem_iff.mp member),
    pairwise_sorted_of_apart fits apart⟩

/-- The number of bytes that edits remove. -/
def removed (edits : List Edit) : Nat := (edits.map fun edit => edit.span.length).sum

/-- The number of bytes that edits write. -/
def written (edits : List Edit) : Nat := (edits.map fun edit => edit.replacement.size).sum

/-- Edits that follow one another between two offsets remove no more than stands there. -/
theorem add_removed_le {start stop : Nat} (nonempty : start ≤ stop)
    (bounds : ∀ edit ∈ edits, start ≤ edit.span.start ∧ edit.span.start ≤ edit.span.stop ∧
      edit.span.stop ≤ stop)
    (following : edits.Pairwise fun first second => first.span.stop ≤ second.span.start) :
    start + removed edits ≤ stop := by
  induction edits generalizing start with
  | nil => simpa [removed] using nonempty
  | cons edit rest ih =>
      obtain ⟨behind, following⟩ := List.pairwise_cons.mp following
      obtain ⟨begins, ordered, ends⟩ := bounds edit List.mem_cons_self
      have others := ih ends (fun other member =>
        ⟨behind other member, (bounds other (List.mem_cons_of_mem _ member)).2⟩) following
      have total : removed (edit :: rest) = edit.span.length + removed rest := List.sum_cons
      have length : edit.span.length = edit.span.stop - edit.span.start := rfl
      omega

section Splice

variable {edit : Edit} {rest : List Edit}

/-- Behind its first edit a copy is the copy with the other edits alone. -/
theorem splice_zero_cons (fits : ∀ other ∈ edit :: rest, other.span.Fits document)
    (behind : ∀ other ∈ rest, edit.span.stop ≤ other.span.start) :
    ∃ front back : Text, splice 0 document rest = front ++ back ∧
      front = document.takeBytes edit.span.stop ∧ front.size = edit.span.stop ∧
      splice 0 document (edit :: rest)
        = document.takeBytes edit.span.start ++ edit.replacement ++ back := by
  have stopSize : (document.takeBytes edit.span.stop).size = edit.span.stop := by
    simpa [Text.isBoundary] using (fits edit List.mem_cons_self).stopBoundary
  refine ⟨_, splice edit.span.stop (document.dropBytes edit.span.stop) rest, ?_, rfl, stopSize,
    by simp [splice]⟩
  have kept := splice_append_of_ge 0 (document.takeBytes edit.span.stop)
    (document.dropBytes edit.span.stop)
    (fun other member => by simpa [stopSize] using behind other member)
    (fun other member => (fits other (List.mem_cons_of_mem _ member)).ordered)
  rwa [Text.takeBytes_append_dropBytes, stopSize, Nat.zero_add] at kept

/-- Copying with edits in the order of the document is performing them one at a time, the
last one first. -/
theorem splice_eq_foldr_perform (fits : ∀ edit ∈ edits, edit.span.Fits document)
    (following : edits.Pairwise fun first second => first.span.stop ≤ second.span.start) :
    splice 0 document edits
      = edits.foldr (fun edit text => Edit.perform text edit) document := by
  induction edits with
  | nil => rfl
  | cons edit rest ih =>
      obtain ⟨behind, following⟩ := List.pairwise_cons.mp following
      have ordered := (fits edit List.mem_cons_self).ordered
      obtain ⟨front, back, copied, frontEq, frontSize, spliced⟩ := splice_zero_cons fits behind
      have others := ih (fun other member => fits other (List.mem_cons_of_mem _ member)) following
      have startEq : front.takeBytes edit.span.start = document.takeBytes edit.span.start := by
        conv => rhs; rw [← document.takeBytes_append_dropBytes edit.span.stop]
        rw [← frontEq, Text.takeBytes_append_of_ge _ (by omega)]
      have stopEq : front.dropBytes edit.span.stop = [] := by
        rw [← frontSize]
        simpa using Text.dropBytes_size_append front []
      rw [List.foldr_cons, ← others, copied, spliced,
        Edit.perform_append back ordered (Nat.le_of_eq frontSize.symm), Edit.perform, startEq,
        stopEq, List.append_nil]

/-- What a copy is longer by is what its edits write more than they remove. -/
theorem size_splice_add (fits : ∀ edit ∈ edits, edit.span.Fits document)
    (following : edits.Pairwise fun first second => first.span.stop ≤ second.span.start) :
    (splice 0 document edits).size + removed edits = document.size + written edits := by
  induction edits with
  | nil => rfl
  | cons edit rest ih =>
      obtain ⟨behind, following⟩ := List.pairwise_cons.mp following
      have fit := fits edit List.mem_cons_self
      have ordered := fit.ordered
      obtain ⟨front, back, copied, -, frontSize, spliced⟩ := splice_zero_cons fits behind
      have others := ih (fun other member => fits other (List.mem_cons_of_mem _ member)) following
      have startSize : (document.takeBytes edit.span.start).size = edit.span.start := by
        simpa [Text.isBoundary] using fit.startBoundary
      have removes : removed (edit :: rest) = edit.span.length + removed rest := List.sum_cons
      have writes : written (edit :: rest) = edit.replacement.size + written rest := List.sum_cons
      have length : edit.span.length = edit.span.stop - edit.span.start := rfl
      rw [copied] at others
      rw [spliced]
      simp only [Text.size_append] at others ⊢
      omega

end Splice

/-- Applying a batch checks it first. -/
theorem apply_eq_of_validate {outcome : Except EditError Unit}
    (checked : validate document batch = outcome) :
    apply document batch = outcome.map fun _ => splice 0 document batch.sorted := by
  subst checked
  unfold apply
  cases validate document batch <;> rfl

/-- A batch is valid exactly when each of its edits lies in the document between characters
and any two of them lie apart.  Applying a valid batch performs its edits one at a time, from
the right end of the document to the left, and changes the length by what they remove and
write; applying any other batch fails as its validation does, with an edit that does not fit
before any overlap. -/
theorem validate_iff_and_apply_eq (document : Text) (batch : Batch) :
    (validate document batch = .ok () ↔
      (∀ edit ∈ batch, edit.span.start ≤ edit.span.stop ∧ edit.span.stop ≤ document.size ∧
        document.isBoundary edit.span.start = true ∧
        document.isBoundary edit.span.stop = true) ∧
      batch.Pairwise fun first second =>
        first.span.stop ≤ second.span.start ∨ second.span.stop ≤ first.span.start) ∧
    (validate document batch = .ok () →
      apply document batch = .ok (batch.sorted.reverse.foldl Edit.perform document) ∧
      removed batch ≤ document.size ∧
      (batch.sorted.reverse.foldl Edit.perform document).size
        = document.size - removed batch + written batch) ∧
    (∀ error, validate document batch = .error error → apply document batch = .error error) ∧
    ((∃ edit ∈ batch, ¬ edit.span.Fits document) →
      ∃ edit ∈ batch, ¬ edit.span.Fits document ∧
        validate document batch = .error (.invalidSpan edit.span document.size)) := by
  refine ⟨?_, fun valid => ?_, fun error refused => ?_, fun ⟨edit, member, misfit⟩ => ?_⟩
  · rw [validate_eq_ok_iff]
    refine and_congr_left fun _ => forall₂_congr fun edit _ => ⟨fun fits => ?_, fun fits => ?_⟩
    · exact ⟨fits.ordered, fits.stop_le_size, fits.startBoundary, fits.stopBoundary⟩
    · exact ⟨fits.1, fits.2.2.1, fits.2.2.2⟩
  · obtain ⟨fits, following⟩ := pairwise_of_validate valid
    have performed := splice_eq_foldr_perform fits following
    rw [← List.foldl_reverse] at performed
    have bounded := add_removed_le (Nat.zero_le document.size)
      (fun edit member => ⟨Nat.zero_le _, (fits edit member).ordered,
        (fits edit member).stop_le_size⟩) following
    have sizes := size_splice_add fits following
    have removedEq : removed batch.sorted = removed batch := ((sorted_perm batch).map _).sum_nat
    have writtenEq : written batch.sorted = written batch := ((sorted_perm batch).map _).sum_nat
    rw [removedEq] at bounded sizes
    rw [writtenEq, performed] at sizes
    refine ⟨?_, by omega, by omega⟩
    rw [apply_eq_of_validate valid, performed]
    rfl
  · rw [apply_eq_of_validate refused]
    rfl
  · cases checked : validate document batch with
    | ok => exact absurd ((validate_eq_ok_iff.mp checked).1 edit member) misfit
    | error error =>
        rcases exists_of_validate_eq_error checked with ⟨other, inBatch, fails, rfl⟩ | ⟨fits, -⟩
        · exact ⟨other, inBatch, fails, rfl⟩
        · exact absurd (fits edit member) misfit

/-- A replacement and, in front of it, an insertion at the start of a deletion, and a batch
in which an edit splits a character and overlaps another one. -/
theorem validate_iff_and_apply_eq_unsorted :
    apply "aéb".toList [⟨⟨3, 4⟩, "cd".toList⟩, .deletion ⟨1, 3⟩, .insertion 1 "x".toList]
        = .ok "axcd".toList ∧
      apply "aéb".toList [.deletion ⟨0, 2⟩, .deletion ⟨0, 1⟩]
        = .error (.invalidSpan ⟨0, 2⟩ 4) := by
  obtain ⟨-, applied, -, -⟩ := validate_iff_and_apply_eq "aéb".toList
    [⟨⟨3, 4⟩, "cd".toList⟩, .deletion ⟨1, 3⟩, .insertion 1 "x".toList]
  obtain ⟨-, -, refused, -⟩ := validate_iff_and_apply_eq "aéb".toList
    [.deletion ⟨0, 2⟩, .deletion ⟨0, 1⟩]
  have sortedEq : Batch.sorted [⟨⟨3, 4⟩, "cd".toList⟩, .deletion ⟨1, 3⟩, .insertion 1 "x".toList]
      = [.insertion 1 "x".toList, .deletion ⟨1, 3⟩, ⟨⟨3, 4⟩, "cd".toList⟩] := by
    simp [Batch.sorted, List.mergeSort, List.MergeSort.Internal.splitInTwo, Edit.precedes,
      Edit.deletion, Edit.insertion, Span.point]
  refine ⟨(applied (by cbv)).1.trans ?_, refused _ (by cbv)⟩
  rw [sortedEq]
  decide +kernel

end Batch

end LatexTabular
