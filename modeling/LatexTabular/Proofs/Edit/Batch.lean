import LatexTabular.Edit
import LatexTabular.Proofs.Text.Boundary

/-!
# Valid batches

A batch whose edits fit the document and lie apart from one another is valid, in
whatever order its edits are planned.  `Batch.Within` collects both conditions
for the edits between two offsets and is built up edit by edit.  Applying such a
batch leaves the text around it as it was (`Batch.Within.apply_eq`).
-/

namespace LatexTabular

namespace Edit

/-- One of two edits ends before or where the other starts. -/
def Apart (first second : Edit) : Prop :=
  first.span.stop ≤ second.span.start ∨ second.span.stop ≤ first.span.start

theorem Apart.symm {first second : Edit} (apart : Apart first second) :
    Apart second first := Or.symm apart

theorem fits_iff {document : Text} {edit : Edit} :
    edit.fits document = true ↔ edit.span.Fits document := by
  constructor
  · intro fits
    simp only [Edit.fits, Bool.and_eq_true, decide_eq_true_eq] at fits
    exact ⟨fits.1.1.1, fits.1.2, fits.2⟩
  · intro fits
    simp [Edit.fits, fits.ordered, fits.stop_le_size, fits.startBoundary,
      fits.stopBoundary]

/-- Edits that come one after the other in the order of the document and lie
apart do not overlap. -/
theorem stop_le_start_of_precedes {document : Text} {first second : Edit}
    (ordered : first.precedes second = true) (fits : second.span.Fits document)
    (apart : Apart first second) : first.span.stop ≤ second.span.start := by
  have secondOrdered := fits.ordered
  simp only [precedes, Bool.or_eq_true, Bool.and_eq_true, decide_eq_true_eq,
    beq_iff_eq] at ordered
  unfold Apart at apart
  omega

theorem precedes_trans (first second third : Edit)
    (left : first.precedes second = true) (right : second.precedes third = true) :
    first.precedes third = true := by
  simp only [precedes, Bool.or_eq_true, Bool.and_eq_true, decide_eq_true_eq,
    beq_iff_eq] at left right ⊢
  omega

theorem precedes_total (first second : Edit) :
    (first.precedes second || second.precedes first) = true := by
  simp only [precedes, Bool.or_eq_true, Bool.and_eq_true, decide_eq_true_eq,
    beq_iff_eq]
  omega

end Edit

namespace Batch

theorem pairwise_sorted (batch : Batch) :
    batch.sorted.Pairwise fun first second => first.precedes second = true :=
  List.pairwise_mergeSort Edit.precedes_trans Edit.precedes_total batch

theorem sorted_perm (batch : Batch) : batch.sorted.Perm batch :=
  List.mergeSort_perm batch Edit.precedes

/-- Edits none of which starts before an earlier one ends show no overlap. -/
theorem overlap?_eq_none {edits : List Edit}
    (ordered : edits.Pairwise fun first second =>
      first.span.stop ≤ second.span.start) : overlap? edits = none := by
  induction edits with
  | nil => rfl
  | cons first rest ih =>
      cases rest with
      | nil => rfl
      | cons second rest =>
          have next := (List.pairwise_cons.mp ordered).1 second List.mem_cons_self
          rw [overlap?, if_neg (by omega)]
          exact ih ordered.of_cons

variable {document : Text} {batch : Batch}

/-- In the order of the document the edits of a batch follow one another. -/
theorem pairwise_sorted_of_apart (fits : ∀ edit ∈ batch, edit.span.Fits document)
    (apart : batch.Pairwise Edit.Apart) :
    batch.sorted.Pairwise fun first second =>
      first.span.stop ≤ second.span.start := by
  have sortedApart : batch.sorted.Pairwise Edit.Apart :=
    (sorted_perm batch).symm.pairwise apart Edit.Apart.symm
  apply ((pairwise_sorted batch).and sortedApart).imp_of_mem
  intro first second _ member related
  exact Edit.stop_le_start_of_precedes related.1
    (fits second ((sorted_perm batch).mem_iff.mp member)) related.2

/-- Edits that fit the document and lie apart make a valid batch. -/
theorem validate_eq_ok (fits : ∀ edit ∈ batch, edit.span.Fits document)
    (apart : batch.Pairwise Edit.Apart) : validate document batch = .ok () := by
  have allFit : batch.sorted.find? (fun edit => !edit.fits document) = none := by
    rw [List.find?_eq_none]
    intro edit member
    have fit := fits edit ((sorted_perm batch).mem_iff.mp member)
    simp [Edit.fits_iff.mpr fit]
  rw [validate, allFit]
  simp only [overlap?_eq_none (pairwise_sorted_of_apart fits apart)]

/-- Copying keeps what stands in front of all edits. -/
theorem splice_append_of_ge (start : Nat) (front back : Text) {edits : List Edit}
    (behind : ∀ edit ∈ edits, start + front.size ≤ edit.span.start)
    (ordered : ∀ edit ∈ edits, edit.span.start ≤ edit.span.stop) :
    splice start (front ++ back) edits
      = front ++ splice (start + front.size) back edits := by
  cases edits with
  | nil => rfl
  | cons edit rest =>
      have begins := behind edit List.mem_cons_self
      have ends := ordered edit List.mem_cons_self
      simp only [splice]
      rw [Text.takeBytes_append_of_le back (by omega),
        Text.dropBytes_append_of_le back (by omega), Nat.sub_sub, Nat.sub_sub]
      simp

/-- Copying keeps what stands behind all edits. -/
theorem splice_append_of_le (start : Nat) (front back : Text) {edits : List Edit}
    (within : ∀ edit ∈ edits, start ≤ edit.span.start
      ∧ edit.span.stop ≤ start + front.size)
    (ordered : ∀ edit ∈ edits, edit.span.start ≤ edit.span.stop)
    (following : edits.Pairwise fun first second =>
      first.span.stop ≤ second.span.start) :
    splice start (front ++ back) edits = splice start front edits ++ back := by
  induction edits generalizing start front with
  | nil => rfl
  | cons edit rest ih =>
      have inFront := within edit List.mem_cons_self
      have begins := ordered edit List.mem_cons_self
      have left := front.size_dropBytes_ge (edit.span.stop - start)
      obtain ⟨next, following⟩ := List.pairwise_cons.mp following
      simp only [splice]
      rw [Text.takeBytes_append_of_ge back (by omega),
        Text.dropBytes_append_of_ge back (by omega), ih]
      · simp
      · intro later member
        have inRest := within later (List.mem_cons_of_mem _ member)
        have behind := next later member
        omega
      · intro later member
        exact ordered later (List.mem_cons_of_mem _ member)
      · exact following

/-- Edits that fit a document, lie apart from one another and stand between two
offsets. -/
structure Within (document : Text) (start stop : Nat) (batch : Batch) : Prop where
  fits : ∀ edit ∈ batch, edit.span.Fits document
  apart : batch.Pairwise Edit.Apart
  bounds : ∀ edit ∈ batch, start ≤ edit.span.start ∧ edit.span.stop ≤ stop

namespace Within

variable {start stop : Nat} {first second : List Edit}

theorem nil : Within document start stop [] := ⟨by simp, .nil, by simp⟩

theorem singleton {edit : Edit} (fits : edit.span.Fits document)
    (begins : start ≤ edit.span.start) (ends : edit.span.stop ≤ stop) :
    Within document start stop [edit] := by
  refine ⟨?_, List.pairwise_singleton .., ?_⟩
  · rintro other (_ | ⟨_, ⟨⟩⟩)
    exact fits
  · rintro other (_ | ⟨_, ⟨⟩⟩)
    exact ⟨begins, ends⟩

theorem toList {planned : Option Edit}
    (each : ∀ edit, planned = some edit → edit.span.Fits document
      ∧ start ≤ edit.span.start ∧ edit.span.stop ≤ stop) :
    Within document start stop planned.toList := by
  cases planned with
  | none => exact nil
  | some edit =>
      obtain ⟨fits, begins, ends⟩ := each edit rfl
      exact singleton fits begins ends

theorem mono {wideStart wideStop : Nat} (within : Within document start stop batch)
    (begins : wideStart ≤ start) (ends : stop ≤ wideStop) :
    Within document wideStart wideStop batch :=
  ⟨within.fits, within.apart, fun edit member =>
    ⟨Nat.le_trans begins (within.bounds edit member).1,
      Nat.le_trans (within.bounds edit member).2 ends⟩⟩

/-- Edits between an offset and itself are insertions there. -/
theorem eq_point {offset : Nat} (within : Within document offset offset batch) {edit : Edit}
    (member : edit ∈ batch) : edit.span = .point offset := by
  obtain ⟨begins, ends⟩ := within.bounds edit member
  have ordered := (within.fits edit member).ordered
  obtain ⟨⟨first, last⟩, text⟩ := edit
  simp only [Span.point, Span.mk.injEq] at begins ends ordered ⊢
  omega

/-- Two batches that lie apart make up one. -/
theorem append (left : Within document start stop first)
    (right : Within document start stop second)
    (between : ∀ edit ∈ first, ∀ other ∈ second, Edit.Apart edit other) :
    Within document start stop (first ++ second) := by
  refine ⟨?_, List.pairwise_append.mpr ⟨left.apart, right.apart, between⟩, ?_⟩
  · intro edit member
    rcases List.mem_append.mp member with inLeft | inRight
    · exact left.fits edit inLeft
    · exact right.fits edit inRight
  · intro edit member
    rcases List.mem_append.mp member with inLeft | inRight
    · exact left.bounds edit inLeft
    · exact right.bounds edit inRight

/-- Two batches make up one when the first stands in front of the second. -/
theorem append_of_le {middle next : Nat} (left : Within document start middle first)
    (right : Within document next stop second) (ordered : middle ≤ next)
    (begins : start ≤ next) (ends : middle ≤ stop) :
    Within document start stop (first ++ second) := by
  refine append (left.mono (Nat.le_refl _) ends) (right.mono begins (Nat.le_refl _)) ?_
  intro edit member other otherMember
  have inLeft := left.bounds edit member
  have inRight := right.bounds other otherMember
  exact Or.inl (by omega)

/-- Two batches make up one when the first stands behind the second. -/
theorem append_of_ge {middle next : Nat} (left : Within document next stop first)
    (right : Within document start middle second) (ordered : middle ≤ next)
    (begins : start ≤ next) (ends : middle ≤ stop) :
    Within document start stop (first ++ second) := by
  refine append (left.mono begins (Nat.le_refl _)) (right.mono (Nat.le_refl _) ends) ?_
  intro edit member other otherMember
  have inLeft := left.bounds edit member
  have inRight := right.bounds other otherMember
  exact Or.inr (by omega)

/-- The batches of items that follow one another make up one. -/
theorem flatMap {α : Type} {items : List α} {place : α → Span} {edits : α → List Edit}
    (ordered : items.Pairwise fun item other => (place item).stop ≤ (place other).start)
    (bounds : ∀ item ∈ items, start ≤ (place item).start ∧ (place item).stop ≤ stop)
    (each : ∀ item ∈ items,
      Within document (place item).start (place item).stop (edits item)) :
    Within document start stop (items.flatMap edits) := by
  induction items with
  | nil => exact nil
  | cons item rest ih =>
      obtain ⟨behind, ordered⟩ := List.pairwise_cons.mp ordered
      have inItem := bounds item List.mem_cons_self
      have others := ih ordered
        (fun other member => bounds other (List.mem_cons_of_mem _ member))
        (fun other member => each other (List.mem_cons_of_mem _ member))
      refine append ((each item List.mem_cons_self).mono inItem.1 inItem.2) others ?_
      intro edit member other otherMember
      obtain ⟨later, inRest, isEdit⟩ := List.mem_flatMap.mp otherMember
      have before := (each item List.mem_cons_self).bounds edit member
      have after := (each later (List.mem_cons_of_mem _ inRest)).bounds other isEdit
      have next := behind later inRest
      exact Or.inl (by omega)

end Within

/-- One edit puts its text in the place of the part that it covers. -/
theorem apply_singleton (front removed back replacement : Text) :
    apply (front ++ removed ++ back) [⟨⟨front.size, (front ++ removed).size⟩, replacement⟩]
      = .ok (front ++ replacement ++ back) := by
  have fits : Span.Fits (front ++ removed ++ back) ⟨front.size, (front ++ removed).size⟩ := by
    have spells := Text.Spells.of_append front removed back
    rw [← Text.size_append] at spells
    exact spells.fits
  have valid : validate (front ++ removed ++ back)
      [⟨⟨front.size, (front ++ removed).size⟩, replacement⟩] = .ok () := by
    refine validate_eq_ok ?_ (List.pairwise_singleton _ _)
    intro edit member
    rw [List.mem_singleton.mp member]
    exact fits
  have taken : Text.takeBytes (front ++ removed ++ back) front.size = front := by
    rw [List.append_assoc, Text.takeBytes_size_append]
  have dropped := Text.dropBytes_size_append (front ++ removed) back
  rw [apply, valid, sorted, List.mergeSort_singleton]
  simp only [splice, Nat.sub_zero, taken, dropped]
  rfl

/-- A valid batch whose edits lie between two parts of a document keeps both. -/
theorem Within.apply_eq {front inside back : Text} {batch : Batch}
    (within : Within (front ++ inside ++ back) front.size (front.size + inside.size) batch) :
    ∃ changed, apply (front ++ inside ++ back) batch
      = .ok (front ++ changed ++ back) := by
  have ordered : ∀ edit ∈ batch.sorted, edit.span.start ≤ edit.span.stop := by
    intro edit member
    exact (within.fits edit ((sorted_perm batch).mem_iff.mp member)).ordered
  have inSpan : ∀ edit ∈ batch.sorted, front.size ≤ edit.span.start
      ∧ edit.span.stop ≤ front.size + inside.size := by
    intro edit member
    exact within.bounds edit ((sorted_perm batch).mem_iff.mp member)
  refine ⟨splice front.size inside batch.sorted, ?_⟩
  have copied : splice 0 (front ++ inside ++ back) batch.sorted
      = front ++ splice front.size inside batch.sorted ++ back := by
    rw [List.append_assoc, splice_append_of_ge 0 front, splice_append_of_le,
      List.append_assoc, Nat.zero_add]
    · intro edit member
      simpa using inSpan edit member
    · exact ordered
    · exact pairwise_sorted_of_apart within.fits within.apart
    · intro edit member
      simpa using (inSpan edit member).1
    · exact ordered
  rw [apply, validate_eq_ok within.fits within.apart, ← copied]
  rfl

end Batch

end LatexTabular
