import LatexTabular.Proofs.Edit.Rearrangement
import LatexTabular.Proofs.Text.Covered

/-!
# What edits leave of a document

Spans are cut out of a document by leaving out the characters that they cover (`Text.without`).
Deletions leave what is left without their spans (`Batch.ink_splice`), and one edit among them
that writes a text puts it at one place of that (`Batch.exists_ink_apply`).  Only ink is
compared here, so a deletion may take blank characters along (`Text.CoverSameInk`).
-/

namespace LatexTabular

namespace Text

variable {offset : Nat} {text document : Text} {spans others : List Span}

/-- A document without the characters that spans cover. -/
def without (spans : List Span) (document : Text) : Text :=
  ((places 0 document).filter fun place => !spans.any (·.covers place.1)).map (·.2)

theorem ink_without (spans : List Span) (document : Text) :
    ink (without spans document)
      = inkWhere (fun other => !spans.any (·.covers other)) 0 document := by
  rw [ink, without, List.filter_map, List.filter_filter, inkWhere]
  congr 2
  exact funext fun place => Bool.and_comm _ _

theorem mem_of_mem_places {place : Nat × Char} (member : place ∈ places offset text) :
    place.2 ∈ text := by
  induction text generalizing offset with
  | nil => exact absurd member List.not_mem_nil
  | cons head rest ih =>
      rcases List.mem_cons.mp member with rfl | inRest
      · exact List.mem_cons_self
      · exact List.mem_cons_of_mem _ (ih inRest)

theorem isBlank_of_mem_places {place : Nat × Char} (blank : allBlank text = true)
    (member : place ∈ places offset text) : isBlank place.2 = true :=
  List.all_eq_true.mp blank _ (mem_of_mem_places member)

/-- Whether spans cover the same ink of a document as others. -/
def CoverSameInk (document : Text) (spans others : List Span) : Prop :=
  ∀ place ∈ places 0 document, isBlank place.2 = false →
    spans.any (·.covers place.1) = others.any (·.covers place.1)

theorem CoverSameInk.ink_without_eq (same : CoverSameInk document spans others) :
    ink (without spans document) = ink (without others document) := by
  rw [ink_without, ink_without]
  unfold inkWhere
  congr 1
  refine List.filter_congr fun place member => ?_
  cases blank : isBlank place.2 with
  | true => simp
  | false => simp only [same place member blank]

/-- A span that adds blank characters around a text covers the same ink. -/
theorem covers_eq_of_spells {lead trail : Text} {wide : Span}
    (spells : document.Spells wide (lead ++ text ++ trail)) (blankLead : allBlank lead = true)
    (blankTrail : allBlank trail = true) {place : Nat × Char} (member : place ∈ places 0 document)
    (inked : isBlank place.2 = false) :
    wide.covers place.1
      = Span.covers ⟨wide.start + lead.size, wide.start + lead.size + text.size⟩ place.1 := by
  obtain ⟨before, after, rfl, rfl⟩ := spells
  have notBlank {offset : Nat} {part : Text} (blank : allBlank part = true)
      (member : place ∈ places offset part) : False := by
    have := isBlank_of_mem_places blank member
    rw [inked] at this
    exact Bool.noConfusion this
  simp only [places_append, List.mem_append, Nat.zero_add, size_append] at member
  rcases member with (inBefore | (inLead | inText) | inTrail) | inAfter
  · have bounds := bounds_of_mem_places inBefore
    rw [Bool.eq_iff_iff]
    simp only [Span.covers, size_append, Bool.and_eq_true, decide_eq_true_eq]
    omega
  · exact (notBlank blankLead inLead).elim
  · have bounds := bounds_of_mem_places inText
    rw [Bool.eq_iff_iff]
    simp only [Span.covers, size_append, Bool.and_eq_true, decide_eq_true_eq]
    omega
  · exact (notBlank blankTrail inTrail).elim
  · have bounds := bounds_of_mem_places inAfter
    rw [Bool.eq_iff_iff]
    simp only [Span.covers, size_append, Bool.and_eq_true, decide_eq_true_eq]
    omega

/-- A span that is widened to its line covers the same ink. -/
theorem covers_wholeLine {span : Span} (fits : span.Fits document) {place : Nat × Char}
    (member : place ∈ places 0 document) (inked : isBlank place.2 = false) :
    (document.wholeLine span).covers place.1 = span.covers place.1 := by
  obtain ⟨lead, trail, blankLead, blankTrail, spells, startEq⟩ := exists_spells_wholeLine fits
  have stopEq := fits.spells_slice.stop_eq
  rw [covers_eq_of_spells spells blankLead blankTrail member inked, ← startEq, ← stopEq]

theorem coverSameInk_wholeLine (fits : ∀ span ∈ spans, span.Fits document) :
    CoverSameInk document (spans.map document.wholeLine) spans := by
  intro place member inked
  rw [List.any_map, Bool.eq_iff_iff, List.any_eq_true, List.any_eq_true]
  exact exists_congr fun span => and_congr_right fun isSpan => by
    rw [Function.comp_apply, covers_wholeLine (fits span isSpan) member inked]

end Text

namespace Batch

variable {document : Text} {batch : Batch} {edits : List Edit}

theorem ink_splice_of_le {front back : Text} (deletes : ∀ edit ∈ edits, edit.replacement = [])
    (fits : ∀ edit ∈ edits, edit.span.Fits (front ++ back))
    (behind : ∀ edit ∈ edits, front.size ≤ edit.span.start)
    (following : edits.Pairwise fun edit later => edit.span.stop ≤ later.span.start) :
    (splice front.size back edits).ink
      = Text.inkWhere (fun other => !(edits.map (·.span)).any (·.covers other)) front.size back := by
  induction edits generalizing front back with
  | nil => exact (Text.inkWhere_of_forall fun _ _ _ => rfl).symm
  | cons edit rest ih =>
      obtain ⟨later, following⟩ := List.pairwise_cons.mp following
      obtain ⟨noText, deletes⟩ := List.forall_mem_cons.mp deletes
      obtain ⟨fitsFirst, fitsRest⟩ := List.forall_mem_cons.mp fits
      obtain ⟨between, text, after, rfl, spanEq⟩ :=
        Text.exists_cut fitsFirst (behind edit List.mem_cons_self)
      have parts : front ++ (between ++ (text ++ after)) = front ++ between ++ text ++ after := by
        simp only [List.append_assoc]
      rw [spanEq] at later
      have others := ih deletes (fun other member => parts ▸ fitsRest other member) later following
      have split := @Text.inkWhere_any_covers_cons front.size text (!·) between after
        ⟨(front ++ between).size, (front ++ between ++ text).size⟩ (rest.map (·.span))
        (Text.size_append _ _) (Text.size_append _ _) (by simpa using later)
      have copied : splice front.size (between ++ (text ++ after)) (edit :: rest)
          = between ++ splice (front ++ between ++ text).size after rest := by
        have gap : (front ++ between).size - front.size = between.size := by
          rw [Text.size_append, Nat.add_sub_cancel_left]
        have cutSize : (front ++ between ++ text).size - front.size = (between ++ text).size := by
          rw [List.append_assoc, Text.size_append, Nat.add_sub_cancel_left]
        rw [splice, noText, spanEq, gap, cutSize, Text.takeBytes_size_append, List.append_nil,
          ← List.append_assoc between, Text.dropBytes_size_append]
      simp only [Bool.not_false, Bool.not_true, Bool.false_eq_true, if_false, if_true,
        List.nil_append] at split
      rw [copied, Text.ink_append, others, List.map_cons, spanEq, split]

/-- Copying with deletions leaves the ink that their spans do not cover. -/
theorem ink_splice (deletes : ∀ edit ∈ edits, edit.replacement = [])
    (fits : ∀ edit ∈ edits, edit.span.Fits document)
    (following : edits.Pairwise fun edit later => edit.span.stop ≤ later.span.start) :
    (splice 0 document edits).ink = (document.without (edits.map (·.span))).ink := by
  rw [Text.ink_without]
  exact @ink_splice_of_le edits [] document deletes fits (fun _ _ => Nat.zero_le _) following

/-- The text that one of the edits writes stands at one place of the copy. -/
theorem exists_splice_eq (start : Nat) (document : Text) (edits later : List Edit) (span : Span) :
    ∃ front back, ∀ replacement : Text,
      splice start document (edits ++ ⟨span, replacement⟩ :: later)
        = front ++ replacement ++ back := by
  induction edits generalizing start document with
  | nil =>
      exact ⟨document.takeBytes (span.start - start),
        splice span.stop (document.dropBytes (span.stop - start)) later, fun replacement => rfl⟩
  | cons edit rest ih =>
      obtain ⟨front, back, written⟩ :=
        ih edit.span.stop (document.dropBytes (edit.span.stop - start))
      refine ⟨document.takeBytes (edit.span.start - start) ++ edit.replacement ++ front, back,
        fun replacement => ?_⟩
      simp only [List.cons_append, splice, written, List.append_assoc]

/-- A valid batch of deletions leaves the ink that their spans do not cover. -/
theorem exists_ink_apply_of_deletions (valid : validate document batch = .ok ())
    (deletes : ∀ edit ∈ batch, edit.replacement = []) {spans : List Span}
    (same : Text.CoverSameInk document (batch.map (·.span)) spans) :
    ∃ result, apply document batch = .ok result ∧
      result.ink = (document.without spans).ink := by
  obtain ⟨fits, following⟩ := pairwise_of_validate valid
  have sameSorted : Text.CoverSameInk document (batch.sorted.map (·.span)) spans :=
    fun place member inked => ((sorted_perm batch).map _).any_eq.trans (same place member inked)
  refine ⟨_, apply_eq_of_validate valid, ?_⟩
  rw [ink_splice (fun edit member => deletes edit ((sorted_perm batch).mem_iff.mp member)) fits
    following, sameSorted.ink_without_eq]

/-- A valid batch of deletions and one edit that writes a text leaves the ink that their spans
do not cover, with that text at one place. -/
theorem exists_ink_apply (valid : validate document batch = .ok ()) {edit : Edit}
    {deletions : List Edit} (consists : batch.Perm (edit :: deletions))
    (deletes : ∀ edit ∈ deletions, edit.replacement = []) {spans : List Span}
    (same : Text.CoverSameInk document (batch.map (·.span)) spans) :
    ∃ result front back, apply document batch = .ok result ∧
      (document.without spans).ink = front ++ back ∧
      result.ink = front ++ edit.replacement.ink ++ back := by
  obtain ⟨fits, following⟩ := pairwise_of_validate valid
  have sameSorted : Text.CoverSameInk document (batch.sorted.map (·.span)) spans :=
    fun place member inked => ((sorted_perm batch).map _).any_eq.trans (same place member inked)
  have sortedPerm := (sorted_perm batch).trans consists
  obtain ⟨before, later, sortedEq⟩ := List.append_of_mem (sortedPerm.mem_iff.mpr List.mem_cons_self)
  rw [sortedEq] at fits following sameSorted sortedPerm
  have others : ∀ other ∈ before ++ later, other.replacement = [] := fun other member =>
    deletes other (((List.perm_middle.symm.trans sortedPerm).cons_inv).mem_iff.mp member)
  obtain ⟨front, back, written⟩ := exists_splice_eq 0 document before later edit.span
  -- Without its text the edit is one more deletion.
  have left : (front ++ back).ink = (document.without spans).ink := by
    have deleted := written []
    rw [List.append_nil] at deleted
    rw [← deleted, ink_splice, ← sameSorted.ink_without_eq]
    · simp
    · intro other member
      rcases List.mem_append.mp member with inFront | isLater
      · exact others other (List.mem_append_left _ inFront)
      · rcases List.mem_cons.mp isLater with rfl | isLater
        · rfl
        · exact others other (List.mem_append_right _ isLater)
    · simpa [or_imp, forall_and] using fits
    · simpa [List.pairwise_append] using following
  refine ⟨_, front.ink, back.ink, apply_eq_of_validate valid, ?_, ?_⟩
  · rw [← left, Text.ink_append]
  · rw [sortedEq, written edit.replacement, Text.ink_append, Text.ink_append]

end Batch

end LatexTabular
