import LatexTabular.Proofs.Edit.Batch
import LatexTabular.Proofs.Text.Lines
import LatexTabular.Proofs.Text.WholeLine

/-!
# Deleting whole lines

A span stands alone on its line if nothing but blank characters stands beside it there
(`Text.StandsAlone`).  Widened to its whole line it takes one line feed with it, so its deletion
takes one entry out of the list of lines (`Text.wholeLine_deletes_line`).
-/

namespace LatexTabular.Text

/-- Whether a span lies in one line and everything else on that line is blank. -/
structure StandsAlone (document : Text) (span : Span) : Prop where
  within : span.stop ≤ (document.lineAt span.start).span.stop
  blankLead : allBlank (document.slice ⟨(document.lineAt span.start).span.start, span.start⟩) = true
  blankTrail : allBlank (document.slice ⟨span.stop, (document.lineAt span.start).span.stop⟩) = true

instance {document : Text} {span : Span} : Decidable (StandsAlone document span) :=
  decidable_of_iff (_ ∧ _ ∧ _)
    ⟨fun ⟨within, blankLead, blankTrail⟩ => ⟨within, blankLead, blankTrail⟩,
      fun alone => ⟨alone.within, alone.blankLead, alone.blankTrail⟩⟩

namespace AroundLine

variable {document front lead text trail back : Text}

/-- What stands beside a text in its line. -/
theorem slices_beside (around : AroundLine document front (lead ++ text ++ trail) back) :
    document.slice ⟨front.size, (front ++ lead).size⟩ = lead ∧
      document.slice ⟨(front ++ lead ++ text).size, (front ++ lead ++ text ++ trail).size⟩
        = trail := by
  have leadSpells : document.Spells ⟨front.size, (front ++ lead).size⟩ lead :=
    ⟨front, text ++ trail ++ back, by simp [around.document_eq], by rw [size_append front]⟩
  have trailSpells : document.Spells
      ⟨(front ++ lead ++ text).size, (front ++ lead ++ text ++ trail).size⟩ trail :=
    ⟨front ++ lead ++ text, back, by simp [around.document_eq], by rw [size_append _ trail]⟩
  exact ⟨leadSpells.slice_eq, trailSpells.slice_eq⟩

/-- The line of a text within it. -/
theorem lineAt_text (around : AroundLine document front (lead ++ text ++ trail) back) :
    document.lineAt (front ++ lead).size
      = ⟨front.count '\n' + 1, ⟨front.size, (front ++ lead ++ text ++ trail).size⟩⟩ := by
  rw [List.append_assoc lead] at around
  rw [around.lineAt_eq, lineBehind, ← size_append]
  simp only [List.append_assoc]

end AroundLine

/-- A span stands alone on its line where its text does. -/
theorem standsAlone_iff (before text after : Text) :
    StandsAlone (before ++ text ++ after) ⟨before.size, (before ++ text).size⟩ ↔
      ∃ front lead trail back, before = front ++ lead ∧ after = trail ++ back ∧
        AloneOnLine (before ++ text ++ after) front lead text trail back := by
  constructor
  · intro alone
    obtain ⟨front, lead, rfl, ⟨right, back, around, beyond⟩ | ⟨trail, back, rfl, around⟩⟩ :=
      exists_aroundLine_text before text after
    · have within := alone.within
      simp only [around.lineAt_eq] at within
      exact absurd within (Nat.not_le.mpr beyond)
    · obtain ⟨leadEq, trailEq⟩ := around.slices_beside
      have blankLead := alone.blankLead
      have blankTrail := alone.blankTrail
      simp only [around.lineAt_text, leadEq, trailEq] at blankLead blankTrail
      exact ⟨front, lead, trail, back, rfl, rfl, around, blankLead, blankTrail⟩
  · rintro ⟨front, lead, trail, back, rfl, rfl, around, blankLead, blankTrail⟩
    obtain ⟨leadEq, trailEq⟩ := around.slices_beside
    constructor
    · simp only [around.lineAt_text, size_append _ trail]
      exact Nat.le_add_right ..
    · simpa only [around.lineAt_text, leadEq] using blankLead
    · simpa only [around.lineAt_text, trailEq] using blankTrail

/-- A document is cut around the line of a text that is alone on it and around one line feed
beside that line, so that all other lines stay. -/
theorem AloneOnLine.exists_cut {document front lead text trail back : Text}
    (alone : AloneOnLine document front lead text trail back) :
    ∃ kept taken rest, document = kept ++ taken ++ rest ∧
      wholeLine document ⟨(front ++ lead).size, (front ++ lead ++ text).size⟩
        = ⟨kept.size, (kept ++ taken).size⟩ ∧
      if document.lines.length = 1 then kept ++ rest = []
      else lines (kept ++ rest) = document.lines.eraseIdx (front.count '\n') := by
  have around := alone.around
  have documentEq := around.document_eq
  have stopEq : (front ++ lead ++ text ++ trail).size = (front ++ (lead ++ text ++ trail)).size := by
    simp only [List.append_assoc]
  rw [alone.wholeLine_eq, stopEq, around.lines_eq, ← length_closedLines]
  generalize lead ++ text ++ trail = line at around documentEq
  cases back with
  | cons next rest =>
      -- An inner line goes with the line feed behind it.
      obtain rfl := around.beforeBreak next rfl
      refine ⟨front, line ++ ['\n'], rest, by simp [documentEq], ?_, ?_⟩
      · simp only [reduceCtorEq, if_false, size_append, size_newline, Nat.add_assoc]
      · have several : 0 < (lines rest).length := List.length_pos_of_ne_nil (lines_ne_nil rest)
        rw [openLines_newline_cons, if_neg (by simp; omega),
          lines_append_of_behindBreak around.behindBreak]
        simp [List.eraseIdx_append_of_length_le]
  | nil =>
      rw [List.append_nil] at documentEq
      rcases List.eq_nil_or_concat front with rfl | ⟨init, last, rfl⟩
      · exact ⟨[], line, [], by simp [documentEq], by simp, by simp⟩
      · -- The last line goes with the line feed in front of it.
        obtain rfl := around.behindBreak last (by simp)
        refine ⟨init, '\n' :: line, [], by simp [documentEq], ?_, ?_⟩
        · simp [utf8Size_newline]
        · rw [List.concat_eq_append, closedLines_append_newline, openLines_nil,
            if_neg (by simpa using lines_ne_nil init)]
          simp [List.eraseIdx_append_of_length_le]

/-- Deleting a span that stands alone on its line, widened to that line, takes one line. -/
theorem StandsAlone.apply_deletion {document : Text} {span : Span} (fits : span.Fits document)
    (alone : StandsAlone document span) :
    ∃ result, Batch.apply document [.deletion (wholeLine document span)] = .ok result ∧
      if document.lines.length = 1 then result = []
      else result.lines = document.lines.eraseIdx ((document.lineAt span.start).number - 1) := by
  obtain ⟨before, text, after, rfl, rfl, -⟩ := fits.exists_append
  obtain ⟨front, lead, trail, back, rfl, rfl, isAlone⟩ := (standsAlone_iff ..).mp alone
  obtain ⟨kept, taken, rest, documentEq, wideEq, remaining⟩ := isAlone.exists_cut
  have deleted := Batch.apply_singleton kept taken rest []
  rw [← documentEq, List.append_nil] at deleted
  rw [Edit.deletion, wideEq]
  refine ⟨kept ++ rest, deleted, ?_⟩
  rw [isAlone.around.lineAt_text, Nat.add_sub_cancel]
  exact remaining

/-- A span with other text in its line, or beyond it, is not widened. -/
theorem wholeLine_eq_self {document : Text} {span : Span} (fits : span.Fits document)
    (beside : ¬ StandsAlone document span) : wholeLine document span = span := by
  obtain ⟨before, text, after, rfl, rfl, -⟩ := fits.exists_append
  rcases wholeLine_cases before text after with
    same | ⟨front, lead, trail, back, beforeEq, afterEq, alone, -⟩
  · exact same
  · have isAlone := (standsAlone_iff ..).mpr ⟨front, lead, trail, back, beforeEq, afterEq, alone⟩
    exact absurd isAlone beside

/-- What a span widened to its whole line covers, and what its deletion leaves.  It grows by blank
characters only, and only if the span stands alone on its line; then just that line goes, out of
the list of lines. -/
theorem wholeLine_deletes_line {document : Text} {span : Span} (fits : span.Fits document) :
    (wholeLine document span).Fits document ∧
      (wholeLine document span).contains span = true ∧
      allBlank (document.slice ⟨(wholeLine document span).start, span.start⟩) = true ∧
      allBlank (document.slice ⟨span.stop, (wholeLine document span).stop⟩) = true ∧
      document.lines[(document.lineAt span.start).number - 1]?
        = some ((document.lineAt span.start).text document) ∧
      (StandsAlone document span → ∃ result,
        Batch.apply document [.deletion (wholeLine document span)] = .ok result ∧
          if document.lines.length = 1 then result = []
          else result.lines = document.lines.eraseIdx ((document.lineAt span.start).number - 1)) ∧
      (¬ StandsAlone document span → wholeLine document span = span) := by
  obtain ⟨wideFits, contains⟩ := fits_wholeLine fits
  obtain ⟨lead, trail, blankLead, blankTrail, spells, startEq⟩ := exists_spells_wholeLine fits
  refine ⟨wideFits, contains, ?_, ?_, getElem?_lines_lineAt fits.startBoundary,
    StandsAlone.apply_deletion fits, wholeLine_eq_self fits⟩
  · have parts : lead ++ document.slice span ++ trail
        = [] ++ lead ++ (document.slice span ++ trail) := List.append_assoc ..
    have leadSpells := spells.middle parts
    rw [size_nil, Nat.add_zero, ← startEq] at leadSpells
    rw [leadSpells.slice_eq, blankLead]
  · have parts : lead ++ document.slice span ++ trail
        = lead ++ document.slice span ++ trail ++ [] := (List.append_nil _).symm
    have trailSpells := spells.middle parts
    have wideStop := spells.stop_eq
    rw [size_append _ trail, ← Nat.add_assoc] at wideStop
    have stopEq : span.stop
        = (wholeLine document span).start + (lead ++ document.slice span).size := by
      rw [fits.spells_slice.stop_eq, startEq, size_append, Nat.add_assoc]
    rw [← wideStop, ← stopEq] at trailSpells
    rw [trailSpells.slice_eq, blankTrail]

/-- The last line of a document with blank characters around the span and a line feed above. -/
theorem wholeLine_deletes_line_lastLine :
    Span.Fits "a\n é ".toList ⟨3, 5⟩ ∧ StandsAlone "a\n é ".toList ⟨3, 5⟩ ∧
      wholeLine "a\n é ".toList ⟨3, 5⟩ = ⟨1, 6⟩ ∧
      ∃ result, Batch.apply "a\n é ".toList [.deletion ⟨1, 6⟩] = .ok result ∧
        result.lines = ["a".toList] := by
  have fits : Span.Fits "a\n é ".toList ⟨3, 5⟩ := ⟨by decide, by decide, by decide⟩
  have alone : StandsAlone "a\n é ".toList ⟨3, 5⟩ := by decide
  have wide : wholeLine "a\n é ".toList ⟨3, 5⟩ = ⟨1, 6⟩ := by decide
  obtain ⟨-, -, -, -, -, deletes, -⟩ := wholeLine_deletes_line fits
  obtain ⟨result, applied, remaining⟩ := deletes alone
  rw [wide] at applied
  exact ⟨fits, alone, wide, result, applied, remaining⟩

end LatexTabular.Text
