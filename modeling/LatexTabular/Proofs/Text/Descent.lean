import LatexTabular.Proofs.Text.Line
import Mathlib.Order.Bounds.Basic

/-!
# The lines of a document, one below the other

What makes a span with a number a line of a document says nothing about how the line is found
(`Text.IsLine`).  Exactly one line reaches a boundary (`Text.isLineOf_iff`).  One step down leads
from a line to the line behind its line feed, and one step up leads back
(`Text.IsLine.next?_eq_some`, `Text.IsLine.previous?_eq_some`).  So a descent from a line numbers
the lines on, spells the rest of the document and meets every line there (`Text.Descends`).
-/

namespace LatexTabular.Text

variable {document before after : Text} {line other : Line}

/-! ### Boundaries up to an offset -/

/-- The boundaries of a text that are not behind an offset. -/
def boundariesUpTo (text : Text) (offset : Nat) : Set Nat :=
  {boundary | text.isBoundary boundary = true ∧ boundary ≤ offset}

theorem isBoundary_size_takeBytes (text : Text) (offset : Nat) :
    text.isBoundary (text.takeBytes offset).size = true :=
  isBoundary_iff.mpr ⟨_, _, (takeBytes_append_dropBytes text offset).symm, rfl⟩

/-- What lies wholly in front of an offset ends at the last boundary up to it. -/
theorem isGreatest_size_takeBytes (text : Text) (offset : Nat) :
    IsGreatest (text.boundariesUpTo (min offset text.size)) (text.takeBytes offset).size := by
  have boundary := isBoundary_size_takeBytes text offset
  constructor
  · exact ⟨boundary, Nat.le_min.mpr ⟨size_takeBytes_le text offset, le_size_of_isBoundary boundary⟩⟩
  · rintro other ⟨isOther, upTo⟩
    obtain ⟨before, after, rfl, rfl⟩ := isBoundary_iff.mp isOther
    rw [takeBytes_append_of_le after (Nat.le_min.mp upTo).1, size_append]
    exact Nat.le_add_right ..

/-- An offset within a character has the line of the start of that character. -/
theorem lineAt_size_takeBytes (document : Text) (offset : Nat) :
    document.lineAt (document.takeBytes offset).size = document.lineAt offset := by
  have taken := takeBytes_size_append (document.takeBytes offset) (document.dropBytes offset)
  have dropped := dropBytes_size_append (document.takeBytes offset) (document.dropBytes offset)
  rw [takeBytes_append_dropBytes] at taken dropped
  simp only [lineAt, taken, dropped]

/-! ### Lines -/

/-- A line of a document: an unbroken part between line feeds or ends of the document, with a
number that counts the line feeds in front of it. -/
structure IsLine (document : Text) (line : Line) : Prop where
  fits : line.span.Fits document
  unbroken : '\n' ∉ line.text document
  begins : line.span.start = 0 ∨ document.Spells ⟨line.span.start - 1, line.span.start⟩ ['\n']
  ends : line.span.stop = document.size ∨
    document.Spells ⟨line.span.stop, line.span.stop + 1⟩ ['\n']
  number_eq : line.number = (document.takeBytes line.span.start).count '\n' + 1

/-- A line of a document with an offset in it or at one of its ends. -/
structure IsLineOf (document : Text) (offset : Nat) (line : Line) : Prop
    extends IsLine document line where
  start_le : line.span.start ≤ offset
  le_stop : offset ≤ line.span.stop

theorem behindBreak_of_spells
    (spells : Spells (before ++ after) ⟨before.size - 1, before.size⟩ ['\n']) :
    ∀ last ∈ before.getLast?, last = '\n' := by
  obtain ⟨front, back, documentEq, spanEq⟩ := spells
  have sizes : before.size = (front ++ ['\n']).size := by
    rw [size_append]
    exact (Span.mk.inj spanEq).2
  obtain ⟨rfl, -⟩ := eq_of_append_eq_of_size_eq documentEq sizes
  simp

theorem beforeBreak_of_spells
    (spells : Spells (before ++ after) ⟨before.size, before.size + 1⟩ ['\n']) :
    ∀ next ∈ after.head?, next = '\n' := by
  obtain ⟨front, back, documentEq, spanEq⟩ := spells
  rw [List.append_assoc] at documentEq
  obtain ⟨-, rfl⟩ := eq_of_append_eq_of_size_eq documentEq (Span.mk.inj spanEq).1
  simp

/-- A line around which a document is cut is a line of the document. -/
theorem AroundLine.isLine {text : Text} (around : AroundLine document before text after) :
    IsLine document (lineBehind before text) := by
  have documentEq := around.document_eq
  refine ⟨around.spells.fits, ?_, ?_, ?_, ?_⟩
  · rw [around.text_eq]
    exact around.unbroken
  · rcases List.eq_nil_or_concat before with rfl | ⟨lines, last, rfl⟩
    · exact .inl rfl
    · obtain rfl := around.behindBreak last (by simp)
      refine .inr ⟨lines, text ++ after, by simp [documentEq], ?_⟩
      simp [lineBehind, utf8Size_newline]
  · cases after with
    | nil => exact .inl (by simp [documentEq, lineBehind])
    | cons next rest =>
        obtain rfl := around.beforeBreak next rfl
        refine .inr ⟨before ++ text, rest, by simp [documentEq], ?_⟩
        simp [lineBehind, utf8Size_newline]
  · rw [documentEq, List.append_assoc]
    simp only [lineBehind, takeBytes_size_append]

namespace IsLine

variable (isLine : IsLine document line)

include isLine

/-- A document can be cut around each of its lines. -/
theorem exists_aroundLine :
    ∃ before text after, AroundLine document before text after ∧ line = lineBehind before text := by
  obtain ⟨fits, unbroken, begins, ends, numberEq⟩ := isLine
  obtain ⟨number, span⟩ := line
  obtain ⟨before, after, documentEq, spanEq⟩ := fits.spells_slice
  rw [Line.text] at unbroken
  generalize document.slice span = text at documentEq spanEq unbroken
  subst spanEq documentEq
  refine ⟨before, text, after, ⟨rfl, unbroken, ?_, ?_⟩, ?_⟩
  · rcases begins with first | spells
    · simp [size_eq_zero_iff.mp first]
    · rw [List.append_assoc] at spells
      exact behindBreak_of_spells spells
  · rcases ends with last | spells
    · have nothing : after = [] := by
        simp only [size_append] at last
        exact size_eq_zero_iff.mp (by omega)
      simp [nothing]
    · rw [← size_append] at spells
      exact beforeBreak_of_spells spells
  · rw [List.append_assoc, takeBytes_size_append] at numberEq
    rw [lineBehind, ← numberEq]

/-- The line below a line begins behind its line feed, has the next number, and the line above
that one is the line again. -/
theorem next?_eq_some {below : Line} (found : line.next? document = some below) :
    IsLine document below ∧ below.span.start = line.span.stop + 1 ∧
      below.number = line.number + 1 ∧ below.previous? document = some line := by
  obtain ⟨before, text, after, around, rfl⟩ := isLine.exists_aroundLine
  cases after with
  | nil =>
      rw [around.next?_eq_none] at found
      cases found
  | cons next rest =>
      obtain rfl := around.beforeBreak next rfl
      obtain ⟨lower, back, rfl, aroundBelow, foundBelow⟩ := around.exists_next
      obtain rfl := Option.some.inj (found.symm.trans foundBelow)
      refine ⟨aroundBelow.isLine, ?_, ?_, around.previous?_eq⟩
      · simp [lineBehind, utf8Size_newline, Nat.add_assoc]
      · simp [lineBehind, List.count_eq_zero_of_not_mem around.unbroken]

/-- The line below the line above a line is the line again. -/
theorem previous?_eq_some {above : Line} (found : line.previous? document = some above) :
    above.next? document = some line := by
  obtain ⟨before, text, after, around, rfl⟩ := isLine.exists_aroundLine
  by_cases inner : before = []
  · subst inner
    rw [AroundLine.previous?_eq_none] at found
    cases found
  · obtain ⟨front, upper, rfl, aroundAbove, foundAbove⟩ := around.exists_previous inner
    obtain rfl := Option.some.inj (found.symm.trans foundAbove)
    exact around.next?_eq

/-- A line with no line below it ends the document. -/
theorem stop_eq_size (last : line.next? document = none) : line.span.stop = document.size := by
  by_contra shorter
  have inner := Nat.lt_of_le_of_ne isLine.fits.stop_le_size shorter
  rw [Line.next?, if_pos inner] at last
  cases last

end IsLine

/-- The line of a boundary is the only line that reaches it. -/
theorem isLineOf_iff {offset : Nat} (boundary : document.isBoundary offset = true) :
    IsLineOf document offset line ↔ line = document.lineAt offset := by
  constructor
  · intro isLineOf
    obtain ⟨before, text, after, around, rfl⟩ := isLineOf.exists_aroundLine
    rw [around.document_eq, List.append_assoc] at boundary
    obtain ⟨left, remaining, parts, rfl⟩ :=
      exists_append_of_isBoundary boundary isLineOf.start_le
    have within := isLineOf.le_stop
    simp only [lineBehind, size_append, Nat.add_le_add_iff_left] at within
    obtain ⟨right, rfl⟩ : left <+: text :=
      isPrefix_of_size_le ⟨remaining, parts.symm⟩ ⟨after, rfl⟩ within
    exact around.lineAt_eq.symm
  · rintro rfl
    obtain ⟨before, left, right, after, around, rfl⟩ := exists_aroundLine boundary
    rw [around.lineAt_eq]
    exact ⟨around.isLine, by simp [lineBehind], by simp [lineBehind]⟩

/-- A line does not begin within another one. -/
theorem IsLine.eq_of_start_mem (isLine : IsLine document line) (isOther : IsLine document other)
    (start_le : line.span.start ≤ other.span.start)
    (le_stop : other.span.start ≤ line.span.stop) : other = line := by
  have boundary := isOther.fits.startBoundary
  rw [(isLineOf_iff boundary).mp ⟨isLine, start_le, le_stop⟩]
  exact (isLineOf_iff boundary).mp ⟨isOther, Nat.le_refl _, isOther.fits.ordered⟩

/-! ### Descents -/

/-- The lines from a line down, each followed by the one below it, to one with none below. -/
inductive Descends (document : Text) : Line → List Line → Prop where
  | last {line : Line} : line.next? document = none → Descends document line [line]
  | step {line below : Line} {rest : List Line} : line.next? document = some below →
      Descends document below rest → Descends document line (line :: rest)

/-- Every line has a descent, for each step leads nearer to the end of the document. -/
theorem IsLine.exists_descends (isLine : IsLine document line) :
    ∃ visited, Descends document line visited := by
  induction left : document.size - line.span.stop using Nat.strong_induction_on
    generalizing line with
  | _ left ih =>
      cases found : line.next? document with
      | none => exact ⟨[line], .last found⟩
      | some below =>
          obtain ⟨isBelow, startEq, -⟩ := isLine.next?_eq_some found
          have ordered := isBelow.fits.ordered
          have within := isBelow.fits.stop_le_size
          obtain ⟨visited, descends⟩ := ih _ (by omega) isBelow rfl
          exact ⟨line :: visited, .step found descends⟩

namespace Descends

variable {visited : List Line} (descends : Descends document line visited)
  (isLine : IsLine document line)

include descends

theorem ne_nil : visited ≠ [] := by
  cases descends <;> simp

include isLine

/-- A descent numbers the lines on. -/
theorem numbers_eq : visited.map Line.number = List.range' line.number visited.length := by
  induction descends with
  | last _ => rfl
  | step found _ ih =>
      obtain ⟨isBelow, -, numberEq, -⟩ := isLine.next?_eq_some found
      rw [List.map_cons, ih isBelow, List.length_cons, List.range'_succ, numberEq]

/-- A descent spells the document from its first line on, with a line feed between two lines. -/
theorem spells : document.Spells ⟨line.span.start, document.size⟩
    (['\n'].intercalate (visited.map (Line.text document))) := by
  induction descends with
  | last last =>
      rw [List.map_singleton, List.intercalate_singleton, ← isLine.stop_eq_size last]
      exact isLine.fits.spells_slice
  | step found descends ih =>
      obtain ⟨isBelow, startEq, -⟩ := isLine.next?_eq_some found
      have inner := isBelow.fits.ordered
      have within := isBelow.fits.stop_le_size
      have feed := isLine.ends.resolve_left (by omega)
      have spells := ih isBelow
      rw [startEq] at spells
      rw [List.map_cons, List.intercalate_cons_of_ne_nil (by simpa using descends.ne_nil)]
      exact (isLine.fits.spells_slice.append feed).append spells

/-- A descent meets every line that does not begin above its first one. -/
theorem mem_iff : other ∈ visited ↔
    IsLine document other ∧ line.span.start ≤ other.span.start := by
  induction descends with
  | @last line last =>
      rw [List.mem_singleton]
      constructor
      · rintro rfl
        exact ⟨isLine, Nat.le_refl _⟩
      · rintro ⟨isOther, behind⟩
        refine isLine.eq_of_start_mem isOther behind ?_
        rw [isLine.stop_eq_size last]
        exact le_size_of_isBoundary isOther.fits.startBoundary
  | @step line below rest found _ ih =>
      obtain ⟨isBelow, startEq, -⟩ := isLine.next?_eq_some found
      have ordered := isLine.fits.ordered
      rw [List.mem_cons, ih isBelow]
      constructor
      · rintro (rfl | ⟨isOther, behind⟩)
        · exact ⟨isLine, Nat.le_refl _⟩
        · exact ⟨isOther, by omega⟩
      · -- What begins within the line is the line, and what begins further down is met there.
        rintro ⟨isOther, behind⟩
        by_cases inside : other.span.start ≤ line.span.stop
        · exact .inl (isLine.eq_of_start_mem isOther behind inside)
        · exact .inr ⟨isOther, by omega⟩

end Descends

/-- The line of an offset is the only line that reaches the last boundary up to it.  A descent from
the first line meets every line, with numbers from one on, and spells the document.  A step up and
a step down undo each other. -/
theorem lineAt_unique_and_descends (document : Text) :
    (∀ offset, ∃ position,
      IsGreatest (document.boundariesUpTo (min offset document.size)) position ∧
        ∀ line, IsLineOf document position line ↔ line = document.lineAt offset) ∧
    (∃ visited, Descends document (document.lineAt 0) visited ∧
      visited.map Line.number = List.range' 1 visited.length ∧
      ['\n'].intercalate (visited.map (Line.text document)) = document ∧
      ∀ line, line ∈ visited ↔ IsLine document line) ∧
    (∀ line below, IsLine document line → line.next? document = some below →
      below.previous? document = some line) ∧
    (∀ line above, IsLine document line → line.previous? document = some above →
      above.next? document = some line) := by
  refine ⟨?_, ?_, fun _ _ isLine found => (isLine.next?_eq_some found).2.2.2,
    fun _ _ isLine => isLine.previous?_eq_some⟩
  · intro offset
    refine ⟨_, isGreatest_size_takeBytes document offset, fun line => ?_⟩
    rw [← lineAt_size_takeBytes document offset]
    exact isLineOf_iff (isBoundary_size_takeBytes document offset)
  · have isFirst : IsLineOf document 0 (document.lineAt 0) :=
      (isLineOf_iff (isBoundary_size_append [] document)).mpr rfl
    have startEq := Nat.le_zero.mp isFirst.start_le
    have numberEq := isFirst.number_eq
    have nothing : document.takeBytes 0 = [] := takeBytes_size_append [] document
    rw [startEq, nothing] at numberEq
    obtain ⟨visited, descends⟩ := isFirst.exists_descends
    have numbers := descends.numbers_eq isFirst.toIsLine
    have spells := descends.spells isFirst.toIsLine
    have whole : document.Spells ⟨0, document.size⟩ document := ⟨[], [], by simp, by simp⟩
    rw [numberEq] at numbers
    rw [startEq] at spells
    refine ⟨visited, descends, numbers, ?_, fun line => ?_⟩
    · exact spells.slice_eq.symm.trans whole.slice_eq
    · rw [descends.mem_iff isFirst.toIsLine, startEq]
      simp

/-- An offset within a character, one beyond the end of the document, and the empty line between
them, reached from above and left downwards. -/
theorem lineAt_unique_and_descends_multibyte :
    lineAt "é\n\nab".toList 1 = ⟨1, ⟨0, 2⟩⟩ ∧ lineAt "é\n\nab".toList 9 = ⟨3, ⟨4, 6⟩⟩ ∧
      IsLine "é\n\nab".toList ⟨2, ⟨3, 3⟩⟩ ∧
      Line.next? "é\n\nab".toList ⟨2, ⟨3, 3⟩⟩ = some ⟨3, ⟨4, 6⟩⟩ ∧
      Line.previous? "é\n\nab".toList ⟨3, ⟨4, 6⟩⟩ = some ⟨2, ⟨3, 3⟩⟩ ∧
      Line.previous? "é\n\nab".toList ⟨2, ⟨3, 3⟩⟩ = some ⟨1, ⟨0, 2⟩⟩ ∧
      Line.next? "é\n\nab".toList ⟨1, ⟨0, 2⟩⟩ = some ⟨2, ⟨3, 3⟩⟩ := by
  obtain ⟨found, -, upwards, downwards⟩ := lineAt_unique_and_descends "é\n\nab".toList
  obtain ⟨position, -, isLineOf⟩ := found 3
  have isLine : IsLine "é\n\nab".toList ⟨2, ⟨3, 3⟩⟩ := ((isLineOf _).mpr (by decide)).toIsLine
  have below : Line.next? "é\n\nab".toList ⟨2, ⟨3, 3⟩⟩ = some ⟨3, ⟨4, 6⟩⟩ := by decide
  have above : Line.previous? "é\n\nab".toList ⟨2, ⟨3, 3⟩⟩ = some ⟨1, ⟨0, 2⟩⟩ := by decide
  exact ⟨by decide, by decide, isLine, below, upwards _ _ isLine below, above,
    downwards _ _ isLine above⟩

end LatexTabular.Text
