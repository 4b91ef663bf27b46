import LatexTabular.Proofs.Text.Line

/-!
# Where a block of lines goes

A run of blank lines above or below a line is a blank part of the document between two ends of
lines (`Text.AroundLine.exists_topOfBlankRun`, `Text.AroundLine.exists_endOfBlankRun`).  Where a
block beside an offset goes depends on the line of the offset and on the line next to it
(`Text.AroundLine.placeBeside_above`, `Text.AroundLine.placeBeside_below`); in any case it goes
between characters, whatever blank lines it replaces (`Text.fits_spanWithBlankLines`).
-/

namespace LatexTabular.Text

theorem ne_nil_of_not_allBlank {text : Text} (inked : allBlank text = false) : text ≠ [] := by
  rintro rfl
  exact Bool.noConfusion inked

namespace AroundLine

variable {document before line after : Text}

/-- The run of blank lines above a line reaches up to the end of a line or the start of the
document. -/
theorem exists_topOfBlankRun (around : AroundLine document before line after) (limit : Nat) :
    ∃ front gap, before = front ++ gap ∧ allBlank gap = true ∧ gap.count '\n' ≤ limit ∧
      (∀ last ∈ front.getLast?, last = '\n') ∧
      ((lineBehind before line).topOfBlankRun document limit).span.start = front.size := by
  have stay (limit : Nat) {before line after : Text}
      (around : AroundLine document before line after) :
      ∃ front gap, before = front ++ gap ∧ allBlank gap = true ∧ gap.count '\n' ≤ limit ∧
        (∀ last ∈ front.getLast?, last = '\n') ∧
        (lineBehind before line).span.start = front.size :=
    ⟨before, [], by simp, rfl, Nat.zero_le _, around.behindBreak, rfl⟩
  induction limit generalizing before line after with
  | zero => exact stay 0 around
  | succ limit ih =>
      by_cases inner : before = []
      · subst inner
        simpa only [Line.topOfBlankRun, previous?_eq_none] using stay (limit + 1) around
      · obtain ⟨front, above, beforeEq, aroundAbove, found⟩ := around.exists_previous inner
        simp only [Line.topOfBlankRun, found, aroundAbove.isBlank_eq]
        split
        next blank =>
          obtain ⟨top, gap, rfl, blankGap, few, behindBreak, startEq⟩ := ih aroundAbove
          refine ⟨top, gap ++ above ++ ['\n'], by simp [beforeEq], ?_, ?_, behindBreak, startEq⟩
          · have newline : isBlank '\n' = true := by decide
            simp only [allBlank] at blank blankGap ⊢
            simp [blank, blankGap, newline]
          · simpa [List.count_eq_zero_of_not_mem aroundAbove.unbroken] using few
        next => exact stay (limit + 1) around

/-- The run of blank lines below a line reaches down to a line feed or the end of the
document. -/
theorem exists_endOfBlankRun (around : AroundLine document before line after) (limit : Nat) :
    ∃ gap rest, after = gap ++ rest ∧ allBlank gap = true ∧ gap.count '\n' ≤ limit ∧
      (∀ next ∈ rest.head?, next = '\n') ∧
      ((lineBehind before line).endOfBlankRun document limit).span.stop
        = (before ++ line ++ gap).size := by
  have stay (limit : Nat) {before line after : Text}
      (around : AroundLine document before line after) :
      ∃ gap rest, after = gap ++ rest ∧ allBlank gap = true ∧ gap.count '\n' ≤ limit ∧
        (∀ next ∈ rest.head?, next = '\n') ∧
        (lineBehind before line).span.stop = (before ++ line ++ gap).size :=
    ⟨[], after, rfl, rfl, Nat.zero_le _, around.beforeBreak, by simp [lineBehind]⟩
  induction limit generalizing before line after with
  | zero => exact stay 0 around
  | succ limit ih =>
      cases after with
      | nil => simpa only [Line.endOfBlankRun, around.next?_eq_none] using stay (limit + 1) around
      | cons next rest =>
          obtain rfl := around.beforeBreak next rfl
          obtain ⟨below, back, rfl, aroundBelow, found⟩ := around.exists_next
          simp only [Line.endOfBlankRun, found, aroundBelow.isBlank_eq]
          split
          next blank =>
            obtain ⟨gap, rest, rfl, blankGap, few, beforeBreak, stopEq⟩ := ih aroundBelow
            refine ⟨'\n' :: (below ++ gap), rest, by simp, ?_, ?_, beforeBreak, ?_⟩
            · have newline : isBlank '\n' = true := by decide
              simp only [allBlank] at blank blankGap ⊢
              simp [blank, blankGap, newline]
            · simpa [List.count_eq_zero_of_not_mem aroundBelow.unbroken] using few
            · rw [stopEq]
              simp
          next => exact stay (limit + 1) around

/-- A block on an empty line replaces that line with the blank lines next to it on one side. -/
theorem exists_blankRun (around : AroundLine document before [] after) (limit : Nat)
    (side : Side) :
    ∃ front gap back, document = front ++ gap ++ back ∧ allBlank gap = true ∧
      gap.count '\n' ≤ limit ∧ (∀ last ∈ front.getLast?, last = '\n') ∧
      (∀ next ∈ back.head?, next = '\n') ∧
      document.spanWithBlankLines before.size limit side = ⟨front.size, (front ++ gap).size⟩ ∧
      (side = .above → front ++ gap = before) ∧ (side = .below → front = before) := by
  have documentEq := around.document_eq
  have empty : (lineBehind before []).span.isEmpty = true := by simp [isEmpty_lineBehind]
  rw [List.append_nil] at documentEq
  simp only [spanWithBlankLines, around.lineAt_start, empty, if_true]
  cases side with
  | above =>
      obtain ⟨front, gap, rfl, blankGap, few, behindBreak, startEq⟩ :=
        around.exists_topOfBlankRun limit
      exact ⟨front, gap, after, documentEq, blankGap, few, behindBreak, around.beforeBreak,
        by rw [startEq], by simp, by simp⟩
  | below =>
      obtain ⟨gap, rest, rfl, blankGap, few, beforeBreak, stopEq⟩ :=
        around.exists_endOfBlankRun limit
      exact ⟨before, gap, rest, by simp [documentEq], blankGap, few, around.behindBreak, beforeBreak,
        by rw [stopEq, List.append_nil], by simp, by simp⟩

/-! ### On a line that is not empty -/

section Nonempty

variable (around : AroundLine document before line after) (nonempty : line ≠ [])

include around nonempty

/-- At the start of a line that is not empty a block replaces nothing. -/
theorem spanWithBlankLines_start (limit : Nat) (side : Side) :
    document.spanWithBlankLines before.size limit side = .point before.size := by
  simp only [spanWithBlankLines, around.lineAt_start, isEmpty_lineBehind, nonempty, decide_false,
    Bool.false_eq_true, if_false]

/-- At the end of a line that is not empty a block replaces nothing. -/
theorem spanWithBlankLines_stop (limit : Nat) (side : Side) :
    document.spanWithBlankLines (before ++ line).size limit side
      = .point (before ++ line).size := by
  simp only [spanWithBlankLines, around.lineAt_stop, isEmpty_lineBehind, nonempty, decide_false,
    Bool.false_eq_true, if_false]

end Nonempty

variable {left right : Text}

/-- Within a line that is not empty a block replaces nothing. -/
theorem spanWithBlankLines_within (around : AroundLine document before (left ++ right) after)
    (nonempty : left ++ right ≠ []) (limit : Nat) (side : Side) :
    document.spanWithBlankLines (before ++ left).size limit side = .point (before ++ left).size := by
  simp only [spanWithBlankLines, around.lineAt_eq, isEmpty_lineBehind, nonempty, decide_false,
    Bool.false_eq_true, if_false]

/-! ### Beside a line -/

/-- A blank line takes the block itself. -/
theorem placeBeside_of_blank (around : AroundLine document before (left ++ right) after)
    (blank : allBlank (left ++ right) = true) (side : Side) :
    document.placeBeside (before ++ left).size side = ⟨(before ++ left).size, [], []⟩ := by
  have inside : (before ++ left).size ≤ document.size := by
    rw [around.document_eq]
    simp only [size_append]
    omega
  simp only [placeBeside, around.lineAt_eq, around.isBlank_eq, blank, if_true,
    Nat.min_eq_left inside]

/-- Above the first line a block goes to the start of the document. -/
theorem placeBeside_first (around : AroundLine document [] (left ++ right) after)
    (inked : allBlank (left ++ right) = false) :
    document.placeBeside left.size .above = ⟨0, [], ['\n']⟩ := by
  have lineEq : document.lineAt left.size = lineBehind [] (left ++ right) := around.lineAt_eq
  simp only [placeBeside, lineEq, around.isBlank_eq, inked, Bool.false_eq_true, if_false,
    previous?_eq_none]

/-- Above another line a block goes to the end of the line there, behind a line feed if that line
has text. -/
theorem placeBeside_above {front upper : Text}
    (around : AroundLine document before (left ++ right) after)
    (inked : allBlank (left ++ right) = false) (beforeEq : before = front ++ upper ++ ['\n'])
    (aroundUpper : AroundLine document front upper ('\n' :: (left ++ right ++ after))) :
    document.placeBeside (before ++ left).size .above
      = ⟨(front ++ upper).size, if upper = [] then [] else ['\n'], []⟩ := by
  subst beforeEq
  simp only [placeBeside, around.lineAt_eq, around.isBlank_eq, inked, Bool.false_eq_true, if_false,
    aroundUpper.previous?_eq, isEmpty_lineBehind, decide_eq_true_eq]
  rw [lineBehind, size_append]

/-- Below the last line a block goes to the end of the document. -/
theorem placeBeside_last (around : AroundLine document before (left ++ right) [])
    (inked : allBlank (left ++ right) = false) :
    document.placeBeside (before ++ left).size .below
      = ⟨(before ++ (left ++ right)).size, ['\n'], []⟩ := by
  have documentEq : document = before ++ (left ++ right) := by simpa using around.document_eq
  simp only [placeBeside, around.lineAt_eq, around.isBlank_eq, inked, Bool.false_eq_true, if_false,
    around.next?_eq_none]
  rw [← documentEq]

/-- Below another line a block goes to the start of the line there, in front of a line feed if that
line has text. -/
theorem placeBeside_below {lower back : Text}
    (around : AroundLine document before (left ++ right) after)
    (inked : allBlank (left ++ right) = false)
    (aroundLower : AroundLine document (before ++ (left ++ right) ++ ['\n']) lower back) :
    document.placeBeside (before ++ left).size .below
      = ⟨(before ++ (left ++ right) ++ ['\n']).size, [], if lower = [] then [] else ['\n']⟩ := by
  simp only [placeBeside, around.lineAt_eq, around.isBlank_eq, inked, Bool.false_eq_true, if_false,
    aroundLower.next?_eq, isEmpty_lineBehind, decide_eq_true_eq]
  rw [lineBehind]

end AroundLine

/-- A block beside a boundary goes to a boundary. -/
theorem isBoundary_placeBeside {document : Text} {offset : Nat}
    (boundary : document.isBoundary offset = true) (side : Side) :
    document.isBoundary (document.placeBeside offset side).offset = true := by
  obtain ⟨before, left, right, after, around, rfl⟩ := exists_aroundLine boundary
  have cutAt (front back : Text) (documentEq : document = front ++ back) :
      document.isBoundary front.size = true := by
    rw [documentEq, isBoundary_size_append]
  cases inked : allBlank (left ++ right) with
  | true =>
      rw [around.placeBeside_of_blank inked]
      exact boundary
  | false =>
      cases side with
      | above =>
          by_cases first : before = []
          · subst first
            rw [List.nil_append, around.placeBeside_first inked]
            exact cutAt [] document rfl
          · obtain ⟨front, upper, beforeEq, aroundUpper, -⟩ := around.exists_previous first
            rw [around.placeBeside_above inked beforeEq aroundUpper]
            exact cutAt _ _ aroundUpper.document_eq
      | below =>
          cases after with
          | nil =>
              rw [around.placeBeside_last inked]
              exact cutAt _ _ around.document_eq
          | cons next rest =>
              obtain rfl := around.beforeBreak next rfl
              obtain ⟨lower, back, -, aroundLower, -⟩ := around.exists_next
              rw [around.placeBeside_below inked aroundLower]
              exact cutAt _ (lower ++ back) (by rw [aroundLower.document_eq, List.append_assoc])

/-- A block at a boundary replaces blank characters. -/
theorem exists_spells_spanWithBlankLines {document : Text} {offset : Nat}
    (boundary : document.isBoundary offset = true) (limit : Nat) (side : Side) :
    ∃ gap, allBlank gap = true ∧
      document.Spells (document.spanWithBlankLines offset limit side) gap := by
  have point : document.Spells (.point offset) [] := spells_point boundary
  obtain ⟨before, left, right, after, around, rfl⟩ := exists_aroundLine boundary
  by_cases empty : left ++ right = []
  · obtain ⟨rfl, rfl⟩ := List.append_eq_nil_iff.mp empty
    obtain ⟨front, gap, back, documentEq, blankGap, -, -, -, spanEq, -⟩ :=
      around.exists_blankRun limit side
    rw [List.append_nil, spanEq, size_append]
    exact ⟨gap, blankGap, front, back, documentEq, rfl⟩
  · rw [around.spanWithBlankLines_within empty]
    exact ⟨[], rfl, point⟩

/-- What a block at a boundary replaces lies between characters. -/
theorem fits_spanWithBlankLines {document : Text} {offset : Nat}
    (boundary : document.isBoundary offset = true) (limit : Nat) (side : Side) :
    (document.spanWithBlankLines offset limit side).Fits document := by
  obtain ⟨gap, -, spells⟩ := exists_spells_spanWithBlankLines boundary limit side
  exact spells.fits

end LatexTabular.Text
