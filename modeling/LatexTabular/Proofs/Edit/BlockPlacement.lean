import LatexTabular.Proofs.Edit.Batch
import LatexTabular.Proofs.Text.Lines
import LatexTabular.Proofs.Text.Placement
import LatexTabular.Proofs.Text.WholeLine

/-!
# Blocks on lines of their own

A block placed beside an offset goes between lines of the document, in the place of blank ones
(`Text.Slot`, `Text.exists_slot`).  So its lines come directly above or below the line of the
offset, or in its place, and no line of the document is joined with another one
(`Text.block_on_own_lines`).
-/

namespace LatexTabular.Text

/-! ## Blank lines -/

/-- Lines that are not blank, trimmed. -/
def writtenLines (lines : List Text) : List Text := (lines.filter (!allBlank ·)).map trim

@[simp] theorem writtenLines_append (above below : List Text) :
    writtenLines (above ++ below) = writtenLines above ++ writtenLines below := by
  simp [writtenLines]

theorem writtenLines_of_blank {lines : List Text}
    (blank : ∀ line ∈ lines, allBlank line = true) : writtenLines lines = [] := by
  simpa [writtenLines] using blank

/-- The written lines depend on the trimmed lines only. -/
theorem writtenLines_congr {lines others : List Text}
    (same : lines.map trim = others.map trim) : writtenLines lines = writtenLines others := by
  have trimmed (lines : List Text) :
      writtenLines lines = (lines.map trim).filter (· ≠ []) := by
    rw [writtenLines, List.filter_map]
    congr 2
    funext line
    simp [trim_eq_nil_iff]
  rw [trimmed, trimmed, same]

/-- Blank characters in front of a text belong to its first line. -/
theorem map_trim_lines_append_left {left : Text} (blank : allBlank left = true)
    (unbroken : '\n' ∉ left) (text : Text) :
    (lines (left ++ text)).map trim = (lines text).map trim := by
  obtain ⟨after, textEq, unbrokenFirst, beforeBreak⟩ := exists_eq_firstLine_append text
  generalize firstLine text = first at textEq unbrokenFirst
  subst textEq
  have trimmed := trim_append_append blank (rfl : allBlank [] = true) first
  rw [List.append_nil] at trimmed
  rw [← List.append_assoc, lines_append_of_beforeBreak beforeBreak,
    lines_append_of_beforeBreak beforeBreak, lines_of_unbroken unbrokenFirst,
    lines_of_unbroken (by simpa using ⟨unbroken, unbrokenFirst⟩)]
  simp [trimmed]

/-- Blank characters behind a text belong to its last line. -/
theorem map_trim_lines_append_right {right : Text} (blank : allBlank right = true)
    (unbroken : '\n' ∉ right) (text : Text) :
    (lines (text ++ right)).map trim = (lines text).map trim := by
  obtain ⟨before, textEq, unbrokenLast, behindBreak⟩ := exists_eq_append_lastLine text
  generalize lastLine text = last at textEq unbrokenLast
  subst textEq
  have trimmed := trim_append_append (rfl : allBlank [] = true) blank last
  rw [List.nil_append] at trimmed
  rw [List.append_assoc, lines_append_of_behindBreak behindBreak,
    lines_append_of_behindBreak behindBreak, lines_of_unbroken unbrokenLast,
    lines_of_unbroken (by simpa using ⟨unbrokenLast, unbroken⟩)]
  simp [trimmed]

/-! ## Places for a block -/

/-- A place between lines of a document, where a block of lines replaces blank lines and shares no
line with other text. -/
structure Slot (document : Text) (span : Span) (lead trail : Text)
    (above blanks below : List Text) : Prop where
  lines_eq : document.lines = above ++ blanks ++ below
  blank : ∀ line ∈ blanks, allBlank line = true
  takesBlock : ∀ block, ∃ result placed,
    Batch.apply document [⟨span, lead ++ block ++ trail⟩] = .ok result ∧
      result.lines = above ++ placed ++ below ∧ placed.map trim = block.lines.map trim

namespace Slot

variable {document : Text}

/-- Between two ends of lines a block has lines of its own. -/
theorem between {front gap back lead trail : Text} {above blanks below : List Text}
    (behindBreak : ∀ last ∈ (front ++ lead).getLast?, last = '\n')
    (beforeBreak : ∀ next ∈ (trail ++ back).head?, next = '\n')
    (aboveEq : closedLines (front ++ lead) = above) (belowEq : openLines (trail ++ back) = below)
    (linesEq : lines (front ++ gap ++ back) = above ++ blanks ++ below)
    (blank : ∀ line ∈ blanks, allBlank line = true) :
    Slot (front ++ gap ++ back) ⟨front.size, (front ++ gap).size⟩ lead trail above blanks below := by
  subst aboveEq belowEq
  refine ⟨linesEq, blank, ?_⟩
  intro block
  refine ⟨_, lines block, Batch.apply_singleton front gap back _, ?_, rfl⟩
  rw [← lines_between behindBreak beforeBreak block]
  simp

/-- A block can go in the place of a run of blank lines. -/
theorem of_blankLines {front gap back : Text} (behindBreak : ∀ last ∈ front.getLast?, last = '\n')
    (beforeBreak : ∀ next ∈ back.head?, next = '\n') (blank : allBlank gap = true) :
    Slot (front ++ gap ++ back) ⟨front.size, (front ++ gap).size⟩ [] []
      (closedLines front) (lines gap) (openLines back) := by
  have closed : ∀ last ∈ (front ++ []).getLast?, last = '\n' := by simpa using behindBreak
  have aboveEq : closedLines (front ++ []) = closedLines front := by rw [List.append_nil]
  exact between closed beforeBreak aboveEq rfl (lines_between behindBreak beforeBreak gap)
    fun _ member => allBlank_of_mem_lines blank member

variable {before line left right after : Text}

/-- A block can go behind a line with text, on the other side of a new line feed. -/
theorem behind_line (around : AroundLine document before line after) (nonempty : line ≠ [])
    (limit : Nat) (side : Side) :
    Slot document (document.spanWithBlankLines (before ++ line).size limit side) ['\n'] []
      (lines (before ++ line)) [] (openLines after) := by
  have atStop : document.spanWithBlankLines (before ++ line).size limit side
      = ⟨(before ++ line).size, (before ++ line ++ []).size⟩ := by
    rw [around.spanWithBlankLines_stop nonempty, List.append_nil]
    rfl
  have documentEq : document = before ++ line ++ [] ++ after := by simp [around.document_eq]
  have linesEq := lines_append_of_beforeBreak around.beforeBreak (before ++ line)
  rw [atStop, documentEq]
  exact between (by simp) around.beforeBreak (closedLines_append_newline _) rfl
    (by simpa using linesEq) (by simp)

/-- A block can go in front of a line with text, on the other side of a new line feed. -/
theorem before_line (around : AroundLine document before line after) (nonempty : line ≠ [])
    (limit : Nat) (side : Side) :
    Slot document (document.spanWithBlankLines before.size limit side) [] ['\n']
      (closedLines before) [] (lines (line ++ after)) := by
  have atStart : document.spanWithBlankLines before.size limit side
      = ⟨before.size, (before ++ []).size⟩ := by
    rw [around.spanWithBlankLines_start nonempty, List.append_nil]
    rfl
  have documentEq : document = before ++ [] ++ (line ++ after) := by simp [around.document_eq]
  have linesEq := lines_append_of_behindBreak around.behindBreak (line ++ after)
  have closed : ∀ last ∈ (before ++ []).getLast?, last = '\n' := by simpa using around.behindBreak
  rw [atStart, documentEq]
  exact between closed (by simp) (by rw [List.append_nil]) (openLines_newline_cons _)
    (by simpa using linesEq) (by simp)

/-- A block can go in the place of a blank line, between the blank characters there. -/
theorem within_line (around : AroundLine document before (left ++ right) after)
    (blank : allBlank (left ++ right) = true) :
    Slot document (.point (before ++ left).size) [] [] (closedLines before) [left ++ right]
      (openLines after) := by
  refine ⟨by simp [around.lines_eq], by simpa using blank, ?_⟩
  intro block
  have documentEq : document = before ++ left ++ [] ++ (right ++ after) := by
    simp [around.document_eq]
  have placed := Batch.apply_singleton (before ++ left) [] (right ++ after) block
  rw [← documentEq, List.append_nil] at placed
  obtain ⟨unbrokenLeft, unbrokenRight⟩ : '\n' ∉ left ∧ '\n' ∉ right := by
    simpa using around.unbroken
  obtain ⟨blankLeft, blankRight⟩ : allBlank left = true ∧ allBlank right = true := by
    simpa [allBlank] using blank
  refine ⟨_, lines (left ++ block ++ right), by simpa [Span.point] using placed, ?_, ?_⟩
  · rw [← lines_between around.behindBreak around.beforeBreak]
    simp
  · rw [map_trim_lines_append_right blankRight unbrokenRight,
      map_trim_lines_append_left blankLeft unbrokenLeft]

end Slot

namespace AroundLine

variable {document before left right after : Text}

/-- On an empty line a block takes the place of that line and of blank lines next to it. -/
theorem exists_slot_of_empty (around : AroundLine document before [] after) (limit : Nat)
    (side : Side) :
    ∃ above blanks below,
      Slot document (document.spanWithBlankLines before.size limit side) [] [] above blanks below ∧
      blanks ≠ [] ∧ blanks.length ≤ limit + 1 ∧
      (side = .above → before.count '\n' + 1 = above.length + blanks.length) ∧
      (side = .below → before.count '\n' = above.length) := by
  obtain ⟨front, gap, back, rfl, blank, few, behindBreak, beforeBreak, spanEq, aboveEq, belowEq⟩ :=
    around.exists_blankRun limit side
  rw [spanEq]
  refine ⟨closedLines front, lines gap, openLines back,
    Slot.of_blankLines behindBreak beforeBreak blank, lines_ne_nil gap, ?_, ?_, ?_⟩
  · simpa [length_lines] using few
  · intro isAbove
    rw [← aboveEq isAbove, List.count_append, length_closedLines, length_lines, Nat.add_assoc]
  · intro isBelow
    rw [← belowEq isBelow, length_closedLines]

/-- On a blank line a block takes the place of that line. -/
theorem exists_slot_of_blank (around : AroundLine document before (left ++ right) after)
    (blank : allBlank (left ++ right) = true) (limit : Nat) (side : Side) :
    ∃ above blanks below,
      Slot document (document.spanWithBlankLines (before ++ left).size limit side) [] []
        above blanks below ∧ blanks.length ≤ limit + 1 ∧
      above.length ≤ before.count '\n' ∧ before.count '\n' < above.length + blanks.length := by
  by_cases empty : left ++ right = []
  · obtain ⟨rfl, rfl⟩ := List.append_eq_nil_iff.mp empty
    obtain ⟨above, blanks, below, slot, several, few, ofAbove, ofBelow⟩ :=
      around.exists_slot_of_empty limit side
    have positive := List.length_pos_of_ne_nil several
    rw [List.append_nil]
    refine ⟨above, blanks, below, slot, few, ?_⟩
    cases side with
    | above =>
        have := ofAbove rfl
        omega
    | below =>
        have := ofBelow rfl
        omega
  · rw [around.spanWithBlankLines_within empty]
    refine ⟨_, _, _, Slot.within_line around blank, ?_, ?_, ?_⟩
    · simp
    · rw [length_closedLines]
    · rw [length_closedLines, List.length_singleton]
      exact Nat.lt_succ_self _

/-- Above a line with text a block goes to the end of the line above. -/
theorem exists_slot_above (around : AroundLine document before (left ++ right) after)
    (inked : allBlank (left ++ right) = false) (limit : Nat) :
    ∃ above blanks below,
      Slot document
        (document.spanWithBlankLines (document.placeBeside (before ++ left).size .above).offset
          limit .above)
        (document.placeBeside (before ++ left).size .above).lead
        (document.placeBeside (before ++ left).size .above).trail above blanks below ∧
      blanks.length ≤ limit + 1 ∧ before.count '\n' = above.length + blanks.length := by
  by_cases first : before = []
  · subst first
    rw [List.nil_append, around.placeBeside_first inked]
    exact ⟨_, _, _, Slot.before_line around (ne_nil_of_not_allBlank inked) limit .above,
      Nat.zero_le _, rfl⟩
  · obtain ⟨front, upper, beforeEq, aroundUpper, -⟩ := around.exists_previous first
    have unbroken := List.count_eq_zero_of_not_mem aroundUpper.unbroken
    rw [around.placeBeside_above inked beforeEq aroundUpper, beforeEq]
    by_cases empty : upper = []
    · subst empty
      obtain ⟨above, blanks, below, slot, -, few, ofAbove, -⟩ :=
        aroundUpper.exists_slot_of_empty limit .above
      refine ⟨above, blanks, below, by simpa using slot, few, ?_⟩
      simpa using ofAbove rfl
    · rw [if_neg empty]
      refine ⟨_, _, _, Slot.behind_line aroundUpper empty limit .above, Nat.zero_le _, ?_⟩
      simp [length_lines, unbroken]

/-- Below a line with text a block goes to the start of the line below. -/
theorem exists_slot_below (around : AroundLine document before (left ++ right) after)
    (inked : allBlank (left ++ right) = false) (limit : Nat) :
    ∃ above blanks below,
      Slot document
        (document.spanWithBlankLines (document.placeBeside (before ++ left).size .below).offset
          limit .below)
        (document.placeBeside (before ++ left).size .below).lead
        (document.placeBeside (before ++ left).size .below).trail above blanks below ∧
      blanks.length ≤ limit + 1 ∧ before.count '\n' + 1 = above.length := by
  have unbroken := List.count_eq_zero_of_not_mem around.unbroken
  cases after with
  | nil =>
      have nonempty := ne_nil_of_not_allBlank inked
      rw [around.placeBeside_last inked]
      refine ⟨_, _, _, Slot.behind_line around nonempty limit .below, Nat.zero_le _, ?_⟩
      rw [length_lines, List.count_append, unbroken]
  | cons next rest =>
      obtain rfl := around.beforeBreak next rfl
      obtain ⟨lower, back, -, aroundLower, -⟩ := around.exists_next
      rw [around.placeBeside_below inked aroundLower]
      by_cases empty : lower = []
      · subst empty
        obtain ⟨above, blanks, below, slot, -, few, -, ofBelow⟩ :=
          aroundLower.exists_slot_of_empty limit .below
        refine ⟨above, blanks, below, slot, few, ?_⟩
        rw [← ofBelow rfl, List.count_append, List.count_append, unbroken]
        rfl
      · rw [if_neg empty]
        refine ⟨_, _, _, Slot.before_line aroundLower empty limit .below, Nat.zero_le _, ?_⟩
        rw [length_closedLines, List.count_append, List.count_append, unbroken]
        rfl

end AroundLine

/-! ## Placing a block -/

/-- A block beside an offset, on lines of its own, in the place of up to `limit` blank lines
beyond that. -/
def blockEdit (document : Text) (offset limit : Nat) (side : Side) (block : Text) : Edit :=
  let place := document.placeBeside offset side
  ⟨document.spanWithBlankLines place.offset limit side, place.lead ++ block ++ place.trail⟩

/-- Where blank lines stand in a document seen from one of its lines: around the line if that is
blank, or else next to it on one side. -/
structure Beside (document : Text) (line : Line) (side : Side) (above blanks : List Text) :
    Prop where
  in_place : line.isBlank document = true →
    above.length < line.number ∧ line.number ≤ above.length + blanks.length
  directly_above : line.isBlank document = false → side = .above →
    line.number = above.length + blanks.length + 1
  directly_below : line.isBlank document = false → side = .below → line.number = above.length

/-- How many lines of a document come before a block beside one of them, blank lines apart. -/
def linesAbove (document : Text) (line : Line) (side : Side) : Nat :=
  if side = .below ∧ line.isBlank document = false then line.number else line.number - 1

theorem Beside.linesAbove_within {document : Text} {line : Line} {side : Side}
    {above blanks : List Text} (beside : Beside document line side above blanks) :
    above.length ≤ linesAbove document line side ∧
      linesAbove document line side ≤ above.length + blanks.length := by
  unfold linesAbove
  cases isBlank : line.isBlank document with
  | true =>
      have := beside.in_place isBlank
      simp only [Bool.true_eq_false, and_false, if_false]
      omega
  | false =>
      cases side with
      | above =>
          have := beside.directly_above isBlank rfl
          simp only [reduceCtorEq, false_and, if_false]
          omega
      | below =>
          have := beside.directly_below isBlank rfl
          simp only [and_self, if_true]
          omega

/-- A document with the lines of a block in the place of blank lines beside one of its lines. -/
structure PlacesBlock (document : Text) (line : Line) (limit : Nat) (side : Side)
    (block result : Text) (above blanks placed below : List Text) : Prop where
  document_lines : document.lines = above ++ blanks ++ below
  result_lines : result.lines = above ++ placed ++ below
  placed_lines : placed.map trim = block.lines.map trim
  blank : ∀ line ∈ blanks, allBlank line = true
  few : blanks.length ≤ limit + 1
  beside : Beside document line side above blanks

/-- The written lines of a block come between those of the document. -/
theorem PlacesBlock.writtenLines_eq {document block result : Text} {line : Line} {limit : Nat}
    {side : Side} {above blanks placed below : List Text}
    (places : PlacesBlock document line limit side block result above blanks placed below) :
    writtenLines result.lines
      = writtenLines (document.lines.take (linesAbove document line side))
        ++ writtenLines block.lines
        ++ writtenLines (document.lines.drop (linesAbove document line side)) := by
  obtain ⟨behind, upTo⟩ := places.beside.linesAbove_within
  -- The cut may lie between two of the blank lines.
  obtain ⟨upper, lower, rfl, lengthEq⟩ : ∃ upper lower, blanks = upper ++ lower ∧
      linesAbove document line side = (above ++ upper).length := by
    refine ⟨_, _, (List.take_append_drop (linesAbove document line side - above.length) _).symm, ?_⟩
    rw [List.length_append, List.length_take]
    omega
  have blankUpper : ∀ line ∈ upper, allBlank line = true :=
    fun line member => places.blank line (List.mem_append_left _ member)
  have blankLower : ∀ line ∈ lower, allBlank line = true :=
    fun line member => places.blank line (List.mem_append_right _ member)
  have linesEq : document.lines = (above ++ upper) ++ (lower ++ below) := by
    rw [places.document_lines]
    simp
  rw [linesEq, lengthEq, List.take_left, List.drop_left, places.result_lines]
  simp only [writtenLines_append, writtenLines_of_blank blankUpper,
    writtenLines_of_blank blankLower, writtenLines_congr places.placed_lines, List.append_nil,
    List.nil_append]

/-- Beside a boundary there is a place for a block. -/
theorem exists_slot {document : Text} {offset : Nat}
    (boundary : document.isBoundary offset = true) (limit : Nat) (side : Side) :
    ∃ above blanks below,
      Slot document
        (document.spanWithBlankLines (document.placeBeside offset side).offset limit side)
        (document.placeBeside offset side).lead (document.placeBeside offset side).trail
        above blanks below ∧
      blanks.length ≤ limit + 1 ∧ Beside document (document.lineAt offset) side above blanks := by
  obtain ⟨before, left, right, after, around, rfl⟩ := exists_aroundLine boundary
  have isBlankEq := around.isBlank_eq
  rw [around.lineAt_eq]
  cases blank : allBlank (left ++ right) with
  | true =>
      rw [blank] at isBlankEq
      obtain ⟨above, blanks, below, slot, few, begins, ends⟩ :=
        around.exists_slot_of_blank blank limit side
      rw [around.placeBeside_of_blank blank]
      refine ⟨above, blanks, below, slot, few, ?_, ?_, ?_⟩
      · intro _
        exact ⟨Nat.lt_succ_of_le begins, ends⟩
      · simp [isBlankEq]
      · simp [isBlankEq]
  | false =>
      rw [blank] at isBlankEq
      cases side with
      | above =>
          obtain ⟨above, blanks, below, slot, few, lengthEq⟩ := around.exists_slot_above blank limit
          refine ⟨above, blanks, below, slot, few, by simp [isBlankEq], ?_, by simp⟩
          intro _ _
          rw [lineBehind, lengthEq]
      | below =>
          obtain ⟨above, blanks, below, slot, few, lengthEq⟩ := around.exists_slot_below blank limit
          exact ⟨above, blanks, below, slot, few, by simp [isBlankEq], by simp, fun _ _ => lengthEq⟩

/-- A block beside an offset replaces blank characters and gets lines of its own.  The lines of the
document stay whole and in order, apart from the blank ones that it replaces: up to `limit` of them
and one in its own place. -/
theorem block_on_own_lines {document : Text} {offset : Nat}
    (boundary : document.isBoundary offset = true) (limit : Nat) (side : Side) (block : Text) :
    (blockEdit document offset limit side block).span.Fits document ∧
      allBlank (document.slice (blockEdit document offset limit side block).span) = true ∧
      document.lines[(document.lineAt offset).number - 1]?
        = some ((document.lineAt offset).text document) ∧
      ∃ result above blanks placed below,
        Batch.apply document [blockEdit document offset limit side block] = .ok result ∧
        PlacesBlock document (document.lineAt offset) limit side block result
          above blanks placed below ∧
        writtenLines result.lines
          = writtenLines (document.lines.take (linesAbove document (document.lineAt offset) side))
            ++ writtenLines block.lines
            ++ writtenLines (document.lines.drop
              (linesAbove document (document.lineAt offset) side)) := by
  have atPlace := isBoundary_placeBeside boundary side
  obtain ⟨gap, blankGap, spells⟩ := exists_spells_spanWithBlankLines atPlace limit side
  obtain ⟨above, blanks, below, slot, few, beside⟩ := exists_slot boundary limit side
  obtain ⟨result, placed, applied, resultLines, placedLines⟩ := slot.takesBlock block
  have places : PlacesBlock document (document.lineAt offset) limit side block result
      above blanks placed below :=
    ⟨slot.lines_eq, resultLines, placedLines, slot.blank, few, beside⟩
  refine ⟨spells.fits, ?_, getElem?_lines_lineAt boundary, result, above, blanks, placed, below,
    applied, places, places.writtenLines_eq⟩
  simpa only [blockEdit, spells.slice_eq] using blankGap

/-- A block below the first line of a document, with two of the blank lines there replaced. -/
theorem block_on_own_lines_belowFirst :
    Text.isBoundary "é\n\n \n\nb".toList 2 = true ∧ ∃ result,
      Batch.apply "é\n\n \n\nb".toList [blockEdit "é\n\n \n\nb".toList 2 1 .below "x\ny".toList]
        = .ok result ∧
      writtenLines result.lines = ["é".toList, "x".toList, "y".toList, "b".toList] := by
  have boundary : Text.isBoundary "é\n\n \n\nb".toList 2 = true := by decide
  obtain ⟨-, -, -, result, -, -, -, -, applied, -, written⟩ :=
    block_on_own_lines boundary 1 .below "x\ny".toList
  refine ⟨boundary, result, applied, ?_⟩
  rw [written]
  decide

end LatexTabular.Text
