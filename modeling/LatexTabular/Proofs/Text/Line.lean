import LatexTabular.Proofs.Text.Boundary
import LatexTabular.Text.Line

/-!
# Documents around their lines

A document is cut around one of its lines when line feeds or the ends of the document stand
on both sides and none stands within (`Text.AroundLine`).  Every boundary lies in exactly one
line (`Text.exists_aroundLine`, `Text.AroundLine.lineAt_eq`), so what the line functions
answer can be read off the document as a list of characters.
-/

namespace LatexTabular

namespace Text

/-- A document cut around one of its lines. -/
structure AroundLine (document before line after : Text) : Prop where
  document_eq : document = before ++ line ++ after
  unbroken : '\n' ∉ line
  behindBreak : ∀ last ∈ before.getLast?, last = '\n'
  beforeBreak : ∀ next ∈ after.head?, next = '\n'

/-- The line behind a text. -/
def lineBehind (before line : Text) : Line :=
  ⟨before.count '\n' + 1, ⟨before.size, before.size + line.size⟩⟩

theorem isEmpty_lineBehind (before line : Text) :
    (lineBehind before line).span.isEmpty = decide (line = []) := by
  have empty : before.size + line.size ≤ before.size ↔ line = [] := by
    rw [← size_eq_zero_iff]
    omega
  exact decide_eq_decide.mpr empty

theorem utf8Size_newline : '\n'.utf8Size = 1 := by decide

theorem size_newline : Text.size ['\n'] = 1 := by decide

theorem lastLine_append {before line : Text} (unbroken : '\n' ∉ line)
    (behindBreak : ∀ last ∈ before.getLast?, last = '\n') :
    lastLine (before ++ line) = line := by
  have stops : before.reverse.takeWhile (· != '\n') = [] := by
    rcases reversed : before.reverse with _ | ⟨last, rest⟩
    · rfl
    · have isLast : last ∈ before.getLast? := by
        rw [List.getLast?_eq_head?_reverse, reversed]
        rfl
      simp [behindBreak last isLast]
  unfold lastLine
  rw [List.reverse_append, List.takeWhile_append_of_pos, stops]
  · simp
  · intro character member
    have inLine : character ∈ line := List.mem_reverse.mp member
    simpa using fun isBreak : character = '\n' => unbroken (isBreak ▸ inLine)

theorem firstLine_append {line after : Text} (unbroken : '\n' ∉ line)
    (beforeBreak : ∀ next ∈ after.head?, next = '\n') :
    firstLine (line ++ after) = line := by
  have stops : after.takeWhile (· != '\n') = [] := by
    cases after with
    | nil => rfl
    | cons next rest => simp [beforeBreak next rfl]
  unfold firstLine
  rw [List.takeWhile_append_of_pos, stops, List.append_nil]
  intro character member
  simpa using fun isBreak : character = '\n' => unbroken (isBreak ▸ member)

/-- A text ends with its last line, behind a line feed or the start of the text. -/
theorem exists_eq_append_lastLine (text : Text) :
    ∃ before, text = before ++ lastLine text ∧ '\n' ∉ lastLine text ∧
      ∀ last ∈ before.getLast?, last = '\n' := by
  refine ⟨(text.reverse.dropWhile (· != '\n')).reverse, ?_, ?_, ?_⟩
  · unfold lastLine
    rw [← List.reverse_append, List.takeWhile_append_dropWhile, List.reverse_reverse]
  · intro member
    have := List.mem_takeWhile_imp (List.mem_reverse.mp member)
    simp at this
  · intro last isLast
    rw [List.getLast?_reverse] at isLast
    have := List.head?_dropWhile_not (· != '\n') text.reverse
    rw [isLast] at this
    simpa using this

/-- A text begins with its first line, in front of a line feed or the end of the text. -/
theorem exists_eq_firstLine_append (text : Text) :
    ∃ after, text = firstLine text ++ after ∧ '\n' ∉ firstLine text ∧
      ∀ next ∈ after.head?, next = '\n' := by
  refine ⟨text.dropWhile (· != '\n'), List.takeWhile_append_dropWhile.symm, ?_, ?_⟩
  · intro member
    have := List.mem_takeWhile_imp member
    simp at this
  · intro next isNext
    have := List.head?_dropWhile_not (· != '\n') text
    rw [isNext] at this
    simpa using this

/-- Where a document is cut in two, the cut lies in a line. -/
theorem exists_aroundLine_append (taken dropped : Text) :
    ∃ before left right after, taken = before ++ left ∧ dropped = right ++ after ∧
      AroundLine (taken ++ dropped) before (left ++ right) after := by
  obtain ⟨before, takenEq, unbrokenLeft, behindBreak⟩ := exists_eq_append_lastLine taken
  obtain ⟨after, droppedEq, unbrokenRight, beforeBreak⟩ := exists_eq_firstLine_append dropped
  refine ⟨before, lastLine taken, firstLine dropped, after, takenEq, droppedEq,
    ⟨?_, ?_, behindBreak, beforeBreak⟩⟩
  · conv => lhs; rw [takenEq, droppedEq]
    simp
  · simpa using ⟨unbrokenLeft, unbrokenRight⟩

/-- Every boundary of a document lies in a line. -/
theorem exists_aroundLine {document : Text} {offset : Nat}
    (boundary : document.isBoundary offset = true) :
    ∃ before left right after, AroundLine document before (left ++ right) after ∧
      offset = (before ++ left).size := by
  obtain ⟨taken, dropped, rfl, rfl⟩ := isBoundary_iff.mp boundary
  obtain ⟨before, left, right, after, takenEq, -, around⟩ := exists_aroundLine_append taken dropped
  exact ⟨before, left, right, after, around, congrArg size takenEq⟩

namespace AroundLine

variable {document before line after : Text}

/-- The line of each of its offsets. -/
theorem lineAt_eq {left right : Text} (around : AroundLine document before (left ++ right) after) :
    document.lineAt (before ++ left).size = lineBehind before (left ++ right) := by
  have parts : document = (before ++ left) ++ (right ++ after) := by
    simp [around.document_eq]
  have unbroken := around.unbroken
  rw [List.mem_append, not_or] at unbroken
  have taken : document.takeBytes (before ++ left).size = before ++ left := by
    rw [parts, takeBytes_size_append]
  have dropped : document.dropBytes (before ++ left).size = right ++ after := by
    rw [parts, dropBytes_size_append]
  simp only [lineAt, taken, dropped, lastLine_append unbroken.1 around.behindBreak,
    firstLine_append unbroken.2 around.beforeBreak, List.count_append,
    List.count_eq_zero_of_not_mem unbroken.1]
  simp only [lineBehind, Line.mk.injEq, Span.mk.injEq, size_append]
  exact ⟨trivial, by omega, by omega⟩

theorem lineAt_start (around : AroundLine document before line after) :
    document.lineAt before.size = lineBehind before line := by
  simpa using @lineAt_eq document before after [] line around

theorem lineAt_stop (around : AroundLine document before line after) :
    document.lineAt (before ++ line).size = lineBehind before line := by
  have ofAll := @lineAt_eq document before after line [] (by simpa using around)
  rwa [List.append_nil] at ofAll

theorem spells (around : AroundLine document before line after) :
    document.Spells (lineBehind before line).span line :=
  ⟨before, after, around.document_eq, rfl⟩

theorem text_eq (around : AroundLine document before line after) :
    (lineBehind before line).text document = line :=
  around.spells.slice_eq

theorem isBlank_eq (around : AroundLine document before line after) :
    (lineBehind before line).isBlank document = allBlank line := by
  rw [Line.isBlank, around.text_eq]

/-- A line of which nothing is in front is the first one. -/
theorem previous?_eq_none (line document : Text) :
    (lineBehind [] line).previous? document = none := by
  simp [Line.previous?, lineBehind]

/-- The line above a line ends in front of the line feed. -/
theorem previous?_eq {front above : Text}
    (aroundAbove : AroundLine document front above ('\n' :: (line ++ after))) :
    (lineBehind (front ++ above ++ ['\n']) line).previous? document
      = some (lineBehind front above) := by
  have startEq : (lineBehind (front ++ above ++ ['\n']) line).span.start
      = (front ++ above).size + 1 := by
    rw [lineBehind, size_append _ ['\n'], size_newline]
  rw [Line.previous?, startEq, if_pos (Nat.succ_pos _), Nat.add_sub_cancel]
  exact congrArg some aroundAbove.lineAt_stop

/-- A line that is not the first one has a line above it. -/
theorem exists_previous (around : AroundLine document before line after) (inner : before ≠ []) :
    ∃ front above, before = front ++ above ++ ['\n'] ∧
      AroundLine document front above ('\n' :: (line ++ after)) ∧
      (lineBehind before line).previous? document = some (lineBehind front above) := by
  obtain ⟨lines, last, rfl⟩ : ∃ lines last, before = lines ++ [last] :=
    ⟨before.dropLast, before.getLast inner, (List.dropLast_append_getLast inner).symm⟩
  obtain rfl : last = '\n' := around.behindBreak last (by simp)
  obtain ⟨front, linesEq, unbroken, behindBreak⟩ := exists_eq_append_lastLine lines
  have above : AroundLine document front (lastLine lines) ('\n' :: (line ++ after)) := by
    refine ⟨?_, unbroken, behindBreak, by simp⟩
    conv => lhs; rw [around.document_eq, linesEq]
    simp
  have found := above.previous?_eq
  rw [← linesEq] at found
  exact ⟨front, lastLine lines, by rw [← linesEq], above, found⟩

/-- A line behind which nothing stands is the last one. -/
theorem next?_eq_none (around : AroundLine document before line []) :
    (lineBehind before line).next? document = none := by
  have sizeEq := congrArg size around.document_eq
  simp only [size_append, size_nil, Nat.add_zero] at sizeEq
  simp [Line.next?, lineBehind, sizeEq]

/-- The line below a line starts behind the line feed. -/
theorem next?_eq {below back : Text}
    (aroundBelow : AroundLine document (before ++ line ++ ['\n']) below back) :
    (lineBehind before line).next? document
      = some (lineBehind (before ++ line ++ ['\n']) below) := by
  have inside : (lineBehind before line).span.stop < document.size := by
    rw [aroundBelow.document_eq]
    simp only [lineBehind, size_append, size_newline]
    omega
  have found := aroundBelow.lineAt_start
  rw [size_append, size_append, size_newline] at found
  rw [Line.next?, if_pos inside]
  exact congrArg some found

/-- A line with a line feed behind it has a line below it. -/
theorem exists_next {rest : Text} (around : AroundLine document before line ('\n' :: rest)) :
    ∃ below back, rest = below ++ back ∧
      AroundLine document (before ++ line ++ ['\n']) below back ∧
      (lineBehind before line).next? document
        = some (lineBehind (before ++ line ++ ['\n']) below) := by
  obtain ⟨back, restEq, unbroken, beforeBreak⟩ := exists_eq_firstLine_append rest
  have below : AroundLine document (before ++ line ++ ['\n']) (firstLine rest) back := by
    refine ⟨?_, unbroken, by simp, beforeBreak⟩
    conv => lhs; rw [around.document_eq, restEq]
    simp
  exact ⟨firstLine rest, back, restEq, below, below.next?_eq⟩

end AroundLine

end Text

end LatexTabular
