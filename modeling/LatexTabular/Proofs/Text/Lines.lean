import LatexTabular.Proofs.Text.Line

/-!
# The lines of a text

The line feeds of a text cut it into its lines.  What ends with a line feed or stands at the start
of a document has lines of its own, and so has what begins with a line feed or stands at the end
(`Text.lines_between`); a text between two of them shares no line with them.  The line of an offset
is the one with its number (`Text.AroundLine.lines_eq`).
-/

namespace LatexTabular.Text

/-- The lines of a text, without their line feeds. -/
def lines (text : Text) : List Text := text.splitOn '\n'

/-- The lines of a text that ends with a line feed, or of an empty one. -/
def closedLines (text : Text) : List Text := text.lines.dropLast

/-- The lines of a text that begins with a line feed, or of an empty one. -/
def openLines (text : Text) : List Text := text.lines.tail

@[simp] theorem closedLines_nil : closedLines [] = [] := rfl

@[simp] theorem openLines_nil : openLines [] = [] := rfl

theorem lines_ne_nil (text : Text) : lines text ≠ [] := List.splitOn_ne_nil _ _

theorem lines_append_newline (left right : Text) :
    lines (left ++ '\n' :: right) = lines left ++ lines right :=
  List.splitOn_append_cons_self left right

@[simp] theorem lines_newline_cons (text : Text) : lines ('\n' :: text) = [] :: lines text :=
  lines_append_newline [] text

theorem lines_cons {head : Char} (noBreak : head ≠ '\n') (text : Text) :
    lines (head :: text) = (lines text).modifyHead (head :: ·) := by
  rw [lines, List.splitOn_cons_eq_if_modifyHead, if_neg (by simpa using noBreak)]
  rfl

@[simp] theorem closedLines_append_newline (text : Text) :
    closedLines (text ++ ['\n']) = lines text := by
  rw [closedLines, lines_append_newline]
  exact List.dropLast_concat

@[simp] theorem openLines_newline_cons (text : Text) : openLines ('\n' :: text) = lines text := by
  rw [openLines, lines_newline_cons, List.tail_cons]

theorem lines_of_unbroken {line : Text} (unbroken : '\n' ∉ line) : lines line = [line] := by
  have closed := List.splitOn_append_cons_self_of_not_mem unbroken []
  have appended := lines_append_newline line []
  rw [lines, closed] at appended
  exact (List.append_cancel_right appended).symm

/-- There is one line more than there are line feeds. -/
theorem length_lines (text : Text) : text.lines.length = text.count '\n' + 1 := by
  induction text with
  | nil => rfl
  | cons head rest ih =>
      by_cases isBreak : head = '\n'
      · rw [isBreak, lines_newline_cons, List.length_cons, ih, List.count_cons_self]
      · rw [lines_cons isBreak, List.length_modifyHead, ih, List.count_cons_of_ne isBreak]

/-- The lines of a blank text are blank. -/
theorem allBlank_of_mem_lines {text line : Text} (blank : allBlank text = true)
    (member : line ∈ text.lines) : allBlank line = true := by
  induction text generalizing line with
  | nil =>
      rw [List.mem_singleton.mp member]
      rfl
  | cons head rest ih =>
      obtain ⟨blankHead, blankRest⟩ : isBlank head = true ∧ allBlank rest = true := by
        simpa [allBlank] using blank
      by_cases isBreak : head = '\n'
      · rw [isBreak, lines_newline_cons] at member
        rcases List.mem_cons.mp member with rfl | inRest
        · rfl
        · exact ih blankRest inRest
      · obtain ⟨first, others, linesEq⟩ := List.exists_cons_of_ne_nil (lines_ne_nil rest)
        rw [lines_cons isBreak, linesEq, List.modifyHead_cons] at member
        rw [linesEq] at ih
        rcases List.mem_cons.mp member with rfl | inRest
        · have blankFirst := ih blankRest List.mem_cons_self
          simp only [allBlank] at blankFirst ⊢
          simp [blankHead, blankFirst]
        · exact ih blankRest (List.mem_cons_of_mem _ inRest)

theorem length_closedLines (text : Text) : (closedLines text).length = text.count '\n' := by
  rw [closedLines, List.length_dropLast, length_lines, Nat.add_sub_cancel]

section Between

variable {before after : Text}

theorem lines_append_of_behindBreak (behindBreak : ∀ last ∈ before.getLast?, last = '\n')
    (text : Text) : lines (before ++ text) = closedLines before ++ lines text := by
  rcases List.eq_nil_or_concat before with rfl | ⟨init, last, rfl⟩
  · rfl
  · obtain rfl := behindBreak last (by simp)
    rw [List.concat_eq_append, closedLines_append_newline, List.append_assoc, List.singleton_append,
      lines_append_newline]

theorem lines_append_of_beforeBreak (beforeBreak : ∀ next ∈ after.head?, next = '\n')
    (text : Text) : lines (text ++ after) = lines text ++ openLines after := by
  cases after with
  | nil => simp
  | cons next rest =>
      obtain rfl := beforeBreak next rfl
      rw [openLines_newline_cons, lines_append_newline]

/-- A text between ends of lines has lines of its own. -/
theorem lines_between (behindBreak : ∀ last ∈ before.getLast?, last = '\n')
    (beforeBreak : ∀ next ∈ after.head?, next = '\n') (text : Text) :
    lines (before ++ text ++ after) = closedLines before ++ lines text ++ openLines after := by
  rw [lines_append_of_beforeBreak beforeBreak, lines_append_of_behindBreak behindBreak]

end Between

namespace AroundLine

variable {document before line after : Text}

/-- The lines of a document, cut around one of them. -/
theorem lines_eq (around : AroundLine document before line after) :
    document.lines = closedLines before ++ line :: openLines after := by
  rw [around.document_eq, lines_between around.behindBreak around.beforeBreak,
    lines_of_unbroken around.unbroken, List.append_assoc, List.singleton_append]

end AroundLine

/-- The line of an offset is the one with its number. -/
theorem getElem?_lines_lineAt {document : Text} {offset : Nat}
    (boundary : document.isBoundary offset = true) :
    document.lines[(document.lineAt offset).number - 1]?
      = some ((document.lineAt offset).text document) := by
  obtain ⟨before, left, right, after, around, rfl⟩ := exists_aroundLine boundary
  have front : (lineBehind before (left ++ right)).number - 1 = (closedLines before).length := by
    rw [lineBehind, Nat.add_sub_cancel, length_closedLines]
  rw [around.lineAt_eq, around.text_eq, front, around.lines_eq]
  simp

end LatexTabular.Text
