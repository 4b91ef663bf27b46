import LatexTabular.Proofs.Markup.Comment
import LatexTabular.Proofs.Markup.Environment
import LatexTabular.Proofs.Sheet.Rows

/-!
# Delimiters of a sheet

The only delimiters of a sheet are those of its tabular, so that the tabular is
its only environment (`environments_text`).
-/

namespace LatexTabular

open Markup Body

namespace Markup

/-- However a text goes on, no delimiter starts in it. -/
def Undelimited (text : Text) : Prop :=
  ∀ offset rest, delimitersFrom offset (text ++ rest) = delimitersFrom (offset + text.size) rest

theorem undelimited_of_notMem {text : Text} (plain : '\\' ∉ text) : Undelimited text :=
  fun offset rest => delimitersFrom_append_of_notMem offset rest plain

theorem Undelimited.append {left right : Text} (first : Undelimited left)
    (second : Undelimited right) : Undelimited (left ++ right) := by
  intro offset rest
  rw [List.append_assoc, first, second, Text.size_append, Nat.add_assoc]

/-- Delimiters have a `b` or an `e` behind their backslash. -/
theorem delimiter?_eq_none_of_second {offset : Nat} {second : Char} {rest : Text}
    (notBegin : second ≠ 'b') (notEnd : second ≠ 'e') :
    delimiter? offset ('\\' :: second :: rest) = none := by
  have noBegin : Text.after? "\\begin".toList ('\\' :: second :: rest) = none := by
    simp [Text.after?, Ne.symm notBegin]
  have noEnd : Text.after? "\\end".toList ('\\' :: second :: rest) = none := by
    simp [Text.after?, Ne.symm notEnd]
  simp only [delimiter?, noBegin, noEnd]
  rfl

/-- Another command is no delimiter. -/
theorem undelimited_command {second : Char} {rest : Text} (notBegin : second ≠ 'b')
    (notEnd : second ≠ 'e') (plain : '\\' ∉ second :: rest) :
    Undelimited ('\\' :: second :: rest) := by
  intro offset following
  have none : delimiter? offset ('\\' :: (second :: rest ++ following)) = none :=
    delimiter?_eq_none_of_second notBegin notEnd
  rw [List.cons_append, delimitersFrom, none, Text.size_cons, ← Nat.add_assoc]
  exact delimitersFrom_append_of_notMem _ following plain

theorem bracedName?_of_letters {name : Text} (rest : Text) (nonempty : name ≠ [])
    (letters : name.all Text.isLetter = true) :
    bracedName? ('{' :: name ++ '}' :: rest) = some name := by
  have taken : (name ++ '}' :: rest).takeWhile Text.isLetter = name := by
    have closes : Text.isLetter '}' = false := by decide
    rw [List.takeWhile_append_of_pos (List.all_eq_true.mp letters),
      List.takeWhile_cons_of_neg (by simp [closes]), List.append_nil]
  rw [List.cons_append]
  simp only [bracedName?, taken, List.drop_left]

/-- A delimiter as it is written. -/
def delimiterText (opens : Bool) (name : Text) : Text :=
  '\\' :: ((if opens then "begin".toList else "end".toList) ++ ('{' :: name ++ ['}']))

/-- A delimiter is read where it is written, and the next one stands behind it. -/
theorem delimitersFrom_delimiterText (opens : Bool) {name : Text}
    (named : ∀ rest, bracedName? ('{' :: name ++ '}' :: rest) = some name) (plain : '\\' ∉ name)
    (offset : Nat) (rest : Text) :
    delimitersFrom offset (delimiterText opens name ++ rest)
      = ⟨opens, name, ⟨offset, offset + (delimiterText opens name).size⟩⟩
        :: delimitersFrom (offset + (delimiterText opens name).size) rest := by
  have noGap : ('{' :: name ++ '}' :: rest).takeWhile Text.isBlank = [] := by
    have blank : Text.isBlank '{' = false := by decide
    exact List.takeWhile_cons_of_neg (by simp [blank])
  have braces : Text.size ('{' :: name ++ ['}']) = name.size + 2 := by
    have opened : '{'.utf8Size = 1 := by decide
    have closed : Text.size ['}'] = 1 := by decide
    rw [Text.size_append, Text.size_cons, opened, closed]
    omega
  have size : (delimiterText opens name).size
      = Text.size (if opens then "\\begin".toList else "\\end".toList) + name.size + 2 := by
    rw [Nat.add_assoc, ← braces, ← Text.size_append]
    cases opens <;> rfl
  have textEq : delimiterText opens name ++ rest
      = (if opens then "\\begin".toList else "\\end".toList) ++ ('{' :: name ++ '}' :: rest) := by
    cases opens <;> simp [delimiterText]
  have read := after?_append (if opens then "\\begin".toList else "\\end".toList)
    ('{' :: name ++ '}' :: rest)
  have found : delimiter? offset (delimiterText opens name ++ rest)
      = some ⟨opens, name, ⟨offset, offset + (delimiterText opens name).size⟩⟩ := by
    have stop : offset + Text.size (if opens then "\\begin".toList else "\\end".toList)
        + Text.size [] + name.size + 2 = offset + (delimiterText opens name).size := by
      rw [size, Text.size_nil]
      omega
    rw [textEq, ← stop]
    cases opens with
    | true =>
        simp only [if_true] at read
        simp only [delimiter?, if_true, read, Option.bind_eq_bind, Option.bind_some, noGap,
          List.length_nil, List.drop_zero, named]
        rfl
    | false =>
        have noBegin : Text.after? "\\begin".toList
            ("\\end".toList ++ ('{' :: name ++ '}' :: rest)) = none := by
          simp [Text.after?]
        simp only [Bool.false_eq_true, if_false] at read
        simp only [delimiter?, Bool.false_eq_true, if_false, noBegin, read, Option.bind_eq_bind,
          Option.bind_some, noGap, List.length_nil, List.drop_zero, named]
        rfl
  have tail : '\\' ∉ (if opens then "begin".toList else "end".toList) ++ ('{' :: name ++ ['}']) := by
    cases opens <;> simp [plain]
  unfold delimiterText at found ⊢
  rw [List.cons_append] at found ⊢
  rw [delimitersFrom, found, delimitersFrom_append_of_notMem _ rest tail, Text.size_cons,
    Nat.add_assoc]

end Markup

theorem notMem_of_isOrdinary {text : Text} {character : Char}
    (special : Text.isOrdinary character = false)
    (ordinary : ∀ other ∈ text, Text.isOrdinary other = true) : character ∉ text := by
  intro member
  rw [ordinary character member] at special
  exact Bool.noConfusion special

theorem undelimited_of_isOrdinary {text : Text}
    (ordinary : ∀ character ∈ text, Text.isOrdinary character = true) : Undelimited text :=
  undelimited_of_notMem (notMem_of_isOrdinary (by decide) ordinary)

theorem undelimited_of_isSpace {text : Text} (space : text.IsSpace) : Undelimited text :=
  undelimited_of_isOrdinary fun character member => isOrdinary_of_isSpace (space character member)

namespace Entry

/-- The characters of a merge behind its backslash are letters, braces and those
of its arguments. -/
theorem notMem_tail_text {number specifier content : Text} {character : Char}
    (wellFormed : (merged number specifier content).WellFormed)
    (special : character = '\\' ∨ character = '%') :
    character ∉ (merged number specifier content).text.tail := by
  have notOrdinary : Text.isOrdinary character = false := by
    rcases special with rfl | rfl <;> decide
  have inNumber := notMem_of_isOrdinary notOrdinary
    fun other member => isOrdinary_of_isDigit (wellFormed.1.2 other member)
  have inSpecifier := notMem_of_isOrdinary notOrdinary
    (isOrdinary_of_isBarred wellFormed.2.2.2.1)
  have inContent := notMem_of_isOrdinary notOrdinary wellFormed.2.2.2.2.ordinary
  have inName : character ∉ MergeText.name := by
    rcases special with rfl | rfl <;> decide
  have notBrace : character ≠ '{' ∧ character ≠ '}' := by
    rcases special with rfl | rfl <;> decide
  simp [text, MergeText.text, MergeText.preamble, mergeText, inNumber, inSpecifier, inContent,
    inName, notBrace]

theorem undelimited_text {entry : Entry} (wellFormed : entry.WellFormed) :
    Undelimited entry.text := by
  cases entry with
  | plain content => exact undelimited_of_isOrdinary wellFormed.ordinary
  | merged number specifier content =>
      exact undelimited_command (by decide) (by decide)
        (notMem_tail_text wellFormed (Or.inl rfl))

theorem notMem_text {entry : Entry} (wellFormed : entry.WellFormed) : '%' ∉ entry.text := by
  cases entry with
  | plain content => exact notMem_of_isOrdinary (by decide) wellFormed.ordinary
  | merged number specifier content =>
      intro member
      rcases List.mem_cons.mp member with impossible | inTail
      · exact absurd impossible (by decide)
      · exact notMem_tail_text wellFormed (Or.inr rfl) inTail

end Entry

theorem WrittenCell.undelimited_text {cell : WrittenCell} (wellFormed : cell.WellFormed) :
    Undelimited cell.text :=
  ((undelimited_of_isSpace wellFormed.before).append
    (Entry.undelimited_text wellFormed.entry)).append (undelimited_of_isSpace wellFormed.after)

theorem undelimited_cellsText {cells : List WrittenCell}
    (wellFormed : ∀ cell ∈ cells, cell.WellFormed) : Undelimited (cellsText cells) := by
  induction cells with
  | nil => exact undelimited_of_notMem (by simp [cellsText])
  | cons cell rest ih =>
      have first := WrittenCell.undelimited_text (wellFormed cell List.mem_cons_self)
      cases rest with
      | nil => exact first
      | cons next rest =>
          have others := ih fun other member => wellFormed other (List.mem_cons_of_mem _ member)
          have separator : Undelimited ['&'] := undelimited_of_notMem (by decide)
          have whole := first.append (separator.append others)
          exact whole

theorem undelimited_rulesText {gaps : List Text} (spaces : ∀ gap ∈ gaps, gap.IsSpace) :
    Undelimited (rulesText gaps) := by
  induction gaps with
  | nil => exact undelimited_of_notMem (by simp [rulesText])
  | cons gap others ih =>
      have rule : Undelimited "\\hline".toList :=
        undelimited_command (by decide) (by decide) (by decide)
      rw [rulesText_cons]
      exact (undelimited_of_isSpace (spaces gap List.mem_cons_self)).append
        (rule.append (ih fun other member => spaces other (List.mem_cons_of_mem _ member)))

/-- Whether the first character with a meaning of its own is a separator or starts a
command. -/
def Text.IsUnbraced (text : Text) : Prop :=
  ∃ head ∈ (text.dropWhile isOrdinary).head?, head = '&' ∨ head = '\\'

namespace Text.IsUnbraced

variable {front rest : Text}

theorem iff_of_isOrdinary (ordinary : ∀ character ∈ front, isOrdinary character = true) :
    Text.IsUnbraced (front ++ rest) ↔ rest.IsUnbraced := by
  rw [IsUnbraced, IsUnbraced, List.dropWhile_append_of_pos ordinary]

theorem of_head {head : Char} (token : head = '&' ∨ head = '\\') (rest : Text) :
    Text.IsUnbraced (head :: rest) := by
  have special : isOrdinary head = false := by
    rcases token with rfl | rfl <;> decide
  refine ⟨head, ?_, token⟩
  rw [List.dropWhile_cons_of_neg (by simp [special])]
  rfl

theorem isOrdinary_of_isBlank {character : Char} (blank : isBlank character = true) :
    isOrdinary character = true := by
  by_contra special
  simp only [isOrdinary, Bool.and_eq_true, bne_iff_ne, not_and_or, not_not] at special
  rcases special with (((rfl | rfl) | rfl) | rfl) | rfl <;> exact absurd blank (by decide)

/-- No name in braces follows, also behind white space. -/
theorem bracedName?_eq_none {text : Text} (unbraced : text.IsUnbraced) :
    bracedName? (text.drop (text.takeWhile isBlank).length) = none := by
  have parts : text.takeWhile isBlank ++ text.drop (text.takeWhile isBlank).length = text :=
    List.prefix_iff_eq_append.mp (List.takeWhile_prefix _)
  have blanks : ∀ character ∈ text.takeWhile isBlank, isOrdinary character = true :=
    fun character member => isOrdinary_of_isBlank (List.mem_takeWhile_imp member)
  rw [← parts, iff_of_isOrdinary blanks] at unbraced
  generalize text.drop (text.takeWhile isBlank).length = behind at unbraced
  unfold bracedName?
  split
  next rest =>
    obtain ⟨head, isHead, token⟩ := unbraced
    obtain rfl : '\x7b' = head := by simpa [isOrdinary] using isHead
    exact absurd token (by decide)
  next => rfl

/-- A backslash in front is no delimiter. -/
theorem delimiter?_eq_none {text : Text} (unbraced : text.IsUnbraced) (offset : Nat) :
    delimiter? offset ('\\' :: text) = none := by
  refine delimiter?_eq_none_of_unnamed fun word rest known textEq => ?_
  have ordinary : word.all isOrdinary = true := by rcases known with rfl | rfl <;> decide
  subst textEq
  exact bracedName?_eq_none ((iff_of_isOrdinary (List.all_eq_true.mp ordinary)).mp unbraced)

end Text.IsUnbraced

theorem delimitersFrom_terminator {offset : Nat} {rest : Text}
    (ends : ∀ offset, delimiter? offset ('\\' :: rest) = none) :
    delimitersFrom offset ("\\\\".toList ++ rest) = delimitersFrom (offset + 2) rest := by
  have backslash : '\\'.utf8Size = 1 := by decide
  have first : delimiter? offset ('\\' :: '\\' :: rest) = none :=
    delimiter?_eq_none_of_second (by decide) (by decide)
  rw [show "\\\\".toList ++ rest = '\\' :: '\\' :: rest from rfl, delimitersFrom, first,
    delimitersFrom, ends, backslash, Nat.add_assoc]

/-- Behind the cells of a row comes a separator or a command, if none is in them. -/
theorem isUnbraced_cellsText_append {cells : List WrittenCell} {rest : Text}
    (wellFormed : ∀ cell ∈ cells, cell.WellFormed) (unbracedRest : rest.IsUnbraced) :
    Text.IsUnbraced (cellsText cells ++ rest) := by
  have spaces {space : Text} (isSpace : space.IsSpace) :
      ∀ character ∈ space, Text.isOrdinary character = true :=
    fun character member => isOrdinary_of_isSpace (isSpace character member)
  cases cells with
  | nil => exact unbracedRest
  | cons cell others =>
      obtain ⟨before, entry, after⟩ := cell
      have cellWellFormed := wellFormed _ List.mem_cons_self
      have behind : ∃ tail, cellsText (⟨before, entry, after⟩ :: others) ++ rest
            = before ++ (entry.text ++ (after ++ tail)) ∧ Text.IsUnbraced tail := by
        cases others with
        | nil => exact ⟨_, by simp [cellsText, WrittenCell.text], unbracedRest⟩
        | cons next more =>
            exact ⟨'&' :: (cellsText (next :: more) ++ rest),
              by simp [cellsText_cons_cons, WrittenCell.text], .of_head (Or.inl rfl) _⟩
      obtain ⟨tail, textEq, unbraced⟩ := behind
      rw [textEq, Text.IsUnbraced.iff_of_isOrdinary (spaces cellWellFormed.before)]
      cases entry with
      | plain content =>
          have ordinary := cellWellFormed.entry.ordinary
          exact (Text.IsUnbraced.iff_of_isOrdinary ordinary).mpr
            ((Text.IsUnbraced.iff_of_isOrdinary (spaces cellWellFormed.after)).mpr unbraced)
      | merged number specifier content => exact .of_head (Or.inr rfl) _

theorem isUnbraced_rulesText_append {gaps : List Text} {rest : Text}
    (spaces : ∀ gap ∈ gaps, gap.IsSpace) (unbraced : rest.IsUnbraced) :
    Text.IsUnbraced (rulesText gaps ++ rest) := by
  cases gaps with
  | nil => exact unbraced
  | cons gap others =>
      have ordinary : ∀ character ∈ gap, Text.isOrdinary character = true :=
        fun character member =>
          isOrdinary_of_isSpace (spaces gap List.mem_cons_self character member)
      rw [rulesText_cons, List.append_assoc, Text.IsUnbraced.iff_of_isOrdinary ordinary]
      exact .of_head (Or.inr rfl) _

theorem isUnbraced_rowsText_append {rows : List WrittenRow} {rest : Text}
    (wellFormed : ∀ row ∈ rows, row.WellFormed) (unbraced : rest.IsUnbraced) :
    Text.IsUnbraced (Sheet.rowsText rows ++ rest) := by
  cases rows with
  | nil => exact unbraced
  | cons row others =>
      have rowWellFormed := wellFormed row List.mem_cons_self
      have cells := isUnbraced_cellsText_append rowWellFormed.cells
        (.of_head (Or.inr rfl) ('\\' :: (Sheet.rowsText others ++ rest)))
      have whole := isUnbraced_rulesText_append rowWellFormed.ruleGaps cells
      simpa [Sheet.rowsText_cons, WrittenRow.text] using whole

/-- No delimiter starts in the rows of a sheet. -/
theorem delimitersFrom_rowsText {offset : Nat} {rows : List WrittenRow} {closing : Text}
    (wellFormed : ∀ row ∈ rows, row.WellFormed) (unbraced : closing.IsUnbraced) :
    delimitersFrom offset (Sheet.rowsText rows ++ closing)
      = delimitersFrom (offset + (Sheet.rowsText rows).size) closing := by
  induction rows generalizing offset with
  | nil => rfl
  | cons row rest ih =>
      have rowWellFormed := wellFormed row List.mem_cons_self
      have restWellFormed (other : WrittenRow) (member : other ∈ rest) :=
        wellFormed other (List.mem_cons_of_mem _ member)
      have cells := (undelimited_rulesText rowWellFormed.ruleGaps).append
        (undelimited_cellsText rowWellFormed.cells)
      have others := @ih (offset + row.text.size) restWellFormed
      have ends : ∀ offset, delimiter? offset ('\\' :: (Sheet.rowsText rest ++ closing)) = none :=
        (isUnbraced_rowsText_append restWellFormed unbraced).delimiter?_eq_none
      have terminator : Text.size "\\\\".toList = 2 := by decide
      rw [Sheet.rowsText_cons, WrittenRow.text, List.append_assoc, List.append_assoc, cells,
        delimitersFrom_terminator ends]
      have size : (rulesText row.ruleGaps ++ cellsText row.cells).size + 2 = row.text.size := by
        rw [WrittenRow.text, Text.size_append _ "\\\\".toList, terminator]
      rw [Nat.add_assoc, size, others, ← WrittenRow.text, ← Sheet.rowsText_cons,
        Sheet.rowsText_cons, Text.size_append, Nat.add_assoc]

theorem notMem_of_isSpace {text : Text} (space : text.IsSpace) : '%' ∉ text :=
  notMem_of_isOrdinary (by decide)
    fun character member => isOrdinary_of_isSpace (space character member)

theorem notMem_rulesText {gaps : List Text} (spaces : ∀ gap ∈ gaps, gap.IsSpace) :
    '%' ∉ rulesText gaps := by
  intro member
  obtain ⟨gap, inGaps, inGap⟩ := List.mem_flatMap.mp member
  rcases List.mem_append.mp inGap with inGap | inRule
  · exact notMem_of_isSpace (spaces gap inGaps) inGap
  · exact absurd inRule (by decide)

theorem notMem_cellsText {cells : List WrittenCell}
    (wellFormed : ∀ cell ∈ cells, cell.WellFormed) : '%' ∉ cellsText cells := by
  induction cells with
  | nil => simp [cellsText]
  | cons cell rest ih =>
      have cellWellFormed := wellFormed cell List.mem_cons_self
      have first : '%' ∉ cell.text := by
        simp [WrittenCell.text, notMem_of_isSpace cellWellFormed.before,
          notMem_of_isSpace cellWellFormed.after, Entry.notMem_text cellWellFormed.entry]
      cases rest with
      | nil => exact first
      | cons next rest =>
          have others := ih fun other member => wellFormed other (List.mem_cons_of_mem _ member)
          rw [cellsText_cons_cons]
          simp [first, others]

theorem notMem_rowsText {rows : List WrittenRow} (wellFormed : ∀ row ∈ rows, row.WellFormed) :
    '%' ∉ Sheet.rowsText rows := by
  intro member
  obtain ⟨row, isRow, inRow⟩ := List.mem_flatMap.mp member
  have rowWellFormed := wellFormed row isRow
  have terminator : '%' ∉ "\\\\".toList := by decide
  simp only [WrittenRow.text, List.mem_append, notMem_rulesText rowWellFormed.ruleGaps,
    notMem_cellsText rowWellFormed.cells, terminator, or_self] at inRow

namespace Sheet

/-- A sheet that is read as it is written, if its rules and terminators end where
they are written. -/
structure WellFormed (sheet : Sheet) : Prop where
  lead : '\\' ∉ sheet.lead ∧ '%' ∉ sheet.lead
  specifier : sheet.specifier.IsBarred
  nonempty : sheet.rows ≠ []
  rows : ∀ row ∈ sheet.rows, row.WellFormed
  closingGaps : ∀ gap ∈ sheet.closingGaps, gap.IsSpace
  closingGap : sheet.closingGap.IsSpace
  trail : '\\' ∉ sheet.trail ∧ '%' ∉ sheet.trail

/-- Whether the rules and terminators of a sheet end where they are written. -/
def Guarded (sheet : Sheet) : Prop :=
  LatexTabular.Guarded sheet.closingText sheet.rows

variable {sheet : Sheet}

theorem delimitersFrom_opening (offset : Nat) (rest : Text) :
    delimitersFrom offset (opening ++ rest)
      = ⟨true, "tabular".toList, ⟨offset, offset + opening.size⟩⟩
        :: delimitersFrom (offset + opening.size) rest := by
  have written : opening = delimiterText true "tabular".toList := by decide
  rw [written]
  exact delimitersFrom_delimiterText true
    (fun rest => bracedName?_of_letters rest (by decide) (by decide)) (by decide) offset rest

theorem delimitersFrom_closing (offset : Nat) (rest : Text) :
    delimitersFrom offset (closing ++ rest)
      = ⟨false, "tabular".toList, ⟨offset, offset + closing.size⟩⟩
        :: delimitersFrom (offset + closing.size) rest := by
  have written : closing = delimiterText false "tabular".toList := by decide
  rw [written]
  exact delimitersFrom_delimiterText false
    (fun rest => bracedName?_of_letters rest (by decide) (by decide)) (by decide) offset rest

theorem delimitersFrom_text (wellFormed : sheet.WellFormed) :
    delimitersFrom 0 sheet.text = [⟨true, "tabular".toList, sheet.tabular.opening⟩,
      ⟨false, "tabular".toList, sheet.tabular.closing⟩] := by
  have specifier : Undelimited ('{' :: sheet.specifier ++ ['}']) := by
    have ordinary := notMem_of_isOrdinary (by decide : Text.isOrdinary '\\' = false)
      (isOrdinary_of_isBarred wellFormed.specifier)
    exact undelimited_of_notMem (by simp [ordinary])
  have behind : Undelimited sheet.closingText :=
    (undelimited_rulesText wellFormed.closingGaps).append
      (undelimited_of_isSpace wellFormed.closingGap)
  have trail (offset : Nat) : delimitersFrom offset sheet.trail = [] := by
    have none := delimitersFrom_append_of_notMem offset [] wellFormed.trail.1
    rwa [List.append_nil] at none
  have unbraced : Text.IsUnbraced (sheet.closingText ++ (closing ++ sheet.trail)) := by
    have ordinary : ∀ character ∈ sheet.closingGap, Text.isOrdinary character = true :=
      fun character member => isOrdinary_of_isSpace (wellFormed.closingGap character member)
    have gap := (Text.IsUnbraced.iff_of_isOrdinary ordinary).mpr
      (.of_head (Or.inr rfl) ("end\x7btabular\x7d".toList ++ sheet.trail))
    have whole := isUnbraced_rulesText_append wellFormed.closingGaps gap
    rw [← List.append_assoc] at whole
    exact whole
  have textEq : sheet.text = sheet.lead ++ (opening ++ (('{' :: sheet.specifier ++ ['}'])
      ++ (rowsText sheet.rows ++ (sheet.closingText ++ (closing ++ sheet.trail))))) := by
    simp [text, front, body]
  rw [textEq, delimitersFrom_append_of_notMem 0 _ wellFormed.lead.1, delimitersFrom_opening,
    specifier, delimitersFrom_rowsText wellFormed.rows unbraced, behind, delimitersFrom_closing,
    trail]
  have atBody : 0 + sheet.lead.size + opening.size
      + Text.size ('{' :: sheet.specifier ++ ['}']) = sheet.bodyStart := by
    have opened : '{'.utf8Size = 1 := by decide
    have closed : Text.size ['}'] = 1 := by decide
    have openedText : Text.size ['{'] = 1 := by decide
    simp only [bodyStart, specifierSpan, front, Text.size_append, Text.size_cons, opened, closed,
      openedText]
    omega
  rw [atBody, Nat.zero_add, tabular, body, Text.size_append, Nat.add_assoc sheet.bodyStart]

/-- Nothing in a sheet is commented out. -/
theorem isCommented_text (wellFormed : sheet.WellFormed) (offset : Nat) :
    isCommented sheet.text offset = false := by
  have specifier : '%' ∉ sheet.specifier :=
    notMem_of_isOrdinary (by decide) (isOrdinary_of_isBarred wellFormed.specifier)
  have delimiters : '%' ∉ opening ∧ '%' ∉ closing := by decide
  have none : '%' ∉ sheet.text := by
    simp [text, front, body, closingText, wellFormed.lead.2, wellFormed.trail.2, specifier,
      delimiters, notMem_rowsText wellFormed.rows, notMem_rulesText wellFormed.closingGaps,
      notMem_of_isSpace wellFormed.closingGap]
  exact isCommented_of_notMem none offset

/-- The delimiters of a sheet are those of its tabular. -/
theorem delimiters_text (wellFormed : sheet.WellFormed) :
    delimiters sheet.text = [⟨true, "tabular".toList, sheet.tabular.opening⟩,
      ⟨false, "tabular".toList, sheet.tabular.closing⟩] := by
  have uncommented : (fun delimiter : Delimiter =>
      !isCommented sheet.text delimiter.span.start) = fun _ => true := by
    funext delimiter
    simp [isCommented_text wellFormed]
  rw [delimiters, uncommented, List.filter_true, delimitersFrom_text wellFormed]

/-- The tabular of a sheet is its only environment. -/
theorem environments_text (wellFormed : sheet.WellFormed) :
    environments sheet.text = [sheet.tabular] := by
  rw [environments, delimiters_text wellFormed]
  simp [Environment.matching, tabular]

end Sheet

end LatexTabular
