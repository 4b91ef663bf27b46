import LatexTabular.Proofs.Sheet.Lexemes

/-!
# Cells of a sheet

The lexemes of a written cell make up the cell that its entry makes
(`cellOf_lexemes`), and those of written cells make up all of them
(`cellsOf_cellLexemes`).  Rules and white space in front of the first cell do not
change it; those behind the last one move it if it is empty
(`cellsOf_cellLexemes_append`).
-/

namespace LatexTabular

open Body

namespace Body

/-- The filled part of lexemes lies between those that fill no cell. -/
theorem filledPart_eq {front part back : List Lexeme}
    (emptyFront : ∀ lexeme ∈ front, lexeme.kind.fillsCell = false)
    (emptyBack : ∀ lexeme ∈ back, lexeme.kind.fillsCell = false)
    (fillsFirst : ∀ lexeme ∈ part.head?, lexeme.kind.fillsCell = true)
    (fillsLast : ∀ lexeme ∈ part.getLast?, lexeme.kind.fillsCell = true) :
    filledPart (front ++ (part ++ back)) = part := by
  have skipFront : (front ++ (part ++ back)).dropWhile (!·.kind.fillsCell)
      = (part ++ back).dropWhile (!·.kind.fillsCell) :=
    List.dropWhile_append_of_pos fun lexeme member => by simp [emptyFront lexeme member]
  have skipBack : (back.reverse ++ part.reverse).dropWhile (!·.kind.fillsCell)
      = part.reverse.dropWhile (!·.kind.fillsCell) :=
    List.dropWhile_append_of_pos fun lexeme member => by
      simp [emptyBack lexeme (List.mem_reverse.mp member)]
  rw [filledPart, skipFront]
  cases part with
  | nil =>
      have none : back.dropWhile (!·.kind.fillsCell) = [] :=
        List.dropWhile_eq_nil_iff.mpr fun lexeme member => by simp [emptyBack lexeme member]
      rw [List.nil_append, none]
      rfl
  | cons first rest =>
      have keepsFirst : (first :: rest ++ back).dropWhile (!·.kind.fillsCell)
          = first :: rest ++ back := by
        simp [fillsFirst first rfl]
      have keepsLast : (first :: rest).reverse.dropWhile (!·.kind.fillsCell)
          = (first :: rest).reverse := by
        cases reversed : (first :: rest).reverse with
        | nil => rfl
        | cons final others =>
            have isLast : (first :: rest).getLast? = some final := by
              rw [← List.head?_reverse, reversed, List.head?_cons]
            simp [fillsLast final isLast]
      rw [keepsFirst, List.reverse_append, skipBack, keepsLast, List.reverse_reverse]

theorem segments_of_forall_not {α : Type} {ends : α → Bool} {part : List α}
    (inside : ∀ item ∈ part, ends item = false) : segments ends part = ([], part) := by
  induction part with
  | nil => rfl
  | cons head rest ih =>
      have others := ih fun item member => inside item (List.mem_cons_of_mem _ member)
      simp [segments, others, inside head List.mem_cons_self]

/-- The first closing element closes the first part. -/
theorem segments_append_cons {α : Type} {ends : α → Bool} {part : List α} {close : α}
    (inside : ∀ item ∈ part, ends item = false) (closes : ends close = true) (rest : List α) :
    segments ends (part ++ close :: rest)
      = ((part, close) :: (segments ends rest).1, (segments ends rest).2) := by
  induction part with
  | nil => simp [segments, closes]
  | cons head part ih =>
      have others := ih fun item member => inside item (List.mem_cons_of_mem _ member)
      simp [segments, others, inside head List.mem_cons_self]

end Body

namespace Entry

/-- Only a blank entry has no text. -/
theorem eq_blank_of_text_eq_nil {entry : Entry} (empty : entry.text = []) : entry = blank := by
  cases entry with
  | plain content => exact congrArg plain empty
  | merged number specifier content => simp [text, MergeText.text, MergeText.preamble] at empty

/-- The lexemes of an entry at an offset. -/
def lexemes (start : Nat) (entry : Entry) : List Lexeme :=
  match entry with
  | plain content => charLexemes start content
  | merged number specifier content =>
      [⟨start, .merge (mergeText number specifier content), entry.text⟩]

theorem lexes {start : Nat} {entry : Entry} (wellFormed : entry.WellFormed) :
    ∃ blank, Lexes start ⟨0, true⟩ entry.text (entry.lexemes start) ⟨0, blank⟩ := by
  cases entry with
  | plain content =>
      obtain ⟨⟨depth, blank⟩, sameDepth, -, lexes⟩ :=
        exists_lexes_charLexemes start ⟨0, true⟩ wellFormed.ordinary
      obtain rfl : depth = 0 := sameDepth
      exact ⟨blank, lexes⟩
  | merged number specifier content => exact ⟨false, lexes_merged wellFormed⟩

theorem kind_of_mem_lexemes {start : Nat} {entry : Entry} {lexeme : Lexeme}
    (member : lexeme ∈ entry.lexemes start) :
    lexeme.kind ≠ .separator ∧ lexeme.kind ≠ .terminator ∧ lexeme.kind ≠ .rule := by
  cases entry with
  | plain content =>
      rcases kind_of_mem_charLexemes member with kindEq | kindEq <;> simp [kindEq]
  | merged number specifier content =>
      obtain rfl := List.mem_singleton.mp member
      simp

/-- The first and the last lexeme of an entry fill its cell and stand at its
ends. -/
theorem ends_lexemes {start : Nat} {entry : Entry} (wellFormed : entry.WellFormed) :
    (∀ first ∈ (entry.lexemes start).head?,
      first.kind.fillsCell = true ∧ first.start = start) ∧
    (∀ last ∈ (entry.lexemes start).getLast?,
      last.kind.fillsCell = true ∧ last.stop = start + entry.text.size) := by
  cases entry with
  | plain content =>
      constructor
      · intro first isFirst
        obtain ⟨startEq, head, isHead, kindEq⟩ := head?_charLexemes isFirst
        have inked := wellFormed.head head isHead
        have notSpace := isSpace_eq_false_of_isBlank inked
        exact ⟨by simp [kindEq, notSpace, Kind.fillsCell], startEq⟩
      · intro last isLast
        obtain ⟨stopEq, final, isFinal, kindEq⟩ := getLast?_charLexemes isLast
        have inked := wellFormed.last final isFinal
        have notSpace := isSpace_eq_false_of_isBlank inked
        exact ⟨by simp [kindEq, notSpace, Kind.fillsCell], stopEq⟩
  | merged number specifier content =>
      constructor
      · rintro first ⟨⟩
        exact ⟨rfl, rfl⟩
      · rintro last ⟨⟩
        exact ⟨rfl, rfl⟩

end Entry

namespace WrittenCell

/-- The lexemes of a written cell at an offset. -/
def lexemes (start : Nat) (cell : WrittenCell) : List Lexeme :=
  charLexemes start cell.before
    ++ (cell.entry.lexemes (start + cell.before.size)
      ++ charLexemes (start + cell.before.size + cell.entry.text.size) cell.after)

theorem lexes_cell {start : Nat} {cell : WrittenCell} (wellFormed : cell.WellFormed) :
    ∃ blank, Lexes start ⟨0, true⟩ cell.text (cell.lexemes start) ⟨0, blank⟩ := by
  obtain ⟨context, -, unchanged, before⟩ := exists_lexes_charLexemes start ⟨0, true⟩
    fun character member => isOrdinary_of_isSpace (wellFormed.before character member)
  rw [unchanged wellFormed.before] at before
  obtain ⟨blank, entry⟩ := Entry.lexes wellFormed.entry
  obtain ⟨context, -, unchanged, after⟩ := exists_lexes_charLexemes
    (start + cell.before.size + cell.entry.text.size) ⟨0, blank⟩
    fun character member => isOrdinary_of_isSpace (wellFormed.after character member)
  rw [unchanged wellFormed.after] at after
  have whole := before.append (entry.append after)
  rw [← List.append_assoc] at whole
  exact ⟨blank, whole⟩

theorem kind_of_mem_lexemes {start : Nat} {cell : WrittenCell} (wellFormed : cell.WellFormed)
    {lexeme : Lexeme} (member : lexeme ∈ cell.lexemes start) :
    lexeme.kind ≠ .separator ∧ lexeme.kind ≠ .terminator ∧ lexeme.kind ≠ .rule := by
  rcases List.mem_append.mp member with inBefore | member
  · simp [kind_of_mem_charLexemes_of_isSpace wellFormed.before inBefore]
  · rcases List.mem_append.mp member with inEntry | inAfter
    · exact Entry.kind_of_mem_lexemes inEntry
    · simp [kind_of_mem_charLexemes_of_isSpace wellFormed.after inAfter]

/-- Behind white space and rules and in front of others, the entry of a cell is what fills it. -/
theorem filledPart_lexemes_append {start : Nat} {lead tail : List Lexeme} {cell : WrittenCell}
    (wellFormed : cell.WellFormed)
    (leadKind : ∀ lexeme ∈ lead, lexeme.kind = .space ∨ lexeme.kind = .rule)
    (tailKind : ∀ lexeme ∈ tail, lexeme.kind = .space ∨ lexeme.kind = .rule) :
    filledPart (lead ++ (cell.lexemes start ++ tail))
      = cell.entry.lexemes (start + cell.before.size) := by
  have fillsNone {lexeme : Lexeme} (kind : lexeme.kind = .space ∨ lexeme.kind = .rule) :
      lexeme.kind.fillsCell = false := by
    rcases kind with kindEq | kindEq <;> simp [kindEq, Kind.fillsCell]
  have parts : lead ++ (cell.lexemes start ++ tail) = (lead ++ charLexemes start cell.before)
      ++ (cell.entry.lexemes (start + cell.before.size)
        ++ (charLexemes (start + cell.before.size + cell.entry.text.size) cell.after ++ tail)) := by
    simp [lexemes]
  rw [parts]
  refine filledPart_eq ?_ ?_ ?_ ?_
  · intro lexeme member
    rcases List.mem_append.mp member with inLead | inBefore
    · exact fillsNone (leadKind lexeme inLead)
    · exact fillsNone (Or.inl (kind_of_mem_charLexemes_of_isSpace wellFormed.before inBefore))
  · intro lexeme member
    rcases List.mem_append.mp member with inAfter | inTail
    · exact fillsNone (Or.inl (kind_of_mem_charLexemes_of_isSpace wellFormed.after inAfter))
    · exact fillsNone (tailKind lexeme inTail)
  · exact fun first isFirst => ((Entry.ends_lexemes wellFormed.entry).1 first isFirst).1
  · exact fun last isLast => ((Entry.ends_lexemes wellFormed.entry).2 last isLast).1

/-- The lexemes of a cell have no rules. -/
theorem rulesOf_lexemes_append {start : Nat} {cell : WrittenCell} (wellFormed : cell.WellFormed)
    (lead tail : List Lexeme) :
    rulesOf (lead ++ (cell.lexemes start ++ tail)) = rulesOf lead ++ rulesOf tail := by
  have none : (cell.lexemes start).filter (·.kind == .rule) = [] := by
    rw [List.filter_eq_nil_iff]
    intro lexeme member
    simpa using (kind_of_mem_lexemes wellFormed member).2.2
  rw [rulesOf, List.filter_append, List.filter_append, none, List.nil_append, rulesOf, rulesOf]

/-- A written cell makes the cell of its entry, behind white space and rules that
end where it starts and in front of others.  An empty cell stands behind those. -/
theorem cellOf_lexemes_append {origin start : Nat} {lead tail : List Lexeme} {cell : WrittenCell}
    (wellFormed : cell.WellFormed)
    (leadKind : ∀ lexeme ∈ lead, lexeme.kind = .space ∨ lexeme.kind = .rule)
    (tailKind : ∀ lexeme ∈ tail, lexeme.kind = .space ∨ lexeme.kind = .rule)
    (anchor : ((rulesOf lead).getLast?.map Lexeme.stop).getD origin = start) :
    cellOf origin (lead ++ (cell.lexemes start ++ tail))
      = if cell.entry.text = [] then .blank (((rulesOf tail).getLast?.map Lexeme.stop).getD start)
        else cell.entry.laid (start + cell.before.size) := by
  have filled := @filledPart_lexemes_append start _ _ _ wellFormed leadKind tailKind
  have rules := @rulesOf_lexemes_append start _ wellFormed lead tail
  obtain ⟨before, entry, after⟩ := cell
  have ends := @Entry.ends_lexemes (start + before.size) entry wellFormed.entry
  cases entry with
  | merged number specifier content =>
      have trimmed := trim_eq_self wellFormed.entry.2.2.2.2.head wellFormed.entry.2.2.2.2.last
      have written : (Entry.merged number specifier content).text ≠ [] := by
        simp [Entry.text, MergeText.text, MergeText.preamble]
      simp only [cellOf, filled, Entry.lexemes, List.head?_cons, List.getLast?_singleton,
        if_neg written]
      simp [Entry.laid, Entry.mergeText, Lexeme.stop, trimmed]
  | plain content =>
      cases content with
      | nil =>
          have blank : (((rulesOf lead ++ rulesOf tail).getLast?.map Lexeme.stop).getD origin)
              = ((rulesOf tail).getLast?.map Lexeme.stop).getD start := by
            cases isLast : (rulesOf tail).getLast? with
            | none =>
                rw [List.getLast?_eq_none_iff.mp isLast, List.append_nil]
                exact anchor
            | some last => simp [List.getLast?_append, isLast]
          simp only [cellOf, filled, rules, Entry.lexemes, charLexemes, List.head?_nil, blank]
          rfl
      | cons head rest =>
          obtain ⟨last, isLast⟩ : ∃ last,
              (charLexemes (start + before.size) (head :: rest)).getLast? = some last :=
            ⟨_, List.getLast?_eq_some_getLast (by simp [charLexemes])⟩
          have stopEq := (ends.2 last isLast).2
          have inked := isSpace_eq_false_of_isBlank (wellFormed.entry.head head rfl)
          have isFirst : (charLexemes (start + before.size) (head :: rest)).head?
              = some ⟨start + before.size, .content, [head]⟩ := by
            simp [charLexemes, inked]
          simp only [cellOf, filled, Entry.lexemes, isFirst, isLast, stopEq,
            flatMap_text_charLexemes]
          rfl

/-- A written cell makes the cell of its entry, behind white space and rules that
end where it starts. -/
theorem cellOf_lexemes {origin start : Nat} {lead : List Lexeme} {cell : WrittenCell}
    (wellFormed : cell.WellFormed)
    (leadKind : ∀ lexeme ∈ lead, lexeme.kind = .space ∨ lexeme.kind = .rule)
    (anchor : ((rulesOf lead).getLast?.map Lexeme.stop).getD origin = start) :
    cellOf origin (lead ++ cell.lexemes start)
      = cell.entry.laid (start + cell.before.size) := by
  have alone := @cellOf_lexemes_append origin start lead [] cell wellFormed leadKind (by simp) anchor
  rw [List.append_nil] at alone
  rw [alone]
  split
  next empty =>
    rw [wellFormed.anchored empty, Entry.eq_blank_of_text_eq_nil empty]
    rfl
  next => rfl

end WrittenCell

/-- The lexemes of written cells at an offset. -/
def cellLexemes (start : Nat) : List WrittenCell → List Lexeme
  | [] => []
  | [cell] => cell.lexemes start
  | cell :: rest =>
      cell.lexemes start ++ ⟨start + cell.text.size, .separator, ['&']⟩
        :: cellLexemes (start + cell.text.size + 1) rest

theorem cellsText_cons_cons (cell next : WrittenCell) (rest : List WrittenCell) :
    cellsText (cell :: next :: rest) = cell.text ++ '&' :: cellsText (next :: rest) := rfl

theorem cellLexemes_cons_cons (start : Nat) (cell next : WrittenCell)
    (rest : List WrittenCell) :
    cellLexemes start (cell :: next :: rest)
      = cell.lexemes start ++ ⟨start + cell.text.size, .separator, ['&']⟩
        :: cellLexemes (start + cell.text.size + 1) (next :: rest) := rfl

theorem lexes_cellLexemes {start : Nat} {cells : List WrittenCell}
    (wellFormed : ∀ cell ∈ cells, cell.WellFormed) :
    ∃ blank, Lexes start ⟨0, true⟩ (cellsText cells) (cellLexemes start cells) ⟨0, blank⟩ := by
  induction cells generalizing start with
  | nil => exact ⟨true, fun rest => rfl⟩
  | cons cell rest ih =>
      have first := @WrittenCell.lexes_cell start cell (wellFormed cell List.mem_cons_self)
      cases rest with
      | nil => exact first
      | cons next rest =>
          obtain ⟨blank, first⟩ := first
          obtain ⟨blank', others⟩ := @ih (start + cell.text.size + 1)
            fun other member => wellFormed other (List.mem_cons_of_mem _ member)
          refine ⟨blank', ?_⟩
          intro following
          have separator : '&'.utf8Size = 1 := by decide
          rw [cellsText_cons_cons, cellLexemes_cons_cons, List.append_assoc, first,
            List.cons_append, lex_separator, others, Text.size_append, Text.size_cons, separator,
            List.append_assoc, List.cons_append, Nat.add_assoc, Nat.add_assoc, Nat.add_assoc]

theorem kind_of_mem_cellLexemes {start : Nat} {cells : List WrittenCell}
    (wellFormed : ∀ cell ∈ cells, cell.WellFormed) {lexeme : Lexeme}
    (member : lexeme ∈ cellLexemes start cells) :
    lexeme.kind ≠ .terminator ∧ lexeme.kind ≠ .rule := by
  induction cells generalizing start with
  | nil => simp [cellLexemes] at member
  | cons cell rest ih =>
      have ofFirst (inFirst : lexeme ∈ cell.lexemes start) :
          lexeme.kind ≠ .terminator ∧ lexeme.kind ≠ .rule :=
        (WrittenCell.kind_of_mem_lexemes (wellFormed cell List.mem_cons_self) inFirst).2
      cases rest with
      | nil => exact ofFirst member
      | cons next rest =>
          rw [cellLexemes_cons_cons] at member
          rcases List.mem_append.mp member with inFirst | member
          · exact ofFirst inFirst
          · rcases List.mem_cons.mp member with rfl | inRest
            · simp
            · exact ih (fun other member => wellFormed other (List.mem_cons_of_mem _ member)) inRest

/-- The cells that start at an offset, where an empty last one stands behind rules that end
at `stop?`. -/
def layCellsTo (stop? : Option Nat) (start : Nat) : List WrittenCell → List Cell
  | [] => []
  | [cell] =>
      if cell.entry.text = [] then [.blank (stop?.getD start)]
      else [cell.entry.laid (start + cell.before.size)]
  | cell :: rest =>
      cell.entry.laid (start + cell.before.size)
        :: layCellsTo stop? (start + cell.text.size + 1) rest

theorem layCellsTo_cons_cons (stop? : Option Nat) (start : Nat) (cell next : WrittenCell)
    (rest : List WrittenCell) :
    layCellsTo stop? start (cell :: next :: rest)
      = cell.entry.laid (start + cell.before.size)
        :: layCellsTo stop? (start + cell.text.size + 1) (next :: rest) := rfl

/-- Without rules behind it an empty cell stands where it starts. -/
theorem layCellsTo_none {start : Nat} {cells : List WrittenCell}
    (wellFormed : ∀ cell ∈ cells, cell.WellFormed) :
    layCellsTo none start cells = layCells start cells := by
  induction cells generalizing start with
  | nil => rfl
  | cons cell rest ih =>
      cases rest with
      | nil =>
          simp only [layCellsTo, layCells]
          split
          next empty =>
            rw [(wellFormed cell List.mem_cons_self).anchored empty,
              Entry.eq_blank_of_text_eq_nil empty]
            rfl
          next => rfl
      | cons next rest =>
          rw [layCellsTo_cons_cons,
            ih fun other member => wellFormed other (List.mem_cons_of_mem _ member)]
          rfl

/-- The lexemes of written cells make up their cells, with the separators between
them, in front of white space and rules. -/
theorem cellsOf_cellLexemes_append {origin start : Nat} {lead tail : List Lexeme}
    {cells : List WrittenCell} (nonempty : cells ≠ [])
    (wellFormed : ∀ cell ∈ cells, cell.WellFormed)
    (leadKind : ∀ lexeme ∈ lead, lexeme.kind = .space ∨ lexeme.kind = .rule)
    (tailKind : ∀ lexeme ∈ tail, lexeme.kind = .space ∨ lexeme.kind = .rule)
    (anchor : ((rulesOf lead).getLast?.map Lexeme.stop).getD origin = start) :
    let parts := segments (·.kind == .separator) (lead ++ (cellLexemes start cells ++ tail))
    cellsOf origin parts.1 parts.2
        = layCellsTo ((rulesOf tail).getLast?.map Lexeme.stop) start cells ∧
      parts.1.map (·.2.span) = laySeparators start cells := by
  have notSeparator {lexeme : Lexeme} (kind : lexeme.kind = .space ∨ lexeme.kind = .rule) :
      (lexeme.kind == .separator) = false := by
    rcases kind with kindEq | kindEq <;> simp [kindEq]
  induction cells generalizing origin start lead with
  | nil => exact absurd rfl nonempty
  | cons cell rest ih =>
      have cellWellFormed := wellFormed cell List.mem_cons_self
      have inside : ∀ lexeme ∈ lead ++ cell.lexemes start,
          (lexeme.kind == .separator) = false := by
        intro lexeme member
        rcases List.mem_append.mp member with inLead | inCell
        · exact notSeparator (leadKind lexeme inLead)
        · simpa using (WrittenCell.kind_of_mem_lexemes cellWellFormed inCell).1
      cases rest with
      | nil =>
          have insideAll : ∀ lexeme ∈ lead ++ (cell.lexemes start ++ tail),
              (lexeme.kind == .separator) = false := by
            intro lexeme member
            rw [← List.append_assoc] at member
            rcases List.mem_append.mp member with inFront | inTail
            · exact inside lexeme inFront
            · exact notSeparator (tailKind lexeme inTail)
          have onlyCell := WrittenCell.cellOf_lexemes_append cellWellFormed leadKind tailKind anchor
          simp only [cellLexemes, segments_of_forall_not insideAll, cellsOf, onlyCell, layCellsTo]
          refine ⟨?_, rfl⟩
          split <;> rfl
      | cons next rest =>
          have firstCell := WrittenCell.cellOf_lexemes cellWellFormed leadKind anchor
          have others := @ih (start + cell.text.size + 1) (start + cell.text.size + 1) []
            (List.cons_ne_nil _ _)
            (fun other member => wellFormed other (List.mem_cons_of_mem _ member)) (by simp) rfl
          rw [cellLexemes_cons_cons, List.append_assoc, ← List.append_assoc lead, List.cons_append,
            segments_append_cons inside rfl]
          simp only [cellsOf, firstCell, List.map_cons]
          constructor
          · exact congrArg _ others.1
          · exact congrArg _ others.2

/-- The lexemes of written cells make up their cells, with the separators between
them. -/
theorem cellsOf_cellLexemes {origin start : Nat} {lead : List Lexeme}
    {cells : List WrittenCell} (nonempty : cells ≠ [])
    (wellFormed : ∀ cell ∈ cells, cell.WellFormed)
    (leadKind : ∀ lexeme ∈ lead, lexeme.kind = .space ∨ lexeme.kind = .rule)
    (anchor : ((rulesOf lead).getLast?.map Lexeme.stop).getD origin = start) :
    let parts := segments (·.kind == .separator) (lead ++ cellLexemes start cells)
    cellsOf origin parts.1 parts.2 = layCells start cells ∧
      parts.1.map (·.2.span) = laySeparators start cells := by
  have alone := @cellsOf_cellLexemes_append origin start lead [] cells nonempty wellFormed leadKind
    (by simp) anchor
  simp only [List.append_nil] at alone
  rw [← layCellsTo_none wellFormed]
  exact alone

end LatexTabular
