import LatexTabular.Proofs.Border.Ending
import LatexTabular.Proofs.Sheet.Surroundings

/-!
# Sheets with an open end

An open sheet is a sheet whose last row may lack its terminator.  Its tabular is the only
environment, and its table is read as it is written (`OpenSheet.readTable_eq`).
-/

namespace LatexTabular

open Markup Body

namespace Ending

variable {ending : Ending} {rest : Text}

/-- Whatever stands behind the terminator of an ending, it is not part of a delimiter. -/
theorem isUnbraced_closing_append {closing : Closing} (gaps : ∀ gap ∈ closing.gaps, gap.IsSpace)
    (gap : closing.gap.IsSpace) (unbraced : rest.IsUnbraced) :
    Text.IsUnbraced (closing.text ++ rest) := by
  have ordinary : ∀ character ∈ closing.gap, Text.isOrdinary character = true :=
    fun character member => isOrdinary_of_isSpace (gap character member)
  rw [Closing.text, List.append_assoc]
  exact isUnbraced_rulesText_append gaps ((Text.IsUnbraced.iff_of_isOrdinary ordinary).mpr unbraced)

theorem isUnbraced_text_append (wellFormed : ending.WellFormed) (unbraced : rest.IsUnbraced) :
    Text.IsUnbraced (ending.text ++ rest) := by
  have ordinary : ∀ character ∈ ending.gap, Text.isOrdinary character = true :=
    fun character member => isOrdinary_of_isSpace (wellFormed.gap character member)
  have closing : Text.IsUnbraced (ending.closingText ++ rest) := by
    unfold closingText
    split
    · exact unbraced
    · exact .of_head (Or.inr rfl) _
  have rules := isUnbraced_rulesText_append wellFormed.gaps
    ((Text.IsUnbraced.iff_of_isOrdinary ordinary).mpr closing)
  have whole := isUnbraced_rulesText_append wellFormed.row.ruleGaps
    (isUnbraced_cellsText_append wellFormed.row.cells rules)
  simpa [text, WrittenRow.opened] using whole

/-- No delimiter starts in an ending. -/
theorem delimitersFrom_text (wellFormed : ending.WellFormed) (unbraced : rest.IsUnbraced)
    (offset : Nat) : delimitersFrom offset (ending.text ++ rest)
      = delimitersFrom (offset + ending.text.size) rest := by
  have front : Undelimited (ending.row.opened ++ (rulesText ending.gaps ++ ending.gap)) :=
    ((undelimited_rulesText wellFormed.row.ruleGaps).append
      (undelimited_cellsText wellFormed.row.cells)).append
      ((undelimited_rulesText wellFormed.gaps).append (undelimited_of_isSpace wellFormed.gap))
  have behind (offset : Nat) : delimitersFrom offset (ending.closingText ++ rest)
      = delimitersFrom (offset + ending.closingText.size) rest := by
    unfold closingText
    cases closed : ending.closing with
    | none => rfl
    | some closing =>
        have gaps := wellFormed.closingGaps closing closed
        have gap := wellFormed.closingGap closing closed
        have plain : Undelimited closing.text :=
          (undelimited_rulesText gaps).append (undelimited_of_isSpace gap)
        have size : Text.size "\\\\".toList = 2 := by decide
        have ends := (isUnbraced_closing_append gaps gap unbraced).delimiter?_eq_none
        dsimp only
        rw [List.append_assoc, delimitersFrom_terminator ends, plain, Text.size_append, size,
          Nat.add_assoc]
  have parts : ending.text
      = (ending.row.opened ++ (rulesText ending.gaps ++ ending.gap)) ++ ending.closingText := by
    simp [text]
  rw [parts, List.append_assoc, front, behind, Text.size_append _ ending.closingText, Nat.add_assoc]

theorem notMem_text (wellFormed : ending.WellFormed) : '%' ∉ ending.text := by
  have closing : '%' ∉ ending.closingText := by
    unfold closingText
    cases closed : ending.closing with
    | none => exact List.not_mem_nil
    | some closing =>
        simp [Closing.text, notMem_rulesText (wellFormed.closingGaps closing closed),
          notMem_of_isSpace (wellFormed.closingGap closing closed)]
  simp [text, WrittenRow.opened, closing, notMem_rulesText wellFormed.row.ruleGaps,
    notMem_cellsText wellFormed.row.cells, notMem_rulesText wellFormed.gaps,
    notMem_of_isSpace wellFormed.gap]

end Ending

namespace Sheet

variable {sheet : Sheet}

/-- A tabular without comments and delimiters in it or around it is the only environment. -/
theorem environments_of_isClear (clear : sheet.IsClear) (lead : '\\' ∉ sheet.lead)
    (trail : '\\' ∉ sheet.trail) (plain : '%' ∉ sheet.text) :
    environments sheet.text = [sheet.tabular] := by
  have noneBehind (offset : Nat) : delimitersFrom offset sheet.trail = [] := by
    have none := delimitersFrom_append_of_notMem offset [] trail
    rwa [List.append_nil] at none
  have all : delimitersFrom 0 sheet.text = [⟨true, "tabular".toList, sheet.tabular.opening⟩,
      ⟨false, "tabular".toList, sheet.tabular.closing⟩] := by
    rw [text_eq, delimitersFrom_append_of_notMem 0 _ lead, Nat.zero_add, delimitersFrom_opening,
      clear.undelimited, delimitersFrom_closing, size_interior, noneBehind]
    rfl
  have uncommented : (fun delimiter : Delimiter =>
      !isCommented sheet.text delimiter.span.start) = fun _ => true := by
    funext delimiter
    simp [isCommented_of_notMem plain]
  rw [environments, delimiters, uncommented, List.filter_true, all]
  simp [Environment.matching, tabular]

end Sheet

/-- A document with one tabular, whose last row may lack its terminator. -/
structure OpenSheet where
  /-- What stands in front of the tabular. -/
  lead : Text
  specifier : Text
  /-- The rows in front of the last one. -/
  rows : List WrittenRow
  ending : Ending
  /-- What stands behind the tabular. -/
  trail : Text
  deriving DecidableEq, Repr

namespace OpenSheet

def body (sheet : OpenSheet) : Text := Sheet.rowsText sheet.rows ++ sheet.ending.text

/-- The sheet whose body is not looked into. -/
def unread (sheet : OpenSheet) : Sheet where
  lead := sheet.lead
  specifier := sheet.specifier
  rows := []
  closingGaps := []
  closingGap := sheet.body
  trail := sheet.trail

def text (sheet : OpenSheet) : Text := sheet.unread.text

def bodyStart (sheet : OpenSheet) : Nat := sheet.unread.bodyStart

/-- Where the last row starts. -/
def endingStart (sheet : OpenSheet) : Nat :=
  sheet.bodyStart + (Sheet.rowsText sheet.rows).size

/-- The rows of an open sheet before they are filled up. -/
def laidRows (sheet : OpenSheet) : List Row :=
  layRows sheet.bodyStart [] sheet.rows ++ [sheet.ending.laid sheet.endingStart]

/-- The table that an open sheet is to be read as. -/
def table (sheet : OpenSheet) : Table :=
  { sheet.unread.table with
    rows := sheet.laidRows.map (Row.padded sheet.unread.columnCount) }

/-- An open sheet that is read as it is written. -/
structure WellFormed (sheet : OpenSheet) : Prop where
  lead : '\\' ∉ sheet.lead ∧ '%' ∉ sheet.lead
  specifier : sheet.specifier.IsBarred
  rows : ∀ row ∈ sheet.rows, row.WellFormed
  detached : ∀ row ∈ sheet.rows, row.Detached
  ending : sheet.ending.WellFormed
  trail : '\\' ∉ sheet.trail ∧ '%' ∉ sheet.trail

variable {sheet : OpenSheet}

theorem interior_unread (sheet : OpenSheet) :
    sheet.unread.interior = '{' :: sheet.specifier ++ '}' :: sheet.body := rfl

theorem text_eq (sheet : OpenSheet) : sheet.text = sheet.lead ++ (Sheet.opening
    ++ ('{' :: sheet.specifier ++ '}' :: sheet.body ++ (Sheet.closing ++ sheet.trail))) := by
  rw [text, Sheet.text_eq, interior_unread]
  rfl

theorem notMem_body (wellFormed : sheet.WellFormed) : '%' ∉ sheet.body := by
  simp [body, notMem_rowsText wellFormed.rows, Ending.notMem_text wellFormed.ending]

theorem notMem_specifier (wellFormed : sheet.WellFormed) {character : Char}
    (special : Text.isOrdinary character = false) : character ∉ sheet.specifier :=
  notMem_of_isOrdinary special (isOrdinary_of_isBarred wellFormed.specifier)

theorem isClear_unread (wellFormed : sheet.WellFormed) : sheet.unread.IsClear := by
  have heading : Undelimited ('{' :: sheet.specifier ++ ['}']) :=
    undelimited_of_notMem (by simp [@notMem_specifier _ wellFormed '\\' (by decide)])
  have unbraced : Text.IsUnbraced (Sheet.closing ++ sheet.trail) := .of_head (Or.inr rfl) _
  have uncommented : Markup.opensComment (Text.lastLine sheet.lead) = false := by
    refine opensComment_of_notMem fun member => wellFormed.lead.2 ?_
    rw [Text.lastLine, List.mem_reverse] at member
    exact List.mem_reverse.mp ((List.takeWhile_sublist _).subset member)
  refine ⟨uncommented, ?_, fun offset => ?_⟩
  · rw [interior_unread]
    simp [notMem_body wellFormed, @notMem_specifier _ wellFormed '%' (by decide)]
  · have parts : sheet.unread.interior
        = ('{' :: sheet.specifier ++ ['}']) ++ (Sheet.rowsText sheet.rows ++ sheet.ending.text) := by
      simp [interior_unread, body]
    have trailEq : sheet.unread.trail = sheet.trail := rfl
    rw [parts, trailEq, List.append_assoc, heading, List.append_assoc,
      delimitersFrom_rowsText wellFormed.rows
        (Ending.isUnbraced_text_append wellFormed.ending unbraced),
      Ending.delimitersFrom_text wellFormed.ending unbraced, Text.size_append _ (_ ++ _),
      Text.size_append (Sheet.rowsText sheet.rows), Nat.add_assoc, Nat.add_assoc]

/-- The tabular of an open sheet is its only environment. -/
theorem environments_text (wellFormed : sheet.WellFormed) :
    environments sheet.text = [sheet.unread.tabular] := by
  refine Sheet.environments_of_isClear (isClear_unread wellFormed) wellFormed.lead.1
    wellFormed.trail.1 ?_
  have delimiters : '%' ∉ Sheet.opening ∧ '%' ∉ Sheet.closing := by decide
  rw [← text, text_eq]
  simp [notMem_body wellFormed, delimiters, wellFormed.lead.2, wellFormed.trail.2,
    @notMem_specifier _ wellFormed '%' (by decide)]

/-- An open sheet is read as it is written. -/
theorem readTable_eq (wellFormed : sheet.WellFormed) : sheet.unread.readTable = sheet.table := by
  have rows : sheet.unread.readRows = sheet.laidRows :=
    rowsOf_lex_rowsText_append wellFormed.rows wellFormed.detached wellFormed.ending
  rw [Sheet.readTable, rows]
  rfl

theorem readAll_text (wellFormed : sheet.WellFormed) :
    Table.readAll sheet.text = .ok [sheet.table] := by
  rw [← readTable_eq wellFormed]
  exact Sheet.readAll_of_alone wellFormed.specifier (environments_text wellFormed)

theorem readAt_text (wellFormed : sheet.WellFormed) {offset : Nat}
    (begins : sheet.lead.size ≤ offset) (ends : offset + sheet.trail.size ≤ sheet.text.size) :
    Table.readAt sheet.text offset = .ok sheet.table := by
  rw [← readTable_eq wellFormed]
  exact Sheet.readAt_of_alone wellFormed.specifier (environments_text wellFormed) begins ends

end OpenSheet

end LatexTabular
