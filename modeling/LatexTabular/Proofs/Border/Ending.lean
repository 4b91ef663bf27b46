import LatexTabular.Proofs.Body.Rows
import LatexTabular.Proofs.Sheet.Regular

/-!
# Endings of bodies

The last row of a body may lack its terminator.  Rules may stand behind its cells, in front
of the terminator and behind it.  An ending is such a row with all that follows it, and
`Ending.laid` is the row that it is read as (`rowsOf_lex_ending`).
-/

namespace LatexTabular

open Markup Body

namespace WrittenRow

/-- A row without its terminator. -/
def opened (row : WrittenRow) : Text := rulesText row.ruleGaps ++ cellsText row.cells

/-- Whether nothing stands in the last cell of a row. -/
def EndsBlank (row : WrittenRow) : Prop := row.cells.getLast?.map (·.entry.text) = some []

instance (row : WrittenRow) : Decidable row.EndsBlank :=
  inferInstanceAs (Decidable (row.cells.getLast?.map (·.entry.text) = some []))

end WrittenRow

/-- What follows the last terminator of a body. -/
structure Closing where
  /-- The white space in front of each rule. -/
  gaps : List Text
  /-- The white space behind the rules. -/
  gap : Text
  deriving DecidableEq, Repr

/-- The last row of a body and what follows it. -/
structure Ending where
  /-- The rules in front of the cells, and the cells. -/
  row : WrittenRow
  /-- The white space in front of each rule behind the cells. -/
  gaps : List Text
  /-- The white space behind these rules. -/
  gap : Text
  /-- What follows the terminator, if there is one. -/
  closing : Option Closing
  deriving DecidableEq, Repr

namespace Closing

def text (closing : Closing) : Text := rulesText closing.gaps ++ closing.gap

end Closing

namespace Ending

/-- What follows the cells and the rules behind them. -/
def closingText (ending : Ending) : Text :=
  match ending.closing with
  | none => []
  | some closing => "\\\\".toList ++ closing.text

def text (ending : Ending) : Text :=
  ending.row.opened ++ (rulesText ending.gaps ++ (ending.gap ++ ending.closingText))

/-- Where the rules behind the cells start. -/
def rulesStart (start : Nat) (ending : Ending) : Nat := start + ending.row.opened.size

/-- Where these rules end. -/
def rulesStop (start : Nat) (ending : Ending) : Nat :=
  ending.rulesStart start + (rulesText ending.gaps).size

/-- Where a terminator ends. -/
def terminatorStop (start : Nat) (ending : Ending) : Nat :=
  ending.rulesStop start + ending.gap.size + 2

/-- Where rules behind an empty last cell put it. -/
def anchor? (start : Nat) (ending : Ending) : Option Nat :=
  if ending.gaps = [] then none else some (ending.rulesStop start)

/-- The rules behind the terminator. -/
def closingRules (start : Nat) (ending : Ending) : List Span :=
  (ending.closing.map fun closing => layRules (ending.terminatorStop start) closing.gaps).getD []

/-- The row that starts at an offset. -/
def laid (start : Nat) (ending : Ending) : Row :=
  let cells := layCellsTo (ending.anchor? start) (ending.row.cellsStart start) ending.row.cells
  { span := ⟨start,
      match ending.closing with
      | none => (cells.getLast?.map (·.extent.stop)).getD start
      | some _ => ending.terminatorStop start⟩
    rules := layRules start ending.row.ruleGaps
      ++ (layRules (ending.rulesStart start) ending.gaps ++ ending.closingRules start)
    cells := cells
    separators := laySeparators (ending.row.cellsStart start) ending.row.cells
    terminator := ending.closing.map fun _ =>
      ⟨ending.rulesStop start + ending.gap.size, ending.terminatorStop start⟩ }

/-- An ending that is read as it is written.  Without a terminator, the white space behind
the last cell is that of what follows.  Without a terminator, or with rules in front of it,
something must stand in the row. -/
structure WellFormed (ending : Ending) : Prop where
  row : ending.row.WellFormed
  detached : ending.row.Detached
  gaps : ∀ gap ∈ ending.gaps, gap.IsSpace
  gap : ending.gap.IsSpace
  closingGaps : ∀ closing ∈ ending.closing, ∀ gap ∈ closing.gaps, gap.IsSpace
  closingGap : ∀ closing ∈ ending.closing, closing.gap.IsSpace
  flush : ending.closing = none → ∀ cell ∈ ending.row.cells.getLast?, cell.after = []
  fills : ending.closing = none ∨ ending.gaps ≠ [] → ending.row.cells.map (·.entry.text) ≠ [[]]

/-- The lexemes of an ending up to its terminator. -/
def lexemes (start : Nat) (ending : Ending) : List Lexeme :=
  ending.row.lexemes start ++ closingLexemes (ending.rulesStart start) ending.gaps ending.gap

def terminatorLexeme (start : Nat) (ending : Ending) : Lexeme :=
  ⟨ending.rulesStop start + ending.gap.size, .terminator, "\\\\".toList⟩

end Ending

theorem WrittenRow.isClear_opened_append {row : WrittenRow} (wellFormed : row.WellFormed)
    (detached : row.Detached) {rest : Text} (clear : rest.IsClear) :
    Text.IsClear (row.opened ++ rest) := by
  rw [opened, List.append_assoc]
  exact isClear_rulesText_append_of_isClear wellFormed.ruleGaps
    (isClear_cells_append wellFormed detached clear)

theorem WrittenRow.lex_opened {start : Nat} {row : WrittenRow} (wellFormed : row.WellFormed)
    (detached : row.Detached) : ∃ blank, ∀ rest : Text, rest.IsClear →
      lex [] start ⟨0, true⟩ (row.opened ++ rest)
        = row.lexemes start ++ lex [] (start + row.opened.size) ⟨0, blank⟩ rest := by
  obtain ⟨blank, cells⟩ := @lexes_cellLexemes (row.cellsStart start) row.cells wellFormed.cells
  refine ⟨blank, fun rest clear => ?_⟩
  have ends : EndsRule (cellsText row.cells ++ rest) :=
    (isClear_cells_append wellFormed detached clear).endsRule
  rw [opened, List.append_assoc, lex_rulesText wellFormed.ruleGaps fun _ => ends,
    show start + (rulesText row.ruleGaps).size = row.cellsStart start from rfl, cells, lexemes,
    List.append_assoc, cellsStart, Text.size_append, Nat.add_assoc]

/-- The last rule ends where what stands behind the rules begins. -/
theorem getLast?_rulesOf_closingLexemes {start : Nat} {gaps : List Text} {gap : Text}
    (gapsSpace : ∀ other ∈ gaps, other.IsSpace) (gapSpace : gap.IsSpace) :
    (rulesOf (closingLexemes start gaps gap)).getLast?.map Lexeme.stop
      = if gaps = [] then none else some (start + (rulesText gaps).size) := by
  have none : (charLexemes (start + (rulesText gaps).size) gap).filter (·.kind == .rule) = [] := by
    rw [List.filter_eq_nil_iff]
    intro lexeme member
    simp [kind_of_mem_charLexemes_of_isSpace gapSpace member]
  have rules : rulesOf (closingLexemes start gaps gap) = rulesOf (ruleLexemes start gaps) := by
    rw [closingLexemes, rulesOf, List.filter_append, none, List.append_nil, rulesOf]
  have anchor := @anchor_ruleLexemes start gaps gapsSpace
  rw [rules]
  cases gaps with
  | nil => rfl
  | cons first others =>
      rw [rulesOf_ruleLexemes_cons others (gapsSpace first List.mem_cons_self)] at anchor ⊢
      rw [List.getLast?_cons] at anchor ⊢
      simpa using anchor

/-- Cells make up a row, also without a terminator, unless there is only an empty one. -/
theorem exists_mem_cellLexemes {start : Nat} {cells : List WrittenCell} (nonempty : cells ≠ [])
    (wellFormed : ∀ cell ∈ cells, cell.WellFormed) (fills : cells.map (·.entry.text) ≠ [[]]) :
    ∃ lexeme ∈ cellLexemes start cells,
      (lexeme.kind == .separator || lexeme.kind.fillsCell) = true := by
  cases cells with
  | nil => exact absurd rfl nonempty
  | cons cell rest =>
      cases rest with
      | cons next rest =>
          refine ⟨⟨start + cell.text.size, .separator, ['&']⟩, ?_, rfl⟩
          rw [cellLexemes_cons_cons]
          exact List.mem_append_right _ List.mem_cons_self
      | nil =>
          have ends := @Entry.ends_lexemes (start + cell.before.size) _
            (wellFormed cell List.mem_cons_self).entry
          have filled : cell.entry.text ≠ [] := by simpa using fills
          obtain ⟨first, isFirst⟩ : ∃ first,
              (cell.entry.lexemes (start + cell.before.size)).head? = some first := by
            obtain ⟨before, entry, after⟩ := cell
            cases entry with
            | merged number specifier content => exact ⟨_, rfl⟩
            | plain content =>
                cases content with
                | nil => exact absurd rfl filled
                | cons head others => exact ⟨_, rfl⟩
          refine ⟨first, ?_, ?_⟩
          · exact List.mem_append_right _ (List.mem_append_left _ (List.mem_of_mem_head? isFirst))
          · rw [(ends.1 first isFirst).1, Bool.or_true]

namespace Ending

variable {start : Nat} {ending : Ending}

/-- What stands behind the cells of an ending is clear of them. -/
theorem isClear_tail (wellFormed : ending.WellFormed) :
    Text.IsClear ending.closingText ∧
      Text.IsClear (rulesText ending.gaps ++ (ending.gap ++ ending.closingText)) := by
  have clear : Text.IsClear ending.closingText := by
    unfold closingText
    split
    · exact isClear_of_isSpace Text.isSpace_nil
    · exact .backslash _
  exact ⟨clear, isClear_rulesText_append_of_isClear wellFormed.gaps (.append wellFormed.gap clear)⟩

theorem isClear_text (wellFormed : ending.WellFormed) : ending.text.IsClear :=
  WrittenRow.isClear_opened_append wellFormed.row wellFormed.detached (isClear_tail wellFormed).2

theorem kind_of_mem_lexemes (wellFormed : ending.WellFormed) {lexeme : Lexeme}
    (member : lexeme ∈ ending.lexemes start) : (lexeme.kind == .terminator) = false := by
  rcases List.mem_append.mp member with inRow | inClosing
  · simpa using WrittenRow.kind_of_mem_lexemes wellFormed.row inRow
  · rcases kind_of_mem_closingLexemes wellFormed.gaps wellFormed.gap inClosing with
      kindEq | kindEq <;> simp [kindEq]

/-- The cells of an ending are followed by what stands behind them. -/
theorem lex_text (wellFormed : ending.WellFormed) : ∃ blank,
    lex [] start ⟨0, true⟩ ending.text
      = ending.lexemes start ++ lex [] (ending.rulesStop start + ending.gap.size) ⟨0, blank⟩
        ending.closingText := by
  obtain ⟨blank, opened⟩ := @WrittenRow.lex_opened start _ wellFormed.row wellFormed.detached
  refine ⟨blank, ?_⟩
  obtain ⟨clear, clearRules⟩ := isClear_tail wellFormed
  rw [text, opened _ clearRules, lex_closingText_append wellFormed.gaps wellFormed.gap clear,
    lexemes, List.append_assoc]
  rfl

/-- The lexemes of an ending make up its row. -/
theorem rowOf_lexemes (wellFormed : ending.WellFormed) :
    let row := rowOf start (ending.lexemes start)
      (ending.closing.map fun _ => ending.terminatorLexeme start)
    { row with rules := row.rules ++ ending.closingRules start } = ending.laid start := by
  have tailRules := @map_span_rulesOf_closingLexemes (ending.rulesStart start) _ _ wellFormed.gaps
    wellFormed.gap
  have rules : (rulesOf (ending.lexemes start)).map Lexeme.span
      = layRules start ending.row.ruleGaps ++ layRules (ending.rulesStart start) ending.gaps := by
    have none : (cellLexemes (ending.row.cellsStart start) ending.row.cells).filter
        (·.kind == .rule) = [] := by
      rw [List.filter_eq_nil_iff]
      intro lexeme member
      simpa using (kind_of_mem_cellLexemes wellFormed.row.cells member).2
    rw [lexemes, WrittenRow.lexemes, rulesOf, List.filter_append, List.filter_append, none,
      List.append_nil, List.map_append, ← tailRules,
      ← map_span_rulesOf_ruleLexemes wellFormed.row.ruleGaps]
    rfl
  obtain ⟨cells, separators⟩ := @cellsOf_cellLexemes_append start
    (ending.row.cellsStart start) _ _ _ wellFormed.row.nonempty wellFormed.row.cells
    (fun lexeme => kind_of_mem_ruleLexemes wellFormed.row.ruleGaps)
    (fun lexeme => kind_of_mem_closingLexemes wellFormed.gaps wellFormed.gap)
    (anchor_ruleLexemes wellFormed.row.ruleGaps)
  rw [getLast?_rulesOf_closingLexemes wellFormed.gaps wellFormed.gap] at cells
  have parts : ending.lexemes start = ruleLexemes start ending.row.ruleGaps
      ++ (cellLexemes (ending.row.cellsStart start) ending.row.cells
        ++ closingLexemes (ending.rulesStart start) ending.gaps ending.gap) := by
    rw [lexemes, WrittenRow.lexemes, List.append_assoc]
  rw [← parts] at cells separators
  dsimp only [rowOf]
  rw [rules, cells, separators]
  have anchor : (if ending.gaps = [] then none
      else some (ending.rulesStart start + (rulesText ending.gaps).size))
        = ending.anchor? start := rfl
  rw [anchor, List.append_assoc]
  unfold laid
  cases ending.closing with
  | none => rfl
  | some closing => rfl

/-- Without a terminator the lexemes of an ending make its row. -/
theorem rowsOf_lex_of_closing_eq_none (wellFormed : ending.WellFormed)
    (unclosed : ending.closing = none) :
    rowsOf start (lex [] start ⟨0, true⟩ ending.text) = [ending.laid start] := by
  obtain ⟨blank, lexed⟩ := @lex_text start ending wellFormed
  have row := @rowOf_lexemes start ending wellFormed
  obtain ⟨lexeme, isLexeme, fills⟩ := @exists_mem_cellLexemes (ending.row.cellsStart start) _
    wellFormed.row.nonempty wellFormed.row.cells (wellFormed.fills (Or.inl unclosed))
  have makes : makesRow (ending.lexemes start) = true :=
    List.any_eq_true.mpr ⟨lexeme, List.mem_append_left _ (List.mem_append_right _ isLexeme), fills⟩
  have empty : ending.closingText = [] := by rw [closingText, unclosed]
  have noRules : ending.closingRules start = [] := by
    rw [closingRules, unclosed, Option.map_none, Option.getD_none]
  rw [unclosed, noRules] at row
  simp only [lexed, empty, lex_nil, List.append_nil, rowsOf,
    segments_of_forall_not fun lexeme => kind_of_mem_lexemes wellFormed, rowsFrom, makes, if_true]
  rw [← row]
  simp

/-- A terminator closes the row of an ending, and the rules behind it belong to that row. -/
theorem rowsOf_lex_of_closing_eq_some (wellFormed : ending.WellFormed) {closing : Closing}
    (closed : ending.closing = some closing) :
    rowsOf start (lex [] start ⟨0, true⟩ ending.text) = [ending.laid start] := by
  obtain ⟨blank, lexed⟩ := @lex_text start ending wellFormed
  have row := @rowOf_lexemes start ending wellFormed
  have gaps := wellFormed.closingGaps closing closed
  have gap := wellFormed.closingGap closing closed
  have clear : Text.IsClear closing.text :=
    isClear_rulesText_append_of_isClear gaps (isClear_of_isSpace gap)
  have whole : ending.closingText = "\\\\".toList ++ closing.text := by rw [closingText, closed]
  have behind : lex [] (ending.rulesStop start + ending.gap.size) ⟨0, blank⟩ ending.closingText
      = ending.terminatorLexeme start
        :: closingLexemes (ending.terminatorStop start) closing.gaps closing.gap := by
    rw [whole, lex_terminator clear.optionalGroup?_eq_none, Closing.text, lex_closingText gaps gap]
    rfl
  obtain ⟨unclosed, noRow⟩ := @segments_closingLexemes (ending.terminatorStop start) _ _ gaps gap
  have isTerminator : ((ending.terminatorLexeme start).kind == .terminator) = true := rfl
  have rules : ending.closingRules start = layRules (ending.terminatorStop start) closing.gaps := by
    rw [closingRules, closed]
    rfl
  rw [closed, rules] at row
  rw [lexed, behind, rowsOf,
    segments_append_cons (fun lexeme => kind_of_mem_lexemes wellFormed) isTerminator, unclosed]
  simp only [rowsFrom, noRow, Bool.false_eq_true, if_false,
    map_span_rulesOf_closingLexemes gaps gap]
  rw [← row]
  rfl

/-- An ending is read as its row. -/
theorem rowsOf_lex_ending (wellFormed : ending.WellFormed) :
    rowsOf start (lex [] start ⟨0, true⟩ ending.text) = [ending.laid start] := by
  cases closed : ending.closing with
  | none => exact rowsOf_lex_of_closing_eq_none wellFormed closed
  | some closing => exact rowsOf_lex_of_closing_eq_some wellFormed closed

end Ending

theorem layRows_nil_cons (start : Nat) (row : WrittenRow) (rest : List WrittenRow) :
    layRows start [] (row :: rest)
      = row.laid start :: layRows (start + row.text.size) [] rest := by
  cases rest with
  | cons next rest => rfl
  | nil => simp [layRows, WrittenRow.laid]

/-- A body is read as its rows and its ending. -/
theorem rowsOf_lex_rowsText_append {start : Nat} {rows : List WrittenRow} {ending : Ending}
    (wellFormed : ∀ row ∈ rows, row.WellFormed) (detached : ∀ row ∈ rows, row.Detached)
    (endingWellFormed : ending.WellFormed) :
    rowsOf start (lex [] start ⟨0, true⟩ (Sheet.rowsText rows ++ ending.text))
      = layRows start [] rows ++ [ending.laid (start + (Sheet.rowsText rows).size)] := by
  have guarded := Sheet.guarded_rows (Ending.isClear_text endingWellFormed) wellFormed detached
  induction rows generalizing start with
  | nil => exact Ending.rowsOf_lex_ending endingWellFormed
  | cons row rest ih =>
      have first := wellFormed row List.mem_cons_self
      have others := @ih (start + row.text.size)
        (fun other member => wellFormed other (List.mem_cons_of_mem _ member))
        (fun other member => detached other (List.mem_cons_of_mem _ member)) guarded.2.2
      have parts := @segments_lex_cons start rest row ending.text first guarded
      simp only [rowsOf, parts] at others ⊢
      rw [← row.stop_terminatorLexeme start] at others ⊢
      rw [rowsFrom_cons (by simp [others]), others, WrittenRow.rowOf_lexemes start first,
        row.stop_terminatorLexeme, layRows_nil_cons, Sheet.rowsText_cons, Text.size_append,
        ← Nat.add_assoc]
      rfl

end LatexTabular
