import LatexTabular.Proofs.Edit.Rewrite
import LatexTabular.Proofs.Sheet.Outline
import LatexTabular.Proofs.Table.Lookup

/-!
# Parts of a sheet

Cells of a row are looked at with what stands in front of them and behind them, so
that an edit of some cells rewrites the whole row (`rewrites_cellsText`), an edit of
each row the body (`rewrites_rowsText`), and an edit of the body the sheet
(`Sheet.rewrites_text`).
-/

namespace LatexTabular

open Text

/-- The text of cells, each with the separator behind it. -/
def frontText (cells : List WrittenCell) : Text := cells.flatMap (·.text ++ ['&'])

/-- The text of cells, each with the separator in front of it. -/
def backText (cells : List WrittenCell) : Text := cells.flatMap ('&' :: ·.text)

@[simp] theorem frontText_nil : frontText [] = [] := rfl

@[simp] theorem backText_nil : backText [] = [] := rfl

theorem frontText_cons (cell : WrittenCell) (rest : List WrittenCell) :
    frontText (cell :: rest) = cell.text ++ ('&' :: frontText rest) := by
  simp [frontText]

theorem backText_cons (cell : WrittenCell) (rest : List WrittenCell) :
    backText (cell :: rest) = '&' :: (cell.text ++ backText rest) := by
  simp [backText]

theorem frontText_append (left right : List WrittenCell) :
    frontText (left ++ right) = frontText left ++ frontText right := List.flatMap_append

theorem backText_append (left right : List WrittenCell) :
    backText (left ++ right) = backText left ++ backText right := List.flatMap_append

theorem cellsText_cons (cell : WrittenCell) (rest : List WrittenCell) :
    cellsText (cell :: rest) = cell.text ++ backText rest := by
  induction rest generalizing cell with
  | nil => exact (List.append_nil _).symm
  | cons next rest ih => rw [cellsText_cons_cons, ih, backText_cons]

/-- Cells with others in front of them. -/
theorem cellsText_append_cons (before : List WrittenCell) (cell : WrittenCell)
    (behind : List WrittenCell) :
    cellsText (before ++ cell :: behind) = frontText before ++ (cell.text ++ backText behind) := by
  induction before with
  | nil => rw [List.nil_append, cellsText_cons, frontText_nil, List.nil_append]
  | cons first rest ih =>
      obtain ⟨next, others, restEq⟩ :=
        List.exists_cons_of_ne_nil (show rest ++ cell :: behind ≠ [] by simp)
      rw [List.cons_append, restEq, cellsText_cons_cons, ← restEq, ih, frontText_cons,
        List.append_assoc, List.cons_append]

/-- Cells between others. -/
theorem cellsText_append {middle : List WrittenCell} (before behind : List WrittenCell)
    (nonempty : middle ≠ []) :
    cellsText (before ++ (middle ++ behind))
      = frontText before ++ (cellsText middle ++ backText behind) := by
  cases middle with
  | nil => exact absurd rfl nonempty
  | cons first rest =>
      rw [List.cons_append, cellsText_append_cons, cellsText_cons, backText_append,
        List.append_assoc]

theorem layCells_append (start : Nat) (before behind : List WrittenCell) :
    layCells start (before ++ behind)
      = layCells start before ++ layCells (start + (frontText before).size) behind := by
  have separator : '&'.utf8Size = 1 := by decide
  induction before generalizing start with
  | nil => rfl
  | cons first rest ih =>
      simp only [List.cons_append, layCells, ih, frontText_cons, Text.size_append,
        Text.size_cons, separator]
      simp only [Nat.add_assoc]

theorem layCells_cons (start : Nat) (cell : WrittenCell) (rest : List WrittenCell) :
    layCells start (cell :: rest) = cell.entry.laid (start + cell.before.size)
      :: layCells (start + cell.text.size + 1) rest := rfl

theorem length_layCells (start : Nat) (cells : List WrittenCell) :
    (layCells start cells).length = cells.length := by
  induction cells generalizing start with
  | nil => rfl
  | cons cell rest ih => simp [layCells, ih]

theorem length_laySeparators (start : Nat) (cells : List WrittenCell) :
    (laySeparators start cells).length = cells.length - 1 := by
  induction cells generalizing start with
  | nil => rfl
  | cons cell rest ih =>
      cases rest with
      | nil => rfl
      | cons next others =>
          rw [laySeparators, List.length_cons, ih]
          · simp
          · simp

/-- Edits of some cells rewrite the row of cells that they stand in. -/
theorem rewrites_cellsText {start : Nat} {before middle middle' behind : List WrittenCell}
    {edits : Batch} (nonempty : middle ≠ []) (nonempty' : middle' ≠ [])
    (rewrites : Rewrites (start + (frontText before).size) (cellsText middle) edits
      (cellsText middle')) :
    Rewrites start (cellsText (before ++ (middle ++ behind))) edits
      (cellsText (before ++ (middle' ++ behind))) := by
  have whole := (Rewrites.refl start (frontText before)).append
    (rewrites.append (Rewrites.refl _ (backText behind)))
  rw [cellsText_append _ _ nonempty, cellsText_append _ _ nonempty']
  simpa using whole

/-- Edits of the cells of a row rewrite the row. -/
theorem WrittenRow.rewrites_text {start : Nat} {row : WrittenRow} {cells : List WrittenCell}
    {edits : Batch}
    (rewrites : Rewrites (row.cellsStart start) (cellsText row.cells) edits (cellsText cells)) :
    Rewrites start row.text edits { row with cells }.text := by
  have whole := (Rewrites.refl start (rulesText row.ruleGaps)).append
    (rewrites.append (Rewrites.refl _ "\\\\".toList))
  simpa [WrittenRow.text] using whole

/-- Edits of each row rewrite the rows of a body.  They must not depend on the rules
that a row is read with, since the last one gets those behind it. -/
theorem rewrites_rowsText {start : Nat} {closing : List Span} {rows : List WrittenRow}
    {edits : Row → List Edit} {update : WrittenRow → WrittenRow}
    (rewrites : ∀ row ∈ rows, ∀ (start : Nat) (rules : List Span),
      Rewrites start row.text (edits { row.laid start with rules }) (update row).text) :
    Rewrites start (Sheet.rowsText rows) ((layRows start closing rows).flatMap edits)
      (Sheet.rowsText (rows.map update)) := by
  induction rows generalizing start with
  | nil => exact .refl _ _
  | cons row rest ih =>
      have ofFirst := rewrites row List.mem_cons_self start
      cases rest with
      | nil => simpa [layRows, Sheet.rowsText] using ofFirst _
      | cons next rest =>
          have others := @ih (start + row.text.size)
            fun other member => rewrites other (List.mem_cons_of_mem _ member)
          exact (ofFirst (layRules start row.ruleGaps)).append others

namespace Sheet

variable {sheet : Sheet} {rows : List WrittenRow} {edits : Batch}

/-- What stands behind the rows of a sheet. -/
def back (sheet : Sheet) : Text := sheet.closingText ++ closing ++ sheet.trail

theorem text_eq_append (sheet : Sheet) :
    sheet.text = sheet.front ++ (sheet.specifier ++ (['}'] ++ (rowsText sheet.rows ++ sheet.back)))
      := by
  simp [text, body, back]

/-- Edits of the rows rewrite the sheet. -/
theorem rewrites_text
    (rewrites : Rewrites sheet.bodyStart (rowsText sheet.rows) edits (rowsText rows)) :
    Rewrites 0 sheet.text edits { sheet with rows }.text := by
  have closed : Text.size ['}'] = 1 := by decide
  have startEq : 0 + Text.size (sheet.front ++ (sheet.specifier ++ ['}'])) = sheet.bodyStart := by
    simp only [Text.size_append, closed, Nat.zero_add, ← Nat.add_assoc]
    rfl
  rw [← startEq] at rewrites
  have whole := (Rewrites.refl 0 (sheet.front ++ (sheet.specifier ++ ['}']))).append
    (rewrites.append (Rewrites.refl _ sheet.back))
  have targetEq : ({ sheet with rows } : Sheet).text
      = sheet.front ++ (sheet.specifier ++ (['}'] ++ (rowsText rows ++ sheet.back))) :=
    text_eq_append _
  rw [text_eq_append, targetEq]
  simpa using whole

/-- A new specifier and edits of the rows rewrite the sheet. -/
theorem rewrites_text_of_specifier {specifier : Text} (nonempty : sheet.specifier ≠ [])
    (rewrites : Rewrites sheet.bodyStart (rowsText sheet.rows) edits (rowsText rows)) :
    Rewrites 0 sheet.text (⟨sheet.specifierSpan, specifier⟩ :: edits)
      { sheet with specifier, rows }.text := by
  have closed : Text.size ['}'] = 1 := by decide
  have startEq : 0 + sheet.front.size + sheet.specifier.size + Text.size ['}']
      = sheet.bodyStart := by
    rw [closed, Nat.zero_add]
    rfl
  rw [← startEq] at rewrites
  have spanEq : sheet.specifierSpan = ⟨0 + sheet.front.size,
      0 + sheet.front.size + sheet.specifier.size⟩ := by
    rw [Nat.zero_add]
    rfl
  have behind := (Rewrites.refl _ ['}']).append (rewrites.append (Rewrites.refl _ sheet.back))
  have inFront : Rewrites (0 + sheet.front.size) sheet.specifier
      [⟨⟨0 + sheet.front.size, 0 + sheet.front.size + sheet.specifier.size⟩, specifier⟩]
      specifier := by
    have replaced := Rewrite.replacement (0 + sheet.front.size) [] [] specifier nonempty
    simpa using replaced.rewrites
  have whole := (Rewrites.refl 0 sheet.front).append (inFront.append behind)
  have targetEq : ({ sheet with specifier, rows } : Sheet).text
      = sheet.front ++ (specifier ++ (['}'] ++ (rowsText rows ++ sheet.back))) :=
    text_eq_append _
  rw [text_eq_append, targetEq, spanEq]
  simpa using whole

end Sheet

end LatexTabular
