import LatexTabular.Command.Removal
import LatexTabular.Proofs.Sheet.Growth

/-!
# Whole rows of a sheet

Rows are inserted and removed as a whole (`Sheet.apply_insertRow`,
`Sheet.rewrites_removeRows`), and all of them give way to one blank row
(`Sheet.apply_emptyTable`).
-/

namespace LatexTabular

open Text Body

/-- The spans of rows that start at an offset. -/
def rowSpans (start : Nat) : List WrittenRow → List Span
  | [] => []
  | row :: rest => ⟨start, start + row.text.size⟩ :: rowSpans (start + row.text.size) rest

theorem map_span_layRows (start : Nat) (closing : List Span) (rows : List WrittenRow) :
    (layRows start closing rows).map Row.span = rowSpans start rows := by
  induction rows generalizing start with
  | nil => rfl
  | cons row rest ih =>
      cases rest with
      | nil => rfl
      | cons next others =>
          rw [layRows_cons_cons, List.map_cons, ih]
          rfl

theorem rowSpans_append (start : Nat) (rows rest : List WrittenRow) :
    rowSpans start (rows ++ rest)
      = rowSpans start rows ++ rowSpans (start + (Sheet.rowsText rows).size) rest := by
  induction rows generalizing start with
  | nil => rfl
  | cons row others ih =>
      simp only [List.cons_append, rowSpans, ih, Sheet.rowsText_cons, Text.size_append,
        Nat.add_assoc]

theorem length_rowSpans (start : Nat) (rows : List WrittenRow) :
    (rowSpans start rows).length = rows.length := by
  induction rows generalizing start with
  | nil => rfl
  | cons row rest ih => simp [rowSpans, ih]

theorem getElem?_rowSpans (start : Nat) {rows : List WrittenRow} {index : Nat}
    (within : index < rows.length) :
    (rowSpans start rows)[index]? = some ⟨start + (Sheet.rowsText (rows.take index)).size,
      start + (Sheet.rowsText (rows.take (index + 1))).size⟩ := by
  induction rows generalizing start index with
  | nil => exact absurd within (Nat.not_lt_zero _)
  | cons row rest ih =>
      cases index with
      | zero => simp [rowSpans, Sheet.rowsText]
      | succ index =>
          have others := ih (start + row.text.size) (Nat.lt_of_succ_lt_succ within)
          rw [rowSpans, List.getElem?_cons_succ, others]
          simp only [List.take_succ_cons, Sheet.rowsText_cons, Text.size_append, Nat.add_assoc]

theorem WrittenRow.text_ne_nil (row : WrittenRow) : row.text ≠ [] := by
  simp [text]

/-- Blank cells side by side, the first one with a text of white space in it. -/
def blankCells : (lead : Text) → (separators : Nat) → List WrittenCell
  | lead, 0 => [⟨[], .blank, lead⟩]
  | lead, separators + 1 => ⟨[], .blank, lead ++ [' ']⟩ :: blankCells [] separators

theorem blankCells_ne_nil (lead : Text) (separators : Nat) : blankCells lead separators ≠ [] := by
  cases separators <;> exact List.cons_ne_nil _ _

theorem cellsText_blankCells (lead : Text) (separators : Nat) :
    cellsText (blankCells lead separators) = lead ++ Text.repeated separators " &".toList := by
  induction separators generalizing lead with
  | zero => simp [blankCells, cellsText, WrittenCell.text, Entry.blank, Entry.text, Text.repeated]
  | succ separators ih =>
      obtain ⟨next, others, restEq⟩ := List.exists_cons_of_ne_nil (blankCells_ne_nil [] separators)
      have behind := ih []
      rw [blankCells, restEq, cellsText_cons_cons, ← restEq, behind]
      simp [WrittenCell.text, Entry.blank, Entry.text, Text.repeated, List.replicate_succ]

theorem map_outline_blankCells (lead : Text) (separators : Nat) :
    (blankCells lead separators).map (·.entry.outline)
      = List.replicate (separators + 1) Outline.Cell.blank := by
  induction separators generalizing lead with
  | zero => rfl
  | succ separators ih =>
      rw [blankCells, List.map_cons, ih, List.replicate_succ (n := separators + 1)]
      rfl

theorem wellFormed_of_mem_blankCells {lead : Text} {separators : Nat} (space : lead.IsSpace) :
    ∀ cell ∈ blankCells lead separators, cell.WellFormed := by
  induction separators generalizing lead with
  | zero =>
      intro cell member
      obtain rfl := List.mem_singleton.mp member
      exact ⟨isSpace_nil, Entry.wellFormed_blank, space, fun _ => rfl⟩
  | succ separators ih =>
      intro cell member
      rcases List.mem_cons.mp member with rfl | member
      · exact ⟨isSpace_nil, Entry.wellFormed_blank, space.append isSpace_blank, fun _ => rfl⟩
      · exact ih isSpace_nil cell member

theorem detached_of_mem_blankCells {lead : Text} {separators : Nat} :
    ∀ cell ∈ blankCells lead separators, cell.Detached := by
  have blank (after : Text) : WrittenCell.Detached ⟨[], .blank, after⟩ := by
    refine Or.inr ?_
    rintro content ⟨⟩
    rfl
  induction separators generalizing lead with
  | zero =>
      intro cell member
      obtain rfl := List.mem_singleton.mp member
      exact blank _
  | succ separators ih =>
      intro cell member
      rcases List.mem_cons.mp member with rfl | member
      · exact blank _
      · exact ih cell member

namespace WrittenRow

/-- A row of blank cells behind some white space. -/
def blank (lead : Text) (separators : Nat) : WrittenRow := ⟨[], blankCells lead separators⟩

theorem text_blank (lead : Text) (separators : Nat) :
    (blank lead separators).text
      = lead ++ (Text.repeated separators " &".toList ++ "\\\\".toList) := by
  simp [text, blank, cellsText_blankCells, rulesText]

theorem width_blank (lead : Text) (separators : Nat) :
    (blank lead separators).width = separators + 1 := by
  have outlined := totalWidth_map_outline (blankCells lead separators)
  rw [map_outline_blankCells, Outline.totalWidth_replicate_blank] at outlined
  exact outlined.symm

theorem wellFormed_blank {lead : Text} (separators : Nat) (space : lead.IsSpace) :
    (blank lead separators).WellFormed :=
  ⟨by simp [blank], blankCells_ne_nil lead separators, wellFormed_of_mem_blankCells space⟩

theorem detached_blank (lead : Text) (separators : Nat) : (blank lead separators).Detached :=
  fun cell isFirst => detached_of_mem_blankCells cell (List.mem_of_mem_head? isFirst)

theorem outline_blank (lead : Text) (separators : Nat) :
    (blank lead separators).outline (separators + 1)
      = ⟨0, List.replicate (separators + 1) .blank⟩ := by
  have full : separators + 1 - (blank lead separators).width = 0 := by
    rw [width_blank, Nat.sub_self]
  have cells : (blank lead separators).cells.map (·.entry.outline)
      = List.replicate (separators + 1) Outline.Cell.blank := map_outline_blankCells lead separators
  rw [outline, full, cells, List.replicate_zero, List.append_nil]
  rfl

end WrittenRow

namespace Sheet

variable {heading : Heading} {sheet : Sheet}

theorem map_span_rows (sheet : Sheet) :
    sheet.table.rows.map Row.span = rowSpans sheet.bodyStart sheet.rows := by
  have spans := map_span_layRows sheet.bodyStart
    (layRules (sheet.bodyStart + (rowsText sheet.rows).size) sheet.closingGaps) sheet.rows
  rw [← spans, table, laidRows, List.map_map]
  rfl

theorem isSome_terminator {row : Row} (member : row ∈ sheet.table.rows) :
    row.terminator.isNone = false := by
  obtain ⟨laid, isLaid, rfl⟩ := List.mem_map.mp member
  obtain ⟨written, -, offset, rules, rfl⟩ := exists_laid_of_mem_layRows isLaid
  rfl

theorem exists_row {index : Nat} (within : index < sheet.rows.length) :
    ∃ row, sheet.table.rows[index]? = some row ∧
      row.span = ⟨sheet.bodyStart + (rowsText (sheet.rows.take index)).size,
        sheet.bodyStart + (rowsText (sheet.rows.take (index + 1))).size⟩ := by
  have spans := getElem?_rowSpans sheet.bodyStart within
  rw [← map_span_rows, List.getElem?_map, Option.map_eq_some_iff] at spans
  exact spans

theorem insertIdx_eq_append {α : Type} (items : List α) {index : Nat} (item : α)
    (within : index ≤ items.length) :
    items.insertIdx index item = items.take index ++ item :: items.drop index := by
  induction items generalizing index with
  | nil =>
      obtain rfl : index = 0 := Nat.le_zero.mp within
      rfl
  | cons first rest ih =>
      cases index with
      | zero => rfl
      | succ index => simp [List.insertIdx_succ_cons, @ih index (Nat.le_of_succ_le_succ within)]

theorem rowsText_append (rows rest : List WrittenRow) :
    rowsText (rows ++ rest) = rowsText rows ++ rowsText rest := List.flatMap_append

/-- Everything in front of the rows of a sheet. -/
theorem bodyStart_eq (sheet : Sheet) :
    sheet.bodyStart = Text.size (sheet.front ++ (sheet.specifier ++ ['}'])) := by
  have closed : Text.size ['}'] = 1 := by decide
  simp only [Text.size_append, closed, ← Nat.add_assoc]
  rfl

theorem back_ne_nil (sheet : Sheet) : sheet.back ≠ [] := by
  have closes : closing ≠ [] := by decide
  exact List.append_ne_nil_of_left_ne_nil (List.append_ne_nil_of_right_ne_nil _ closes) _

/-- A row that is put between two rows rewrites the sheet. -/
theorem rewrites_insertIdx {index : Nat} (within : index ≤ sheet.rows.length)
    (row : WrittenRow) :
    Rewrites 0 sheet.text
      [.insertion (sheet.bodyStart + (rowsText (sheet.rows.take index)).size) row.text]
      { sheet with rows := sheet.rows.insertIdx index row }.text := by
  have behind : rowsText (sheet.rows.drop index) ++ sheet.back ≠ [] :=
    List.append_ne_nil_of_right_ne_nil _ sheet.back_ne_nil
  have inserted := Rewrite.insertion 0
    (sheet.front ++ (sheet.specifier ++ ['}']) ++ rowsText (sheet.rows.take index)) row.text behind
  have rowsEq : rowsText sheet.rows
      = rowsText (sheet.rows.take index) ++ rowsText (sheet.rows.drop index) := by
    rw [← rowsText_append, List.take_append_drop]
  have targetEq : ({ sheet with rows := sheet.rows.insertIdx index row } : Sheet).text
      = sheet.front ++ (sheet.specifier ++ (['}']
        ++ (rowsText (sheet.rows.insertIdx index row) ++ sheet.back))) := text_eq_append _
  rw [insertIdx_eq_append _ _ within, rowsText_append, rowsText_cons] at targetEq
  rw [Text.size_append, ← bodyStart_eq, Nat.zero_add] at inserted
  rw [insertIdx_eq_append _ _ within, targetEq, text_eq_append, rowsEq]
  simpa using inserted.rewrites

/-- A sheet with a blank row. -/
def insertRow (columnCount index : Nat) (sheet : Sheet) : Sheet :=
  { sheet with rows := sheet.rows.insertIdx index (.blank ['\n'] (columnCount - 1)) }

end Sheet

/-- The index of a row inserted below or above the selected ones. -/
def Selection.insertionRow (selection : Selection) (below : Bool) : Nat :=
  if below then selection.bounds.bottom + 1 else selection.bounds.top

namespace Sheet

variable {heading : Heading} {sheet : Sheet}

theorem insertionRow_le {selection : Selection}
    (valid : selection.validate sheet.table = .ok ()) (below : Bool) :
    selection.insertionRow below ≤ sheet.rows.length := by
  have inTable := (Selection.bounds_of_validate valid).1
  have ordered := selection.top_le_bottom
  rw [rowCount_table] at inTable
  unfold Selection.insertionRow
  split <;> omega

/-- Inserting a row yields the sheet with the row. -/
theorem apply_insertRow (regular : sheet.Regular heading) {selection : Selection}
    (valid : selection.validate sheet.table = .ok ()) (below : Bool) :
    Batch.apply sheet.text (Plan.insertRow sheet.table selection below {}).batch
      = .ok (sheet.insertRow heading.letters.length (selection.insertionRow below)).text := by
  have index := insertionRow_le valid below
  have inTable := (Selection.bounds_of_validate valid).1
  have ordered := selection.top_le_bottom
  rw [rowCount_table] at inTable
  have rewrites := rewrites_insertIdx index (.blank ['\n'] (heading.letters.length - 1))
  refine Eq.trans ?_ rewrites.apply_eq
  congr 1
  obtain ⟨row, isRow, spanEq⟩ := @exists_row sheet
    (if below then selection.bounds.bottom else selection.bounds.top) (by split <;> omega)
  have terminated := isSome_terminator (List.mem_of_getElem? isRow)
  have textEq := WrittenRow.text_blank ['\n'] (heading.letters.length - 1)
  simp only [Plan.insertRow, isRow, terminated, Bool.and_false, columnCount_table regular, textEq,
    spanEq]
  cases below with
  | true => simp [Selection.insertionRow]
  | false => simp [Selection.insertionRow]

/-- A regular sheet stays regular with other rows that fit its columns. -/
theorem Regular.with_rows {rows : List WrittenRow} (regular : sheet.Regular heading)
    (nonempty : rows ≠ []) (wellFormed : ∀ row ∈ rows, row.WellFormed)
    (fits : ∀ row ∈ rows, row.width ≤ heading.letters.length) :
    ({ sheet with rows } : Sheet).Regular heading :=
  ⟨{ regular.wellFormed with nonempty := nonempty, rows := wellFormed }, regular.letters,
    regular.specifier, fits⟩

theorem Regular.one_le (regular : sheet.Regular heading) : 1 ≤ heading.letters.length :=
  List.length_pos_of_ne_nil regular.letters.nonempty

theorem isSpace_newline : Text.IsSpace ['\n'] := by
  intro character member
  obtain rfl := List.mem_singleton.mp member
  decide

theorem Regular.insertRow (regular : sheet.Regular heading) (index : Nat) :
    (sheet.insertRow heading.letters.length index).Regular heading := by
  refine regular.with_rows ?_ ?_ ?_
  · have longer := @List.length_le_length_insertIdx _ sheet.rows
      (.blank ['\n'] (heading.letters.length - 1)) index
    have positive := List.length_pos_of_ne_nil regular.wellFormed.nonempty
    exact List.ne_nil_of_length_pos (Nat.lt_of_lt_of_le positive longer)
  · intro row member
    rcases List.eq_or_mem_of_mem_insertIdx member with rfl | member
    · exact WrittenRow.wellFormed_blank _ isSpace_newline
    · exact regular.wellFormed.rows row member
  · intro row member
    rcases List.eq_or_mem_of_mem_insertIdx member with rfl | member
    · rw [WrittenRow.width_blank, Nat.sub_add_cancel regular.one_le]
    · exact regular.fits row member

theorem detached_insertRow (detached : ∀ row ∈ sheet.rows, row.Detached) (columnCount index : Nat) :
    ∀ row ∈ (sheet.insertRow columnCount index).rows, row.Detached := by
  intro row member
  rcases List.eq_or_mem_of_mem_insertIdx member with rfl | member
  · exact WrittenRow.detached_blank _ _
  · exact detached row member

theorem outline_insertRow (regular : sheet.Regular heading) (index : Nat) :
    (sheet.insertRow heading.letters.length index).outline heading
      = (sheet.outline heading).insertRow index := by
  have blank := WrittenRow.outline_blank ['\n'] (heading.letters.length - 1)
  rw [Nat.sub_add_cancel regular.one_le] at blank
  simp only [outline, insertRow, Outline.insertRow, List.map_insertIdx, blank]

/-- The rows from one to another give way to nothing. -/
def removeRows (top bottom : Nat) (sheet : Sheet) : Sheet :=
  { sheet with rows := sheet.rows.take top ++ sheet.rows.drop (bottom + 1) }

theorem rewrites_deletions (start : Nat) (rows : List WrittenRow) :
    Rewrites start (rowsText rows) ((rowSpans start rows).map .deletion) [] := by
  induction rows generalizing start with
  | nil => exact .refl _ _
  | cons row rest ih =>
      have deleted := (Rewrite.replacement start [] [] [] row.text_ne_nil).rewrites
      rw [List.append_nil] at deleted
      exact deleted.append (ih (start + row.text.size))

/-- The spans of the selected rows. -/
theorem map_span_selected {selection : Selection}
    (valid : selection.validate sheet.table = .ok ()) :
    (selection.rows sheet.table).map Row.span
      = rowSpans (sheet.bodyStart + (rowsText (sheet.rows.take selection.bounds.top)).size)
        ((sheet.rows.drop selection.bounds.top).take selection.height) := by
  have inTable := (Selection.bounds_of_validate valid).1
  have ordered := selection.top_le_bottom
  rw [rowCount_table] at inTable
  have front : (sheet.rows.take selection.bounds.top).length = selection.bounds.top := by
    rw [List.length_take]
    omega
  have middle : ((sheet.rows.drop selection.bounds.top).take selection.height).length
      = selection.height := by
    rw [List.length_take, List.length_drop, Selection.height]
    omega
  have parts := rowSpans_append sheet.bodyStart (sheet.rows.take selection.bounds.top)
    (sheet.rows.drop selection.bounds.top)
  have behind := rowSpans_append
    (sheet.bodyStart + (rowsText (sheet.rows.take selection.bounds.top)).size)
    ((sheet.rows.drop selection.bounds.top).take selection.height)
    ((sheet.rows.drop selection.bounds.top).drop selection.height)
  rw [List.take_append_drop] at parts behind
  rw [Selection.rows, List.map_take, List.map_drop, map_span_rows, parts,
    List.drop_left' (by rw [length_rowSpans, front]), behind,
    List.take_left' (by rw [length_rowSpans, middle])]

/-- Removing whole rows yields the sheet without them. -/
theorem rewrites_removeRows {selection : Selection}
    (valid : selection.validate sheet.table = .ok ()) :
    Rewrites 0 sheet.text ((selection.rows sheet.table).map fun row => .deletion row.span)
      (sheet.removeRows selection.bounds.top selection.bounds.bottom).text := by
  have spans := map_span_selected valid
  have ordered := selection.top_le_bottom
  have behind : (sheet.rows.drop selection.bounds.top).drop selection.height
      = sheet.rows.drop (selection.bounds.bottom + 1) := by
    rw [List.drop_drop, Selection.height]
    congr 1
    omega
  have rowsEq : rowsText sheet.rows = rowsText (sheet.rows.take selection.bounds.top)
      ++ (rowsText ((sheet.rows.drop selection.bounds.top).take selection.height)
        ++ rowsText (sheet.rows.drop (selection.bounds.bottom + 1))) := by
    rw [← behind, ← rowsText_append, ← rowsText_append, List.take_append_drop,
      List.take_append_drop]
  have edits : (selection.rows sheet.table).map (fun row => Edit.deletion row.span)
      = ((selection.rows sheet.table).map Row.span).map Edit.deletion := by
    rw [List.map_map]
    rfl
  have rows := (Rewrites.refl sheet.bodyStart
    (rowsText (sheet.rows.take selection.bounds.top))).append
      ((rewrites_deletions _
          ((sheet.rows.drop selection.bounds.top).take selection.height)).append
        (Rewrites.refl _ (rowsText (sheet.rows.drop (selection.bounds.bottom + 1)))))
  rw [← rowsEq, ← spans, ← edits, List.nil_append, List.nil_append, ← rowsText_append,
    List.append_nil] at rows
  exact rewrites_text rows

theorem Regular.removeRows (regular : sheet.Regular heading) {top bottom : Nat}
    (remaining : (sheet.removeRows top bottom).rows ≠ []) :
    (sheet.removeRows top bottom).Regular heading := by
  have isRow : ∀ row ∈ sheet.rows.take top ++ sheet.rows.drop (bottom + 1), row ∈ sheet.rows := by
    intro row member
    rcases List.mem_append.mp member with inFront | behind
    · exact List.mem_of_mem_take inFront
    · exact List.mem_of_mem_drop behind
  refine regular.with_rows remaining ?_ ?_
  · exact fun row member => regular.wellFormed.rows row (isRow row member)
  · exact fun row member => regular.fits row (isRow row member)

theorem detached_removeRows (detached : ∀ row ∈ sheet.rows, row.Detached) (top bottom : Nat) :
    ∀ row ∈ (sheet.removeRows top bottom).rows, row.Detached := by
  intro row member
  rcases List.mem_append.mp member with inFront | behind
  · exact detached row (List.mem_of_mem_take inFront)
  · exact detached row (List.mem_of_mem_drop behind)

theorem outline_removeRows (top bottom : Nat) (heading : Heading) (sheet : Sheet) :
    (sheet.removeRows top bottom).outline heading
      = (sheet.outline heading).removeRows top bottom := by
  simp only [outline, removeRows, Outline.removeRows, List.map_append, List.map_take,
    List.map_drop]

/-- One blank cell under the first column. -/
def cleared (heading : Heading) (sheet : Sheet) : Sheet :=
  { sheet with specifier := heading.cleared.text, rows := [.blank [] 0] }

/-- Emptying the table yields the cleared sheet. -/
theorem apply_emptyTable (regular : sheet.Regular heading) :
    Batch.apply sheet.text (Plan.emptyTable sheet.table {}).batch
      = .ok (sheet.cleared heading).text := by
  have positive := List.length_pos_of_ne_nil regular.wellFormed.nonempty
  obtain ⟨first, isFirst, firstSpan⟩ := @exists_row sheet 0 positive
  obtain ⟨last, isLast, lastSpan⟩ := @exists_row sheet (sheet.rows.length - 1) (by omega)
  have head : sheet.table.rows.head? = some first := by rw [List.head?_eq_getElem?, isFirst]
  have final : sheet.table.rows.getLast? = some last := by
    rw [List.getLast?_eq_getElem?, ← Table.rowCount, rowCount_table, isLast]
  have columns : Specifier.render ((sheet.table.columns.take 1).map fun column =>
      { column with leftRules := 0, rightRules := 0 }) = heading.cleared.text := by
    rw [regular.shows.columns]
    exact heading.render_take_one regular.letters.nonempty
  have whole : sheet.rows.take (sheet.rows.length - 1 + 1) = sheet.rows := by
    rw [Nat.sub_add_cancel positive, List.take_length]
  have nonempty : rowsText sheet.rows ≠ [] := by
    cases rowsEq : sheet.rows with
    | nil => exact absurd rowsEq regular.wellFormed.nonempty
    | cons row rest => exact List.append_ne_nil_of_left_ne_nil row.text_ne_nil _
  have rows := (Rewrite.replacement sheet.bodyStart [] [] "\\\\".toList nonempty).rewrites
  have target : rowsText [WrittenRow.blank [] 0] = "\\\\".toList := by decide
  simp only [List.nil_append, List.append_nil, Text.size_nil, Nat.add_zero, ← target] at rows
  have rewrites := @rewrites_text_of_specifier sheet _ _ heading.cleared.text
    regular.specifier_ne_nil rows
  refine Eq.trans ?_ rewrites.apply_eq
  congr 1
  rw [whole] at lastSpan
  simp only [Plan.emptyTable, head, final, columns, firstSpan, lastSpan, target]
  rfl

theorem Regular.cleared (regular : sheet.Regular heading) :
    (sheet.cleared heading).Regular heading.cleared := by
  have wellFormed := regular.wellFormed
  have letters := regular.letters.cleared
  have one : heading.cleared.letters.length = 1 := by
    have positive := regular.one_le
    simp only [Heading.cleared, List.length_map, List.length_take]
    omega
  refine ⟨⟨wellFormed.lead, Heading.isBarred_text letters, List.cons_ne_nil _ _, ?_,
    wellFormed.closingGaps, wellFormed.closingGap, wellFormed.trail⟩, letters, rfl, ?_⟩
  · intro row member
    obtain rfl := List.mem_singleton.mp member
    exact WrittenRow.wellFormed_blank 0 isSpace_nil
  · intro row member
    obtain rfl := List.mem_singleton.mp member
    rw [WrittenRow.width_blank, one]

theorem detached_cleared (heading : Heading) (sheet : Sheet) :
    ∀ row ∈ (sheet.cleared heading).rows, row.Detached := by
  intro row member
  obtain rfl := List.mem_singleton.mp member
  exact WrittenRow.detached_blank _ _

theorem outline_cleared (regular : sheet.Regular heading) :
    (sheet.cleared heading).outline heading.cleared = (sheet.outline heading).cleared := by
  have positive := regular.one_le
  have one : heading.cleared.letters.length = 1 := by
    simp only [Heading.cleared, List.length_map, List.length_take]
    omega
  have blank := WrittenRow.outline_blank [] 0
  rw [Nat.zero_add] at blank
  simp only [outline, Sheet.cleared, Outline.cleared, one, List.map_cons, List.map_nil, blank]
  rfl

end Sheet

end LatexTabular
