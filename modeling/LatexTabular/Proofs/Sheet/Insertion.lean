import LatexTabular.Command.Growth
import LatexTabular.Proofs.Outline.Columns
import LatexTabular.Proofs.Sheet.Parts
import LatexTabular.Proofs.Sheet.Regular

/-!
# Columns inserted into a sheet

In each row a new column takes one edit: a separator beside the cell over the
selected column, or a new number if this cell is merged and lies on both sides.  The
row that comes out (`WrittenRow.insertColumn`) says what inserting the column into
the outline of the row says.
-/

namespace LatexTabular

open Text Body

theorem Text.trimmedSpan_of_isNumeral (start : Nat) {number : Text} (numeral : IsNumeral number) :
    trimmedSpan start number = ⟨start, start + number.size⟩ := by
  obtain ⟨nonempty, digits⟩ := numeral
  have inked (character : Char) (member : character ∈ number) : isBlank character = false :=
    isBlank_eq_false_of_isDigit (digits character member)
  have notBlank : allBlank number = false := by
    cases number with
    | nil => exact absurd rfl nonempty
    | cons head rest => simp [allBlank, inked head List.mem_cons_self]
  have left : trimLeft number = number := by
    cases number with
    | nil => rfl
    | cons head rest => simp [trimLeft, inked head List.mem_cons_self]
  have right : trimRight number = number := by
    have trimmed := @trim_eq_self number (fun head isHead => inked head (List.mem_of_mem_head? isHead))
      (fun last isLast => inked last (List.mem_of_mem_getLast? isLast))
    rwa [trim, left] at trimmed
  rw [trimmedSpan, notBlank, left, right]
  simp

namespace Entry

/-- A merged entry with another number of columns. -/
def resized (columns : Nat) : Entry → Entry
  | plain content => plain content
  | merged _ specifier content => merged (ofNumber columns) specifier content

theorem outline_resized (columns : Nat) (entry : Entry) :
    (entry.resized columns).outline = entry.outline.resized columns := by
  cases entry with
  | plain content => rfl
  | merged number specifier content =>
      simp [resized, outline, Outline.Cell.resized, digitsValue_ofNumber]

theorem WellFormed.resized {entry : Entry} {columns : Nat} (wellFormed : entry.WellFormed)
    (positive : 1 ≤ columns) (fits : columns < wordLimit) :
    (entry.resized columns).WellFormed := by
  cases entry with
  | plain content => exact wellFormed
  | merged number specifier content =>
      refine ⟨isNumeral_ofNumber columns, ?_, ?_, wellFormed.2.2.2⟩ <;> rwa [digitsValue_ofNumber]

theorem outline_wellFormed {entry : Entry} (wellFormed : entry.WellFormed) :
    entry.outline.WellFormed := by
  cases entry with
  | plain content => simp [outline, Outline.Cell.WellFormed]
  | merged number specifier content =>
      rintro merge ⟨⟩
      exact wellFormed.2.1

/-- The text of a merge around its number. -/
theorem text_merged (number specifier content : Text) :
    (merged number specifier content).text
      = ('\\' :: MergeText.name ++ ['{']) ++ (number
        ++ (['}', '{'] ++ specifier ++ ['}', '{'] ++ content ++ ['}'])) := by
  simp [text, MergeText.text, MergeText.preamble, mergeText]

/-- A new number in the place of the old one rewrites a merge. -/
theorem rewrites_resized {number specifier content : Text}
    (wellFormed : (merged number specifier content).WellFormed) (start columns : Nat) :
    Rewrites start (merged number specifier content).text
      [⟨((mergeText number specifier content).place start).number, ofNumber columns⟩]
      ((merged number specifier content).resized columns).text := by
  have place : ((mergeText number specifier content).place start).number
      = ⟨start + Text.size ('\\' :: MergeText.name ++ ['{']),
        start + Text.size ('\\' :: MergeText.name ++ ['{']) + number.size⟩ := by
    have backslash : '\\'.utf8Size = 1 := by decide
    have opened : Text.size ['{'] = 1 := by decide
    simp only [MergeText.place, mergeText, trimmedSpan_of_isNumeral _ wellFormed.1,
      Text.size_append, Text.size_cons, Text.size_nil, backslash, opened, Span.mk.injEq]
    omega
  rw [resized, text_merged, text_merged, place]
  exact (Rewrite.replacement start _ _ _ wellFormed.1.1).rewrites

end Entry

namespace WrittenCell

/-- A cell with a blank one beside it. -/
def besideBlank (after : Bool) (cell : WrittenCell) : List WrittenCell :=
  if after then [⟨cell.before, cell.entry, [' ']⟩, ⟨[], .blank, cell.after⟩]
  else [⟨[], .blank, cell.before ++ [' ']⟩, ⟨[], cell.entry, cell.after⟩]

theorem besideBlank_ne_nil (after : Bool) (cell : WrittenCell) : cell.besideBlank after ≠ [] := by
  cases after <;> exact List.cons_ne_nil _ _

/-- The cells that take the place of a cell when a column is inserted beside the one
with an offset into the cell. -/
def makeRoom (after : Bool) (column : Nat) (cell : WrittenCell) : List WrittenCell :=
  if (if after then column + 1 ≠ cell.entry.width else column ≠ 0) then
    [{ cell with entry := cell.entry.resized (cell.entry.width + 1) }]
  else cell.besideBlank after

end WrittenCell

/-- Insert a column beside a column of cells. -/
def makeRoomIn (after : Bool) : (column : Nat) → List WrittenCell → List WrittenCell
  | _, [] => []
  | column, cell :: rest =>
      if column < cell.entry.width then cell.makeRoom after column ++ rest
      else cell :: makeRoomIn after (column - cell.entry.width) rest

/-- Insert a column beside a column of a row.  Where the row is too short nothing
changes. -/
def WrittenRow.insertColumn (after : Bool) (column : Nat) (row : WrittenRow) : WrittenRow :=
  { row with cells := makeRoomIn after column row.cells }

theorem makeRoomIn_of_over {after : Bool} {before behind : List WrittenCell} {cell : WrittenCell}
    {column : Nat} (begins : (before.map (·.entry.width)).sum ≤ column)
    (ends : column < (before.map (·.entry.width)).sum + cell.entry.width) :
    makeRoomIn after column (before ++ cell :: behind)
      = before ++ (cell.makeRoom after (column - (before.map (·.entry.width)).sum) ++ behind) := by
  induction before generalizing column with
  | nil =>
      rw [List.map_nil, List.sum_nil, Nat.zero_add] at ends
      rw [List.nil_append, makeRoomIn, if_pos ends]
      rfl
  | cons first rest ih =>
      rw [List.map_cons, List.sum_cons] at begins ends
      have notFirst : ¬ column < first.entry.width := by omega
      have others := @ih (column - first.entry.width) (by omega) (by omega)
      rw [List.cons_append, makeRoomIn, if_neg notFirst, others, List.map_cons, List.sum_cons,
        Nat.sub_sub, List.cons_append]

/-- Behind the last cell there is no room to make. -/
theorem makeRoomIn_of_le {after : Bool} {cells : List WrittenCell} {column : Nat}
    (le : (cells.map (·.entry.width)).sum ≤ column) : makeRoomIn after column cells = cells := by
  induction cells generalizing column with
  | nil => rfl
  | cons cell rest ih =>
      rw [List.map_cons, List.sum_cons] at le
      have notFirst : ¬ column < cell.entry.width := by omega
      rw [makeRoomIn, if_neg notFirst, @ih (column - cell.entry.width) (by omega)]

namespace WrittenRow

theorem width_le_of_mem {row : WrittenRow} {cell : WrittenCell} (member : cell ∈ row.cells) :
    cell.entry.width ≤ row.width := by
  obtain ⟨before, behind, cellsEq⟩ := List.append_of_mem member
  rw [width, cellsEq, List.map_append, List.sum_append, List.map_cons, List.sum_cons]
  omega

/-- The text of a row around some of its cells. -/
theorem text_eq_of_cells {row : WrittenRow} {before middle behind : List WrittenCell}
    (nonempty : middle ≠ []) (cellsEq : row.cells = before ++ (middle ++ behind)) :
    row.text = (rulesText row.ruleGaps ++ frontText before)
      ++ (cellsText middle ++ (backText behind ++ "\\\\".toList)) := by
  rw [text, cellsEq, cellsText_append _ _ nonempty]
  simp

variable {start column : Nat} {after : Bool} {row : WrittenRow}
  {before behind : List WrittenCell} {cell : WrittenCell}

/-- Where a cell of a row stands. -/
def cellStart (start : Nat) (row : WrittenRow) (before : List WrittenCell) : Nat :=
  row.cellsStart start + (frontText before).size

theorem cellsText_besideBlank_of_after (cell : WrittenCell) :
    cellsText (cell.besideBlank true)
      = cell.before ++ (cell.entry.text ++ (" &".toList ++ cell.after)) := by
  simp [WrittenCell.besideBlank, cellsText, WrittenCell.text, Entry.blank, Entry.text]

theorem cellsText_besideBlank_of_before (cell : WrittenCell) :
    cellsText (cell.besideBlank false)
      = cell.before ++ (" &".toList ++ (cell.entry.text ++ cell.after)) := by
  simp [WrittenCell.besideBlank, cellsText, WrittenCell.text, Entry.blank, Entry.text]

/-- A separator beside a cell rewrites the row. -/
theorem rewrites_besideBlank (cellsEq : row.cells = before ++ ([cell] ++ behind)) :
    Rewrites start row.text
      [.insertion
        (if after then
          (cell.entry.laid (row.cellStart start before + cell.before.size)).outer.stop
        else (cell.entry.laid (row.cellStart start before + cell.before.size)).outer.start)
        " &".toList]
      { row with cells := before ++ (cell.besideBlank after ++ behind) }.text := by
  have source := text_eq_of_cells (List.cons_ne_nil _ _) cellsEq
  have single : cellsText [cell] = cell.before ++ (cell.entry.text ++ cell.after) := by
    simp [cellsText, WrittenCell.text]
  have nonempty (text : Text) : text ++ (backText behind ++ "\\\\".toList) ≠ [] := by simp
  have target := @text_eq_of_cells { row with cells := before ++ (cell.besideBlank after ++ behind) }
    before (cell.besideBlank after) behind (cell.besideBlank_ne_nil after) rfl
  rw [Entry.outer_laid, source, single, target]
  cases after with
  | true =>
      have inserted := Rewrite.insertion start
        (rulesText row.ruleGaps ++ frontText before ++ (cell.before ++ cell.entry.text))
        " &".toList (nonempty cell.after)
      rw [cellsText_besideBlank_of_after]
      simpa [cellStart, cellsStart, Nat.add_assoc] using inserted.rewrites
  | false =>
      have inserted := Rewrite.insertion start
        (rulesText row.ruleGaps ++ frontText before ++ cell.before)
        " &".toList (nonempty (cell.entry.text ++ cell.after))
      rw [cellsText_besideBlank_of_before]
      simpa [cellStart, cellsStart, Nat.add_assoc] using inserted.rewrites

/-- A new number of a merged cell rewrites the row. -/
theorem rewrites_resized {number specifier content : Text} {columns : Nat}
    (wellFormed : (Entry.merged number specifier content).WellFormed)
    (isEntry : cell.entry = .merged number specifier content)
    (cellsEq : row.cells = before ++ ([cell] ++ behind)) :
    Rewrites start row.text
      [⟨((Entry.mergeText number specifier content).place
        (row.cellStart start before + cell.before.size)).number, ofNumber columns⟩]
      { row with
        cells := before ++ ([{ cell with entry := cell.entry.resized columns }] ++ behind) }.text := by
  have entry := Entry.rewrites_resized wellFormed
    (row.cellsStart start + (frontText before).size + cell.before.size) columns
  rw [← isEntry] at entry
  have inCell := (Rewrites.refl (row.cellsStart start + (frontText before).size)
    cell.before).append (entry.append (.refl _ cell.after))
  have inCells := @rewrites_cellsText (row.cellsStart start) before [cell]
    [{ cell with entry := cell.entry.resized columns }] behind _ (List.cons_ne_nil _ _)
    (List.cons_ne_nil _ _) (by simpa [cellsText, WrittenCell.text] using inCell)
  rw [← cellsEq] at inCells
  exact rewrites_text inCells

/-- The cells of a row that is read, around one of them. -/
theorem cells_padded (columnCount : Nat) (rules : List Span)
    (cellsEq : row.cells = before ++ cell :: behind) :
    ∃ others, (Row.padded columnCount { row.laid start with rules }).cells
      = layCells (row.cellsStart start) before
        ++ cell.entry.laid (row.cellStart start before + cell.before.size) :: others := by
  have parts := layCells_append (row.cellsStart start) before (cell :: behind)
  rw [← cellsEq, layCells_cons] at parts
  simp only [Row.padded, laid, parts]
  rw [List.append_assoc, List.cons_append]
  exact ⟨_, rfl⟩

/-- A column splits the cell beside whose column it goes if it is not at the end of the cell
there. -/
theorem splits_eq {first width : Nat} (begins : first ≤ column) (ends : column < first + width) :
    (if after then first + width - 1 != column else first != column)
      = decide (if after then column - first + 1 ≠ width else column - first ≠ 0) := by
  rw [Bool.eq_iff_iff]
  cases after with
  | true =>
      simp only [if_true, bne_iff_ne, decide_eq_true_eq, ne_eq, not_iff_not]
      omega
  | false =>
      simp only [Bool.false_eq_true, if_false, bne_iff_ne, decide_eq_true_eq, ne_eq, not_iff_not]
      omega

/-- The edit that makes room in a cell, beside one of its columns. -/
def roomEdit (after : Bool) (column : Nat) (cell : Cell) : Edit :=
  match cell.merge with
  | some merge =>
      if (if after then column + 1 ≠ cell.width else column ≠ 0) then
        ⟨merge.number, ofNumber (merge.columns + 1)⟩
      else .insertion (if after then cell.outer.stop else cell.outer.start) " &".toList
  | none => .insertion (if after then cell.outer.stop else cell.outer.start) " &".toList

/-- The cell over a column is edited. -/
theorem roomInRow_of_over (columnCount : Nat) (rules : List Span)
    (cellsEq : row.cells = before ++ cell :: behind)
    (begins : (before.map (·.entry.width)).sum ≤ column)
    (ends : column < (before.map (·.entry.width)).sum + cell.entry.width) :
    Plan.roomInRow column after {} (Row.padded columnCount { row.laid start with rules })
      = [roomEdit after (column - (before.map (·.entry.width)).sum)
        (cell.entry.laid (row.cellStart start before + cell.before.size))] := by
  obtain ⟨others, laidEq⟩ := @cells_padded start row before behind cell columnCount rules cellsEq
  have widthEq := totalWidth_layCells (row.cellsStart start) before
  rw [← widthEq, ← cell.entry.width_laid (row.cellStart start before + cell.before.size)] at ends
  rw [← widthEq] at begins ⊢
  have index := Row.cellIndex?_of_over laidEq begins ends
  have isCell := Row.cellAt?_of_over laidEq begins ends
  have range := Row.columnsAt?_of_over laidEq begins ends
  have written : ¬ (Row.padded columnCount { row.laid start with rules }).separators.length
      < (layCells (row.cellsStart start) before).length := by
    have separators := length_laySeparators (row.cellsStart start) row.cells
    rw [cellsEq, List.length_append, List.length_cons, ← cellsEq] at separators
    rw [length_layCells]
    simp only [Row.padded, laid, separators]
    omega
  have splits := @splits_eq column after _ _ begins ends
  simp only [Plan.roomInRow, index, isCell, range, if_neg written, splits, decide_eq_true_eq,
    roomEdit]
  cases (cell.entry.laid (row.cellStart start before + cell.before.size)).merge with
  | none => rfl
  | some merge => exact (apply_ite (fun edit => [edit]) _ _ _).symm

/-- The edit beside a column makes room in the cell over it. -/
theorem rewrites_makeRoom (wellFormed : cell.entry.WellFormed)
    (cellsEq : row.cells = before ++ ([cell] ++ behind)) (within : column < cell.entry.width) :
    Rewrites start row.text
      [roomEdit after column (cell.entry.laid (row.cellStart start before + cell.before.size))]
      { row with cells := before ++ (cell.makeRoom after column ++ behind) }.text := by
  have beside := @rewrites_besideBlank start after row before behind cell cellsEq
  cases isEntry : cell.entry with
  | plain content =>
      have single : ¬ (if after then column + 1 ≠ cell.entry.width else column ≠ 0) := by
        have one : cell.entry.width = 1 := by rw [isEntry]; rfl
        rw [one] at within ⊢
        cases after <;> simp <;> omega
      rw [WrittenCell.makeRoom, if_neg single]
      rw [isEntry] at beside
      exact beside
  | merged number specifier content =>
      rw [isEntry] at wellFormed
      have width := cell.entry.width_laid (row.cellStart start before + cell.before.size)
      rw [isEntry] at width
      by_cases grows : (if after then column + 1 ≠ cell.entry.width else column ≠ 0)
      · have resized := @rewrites_resized start row before behind cell number specifier content
          (cell.entry.width + 1) wellFormed isEntry cellsEq
        have columns (offset : Nat) :
            ((Entry.mergeText number specifier content).place offset).columns
              = (Entry.merged number specifier content).width :=
          (Nat.max_eq_left wellFormed.2.1).symm
        rw [WrittenCell.makeRoom, if_pos grows]
        rw [isEntry] at resized grows ⊢
        rw [roomEdit, width]
        simp only [Entry.laid, grows, if_true, columns]
        exact resized
      · rw [WrittenCell.makeRoom, if_neg grows]
        rw [isEntry] at beside grows
        rw [roomEdit, width]
        simp only [Entry.laid, grows, if_false]
        exact beside

/-- The cell over a column is edited beside it, or in its number if the new column
splits it. -/
theorem rewrites_roomInRow_of_over (wellFormed : row.WellFormed) (columnCount : Nat)
    (rules : List Span) (cellsEq : row.cells = before ++ cell :: behind)
    (begins : (before.map (·.entry.width)).sum ≤ column)
    (ends : column < (before.map (·.entry.width)).sum + cell.entry.width) :
    Rewrites start row.text
      (Plan.roomInRow column after {} (Row.padded columnCount { row.laid start with rules }))
      (row.insertColumn after column).text := by
  have inCell := (wellFormed.cells cell (by simp [cellsEq])).entry
  rw [roomInRow_of_over columnCount rules cellsEq begins ends, insertColumn, cellsEq,
    makeRoomIn_of_over begins ends]
  exact rewrites_makeRoom inCell cellsEq (by omega)

/-- In each row at most one edit makes room for a new column. -/
theorem rewrites_roomInRow (wellFormed : row.WellFormed) (columnCount : Nat) (rules : List Span) :
    Rewrites start row.text
      (Plan.roomInRow column after {} (Row.padded columnCount { row.laid start with rules }))
      (row.insertColumn after column).text := by
  by_cases written : column < row.width
  · obtain ⟨before, cell, behind, cellsEq, begins, ends⟩ :=
      exists_over (fun cell : WrittenCell => cell.entry.width) written
    exact rewrites_roomInRow_of_over wellFormed columnCount rules cellsEq begins ends
  · have unchanged : (row.insertColumn after column).text = row.text := by
      rw [insertColumn, makeRoomIn_of_le (Nat.le_of_not_lt written)]
    have none : Plan.roomInRow column after {}
        (Row.padded columnCount { row.laid start with rules }) = [] := by
      have widthEq : Row.totalWidth (layCells (row.cellsStart start) row.cells) = row.width :=
        totalWidth_layCells _ _
      have count := length_layCells (row.cellsStart start) row.cells
      have separators := length_laySeparators (row.cellsStart start) row.cells
      have someCell := List.length_pos_of_ne_nil wellFormed.nonempty
      unfold Plan.roomInRow
      split
      next index cell range found _ _ =>
        have behind := @Row.length_le_of_cellIndex?
          (Row.padded columnCount { row.laid start with rules })
          (layCells (row.cellsStart start) row.cells) _ column rfl (by omega) index found
        refine if_pos ?_
        simp only [Row.padded, laid, separators]
        omega
      next => rfl
    rw [none, unchanged]
    exact .refl _ _

end WrittenRow

/-- The index of a column inserted beside another one. -/
def insertionIndex (after : Bool) (column : Nat) : Nat := if after then column + 1 else column

section Outline

open Outline

variable {after : Bool} {column : Nat}

/-- Room in a cell is made where the outline of the cell gets a column. -/
theorem WrittenCell.map_outline_makeRoom {cell : WrittenCell} (within : column < cell.entry.width) :
    (cell.makeRoom after column).map (·.entry.outline)
      = insertColumnIn (insertionIndex after column) [cell.entry.outline] := by
  have widthEq := cell.entry.width_outline
  by_cases grows : (if after then column + 1 ≠ cell.entry.width else column ≠ 0)
  · have notZero : insertionIndex after column ≠ 0 := by
      cases after <;> simp_all [insertionIndex]
    have inside : insertionIndex after column < cell.entry.outline.width := by
      rw [widthEq]
      cases after with
      | true =>
          simp only [if_true] at grows
          simp only [insertionIndex, if_true]
          omega
      | false => exact within
    rw [makeRoom, if_pos grows, insertColumnIn_of_lt [] notZero inside, widthEq]
    simp [Entry.outline_resized]
  · rw [makeRoom, if_neg grows]
    cases after with
    | true =>
        have ends : column + 1 = cell.entry.width := by simpa using grows
        have behind := @insertColumnIn_append_of_le [cell.entry.outline] [] (column + 1)
          (by rw [totalWidth_cons, widthEq, ends]; rfl)
        rw [totalWidth_cons, widthEq, ends, totalWidth_nil, Nat.add_zero, Nat.sub_self] at behind
        simp only [insertionIndex, if_true, ends]
        exact behind.symm
    | false =>
        obtain rfl : column = 0 := by simpa using grows
        exact (insertColumnIn_zero _).symm

theorem map_outline_makeRoomIn {cells : List WrittenCell}
    (within : column < (cells.map (·.entry.width)).sum) :
    (makeRoomIn after column cells).map (·.entry.outline)
      = insertColumnIn (insertionIndex after column) (cells.map (·.entry.outline)) := by
  induction cells generalizing column with
  | nil => simp at within
  | cons cell rest ih =>
      rw [List.map_cons, List.sum_cons] at within
      have widthEq := cell.entry.width_outline
      by_cases inFirst : column < cell.entry.width
      · have room := @cell.map_outline_makeRoom after column inFirst
        have inCell : insertionIndex after column ≤ totalWidth [cell.entry.outline] := by
          rw [totalWidth_cons, totalWidth_nil, widthEq]
          unfold insertionIndex
          split <;> omega
        rw [makeRoomIn, if_pos inFirst, List.map_append, room]
        exact (insertColumnIn_append_of_ge _ inCell).symm
      · have others := @ih (column - cell.entry.width) (by omega)
        have positive := cell.entry.outline.width_pos
        have notZero : insertionIndex after column ≠ 0 := by
          unfold insertionIndex
          split <;> omega
        have notWithin : ¬ insertionIndex after column < cell.entry.outline.width := by
          unfold insertionIndex
          split <;> omega
        have index : insertionIndex after (column - cell.entry.width)
            = insertionIndex after column - cell.entry.outline.width := by
          unfold insertionIndex
          split <;> omega
        rw [makeRoomIn, if_neg inFirst, List.map_cons, others, index, List.map_cons,
          insertColumnIn, if_neg notZero, if_neg notWithin]

theorem totalWidth_map_outline (cells : List WrittenCell) :
    totalWidth (cells.map (·.entry.outline)) = (cells.map (·.entry.width)).sum := by
  simp [totalWidth, Function.comp_def, Entry.width_outline]

/-- A row that reaches over the column gets wider, another stays. -/
theorem WrittenRow.width_insertColumn (after : Bool) (column : Nat) (row : WrittenRow) :
    (row.insertColumn after column).width
      = if column < row.width then row.width + 1 else row.width := by
  have widthEq : totalWidth (row.cells.map (·.entry.outline)) = row.width :=
    totalWidth_map_outline _
  split
  next written =>
    have inCells : insertionIndex after column ≤ totalWidth (row.cells.map (·.entry.outline)) := by
      unfold insertionIndex
      split <;> omega
    have outlined := totalWidth_map_outline (makeRoomIn after column row.cells)
    rw [@map_outline_makeRoomIn after column row.cells written,
      totalWidth_insertColumnIn inCells, widthEq] at outlined
    exact outlined.symm
  next behind =>
    rw [insertColumn, makeRoomIn_of_le (Nat.le_of_not_lt behind)]

/-- A column inserted into a row is inserted into its outline. -/
theorem WrittenRow.outline_insertColumn {row : WrittenRow} {columnCount : Nat}
    (fits : row.width ≤ columnCount) (within : column < columnCount) :
    (row.insertColumn after column).outline (columnCount + 1)
      = { row.outline columnCount with
          cells := insertColumnIn (insertionIndex after column)
            (row.outline columnCount).cells } := by
  have widthEq : totalWidth (row.cells.map (·.entry.outline)) = row.width :=
    totalWidth_map_outline _
  have room : insertionIndex after column ≤ columnCount := by
    unfold insertionIndex
    split <;> omega
  simp only [outline, Outline.Row.mk.injEq]
  refine ⟨rfl, ?_⟩
  by_cases written : column < row.width
  · have cells := @map_outline_makeRoomIn after column row.cells written
    have inCells : insertionIndex after column ≤ totalWidth (row.cells.map (·.entry.outline)) := by
      unfold insertionIndex
      split <;> omega
    have wider := row.width_insertColumn after column
    rw [if_pos written] at wider
    rw [insertColumnIn_append_of_ge _ inCells, ← cells, wider, Nat.add_sub_add_right]
    rfl
  · have unchanged : makeRoomIn after column row.cells = row.cells :=
      makeRoomIn_of_le (Nat.le_of_not_lt written)
    have behind : totalWidth (row.cells.map (·.entry.outline)) ≤ insertionIndex after column := by
      unfold insertionIndex
      split <;> omega
    rw [insertColumnIn_append_of_le _ behind, widthEq,
      insertColumnIn_replicate_blank (Nat.sub_le_sub_right room _)]
    simp only [insertColumn, unchanged, width]
    congr 2
    exact Nat.sub_add_comm fits

end Outline

section WellFormed

variable {after : Bool} {column : Nat}

theorem WrittenCell.WellFormed.makeRoom {cell : WrittenCell} (wellFormed : cell.WellFormed)
    (limit : cell.entry.width + 1 < wordLimit) :
    ∀ other ∈ cell.makeRoom after column, other.WellFormed := by
  intro other member
  unfold WrittenCell.makeRoom at member
  by_cases grows : (if after then column + 1 ≠ cell.entry.width else column ≠ 0)
  · rw [if_pos grows] at member
    obtain rfl := List.mem_singleton.mp member
    refine ⟨wellFormed.before, wellFormed.entry.resized (by omega) limit, wellFormed.after, ?_⟩
    intro empty
    cases isEntry : cell.entry with
    | plain content =>
        rw [isEntry] at empty
        exact wellFormed.anchored (by rw [isEntry]; exact empty)
    | merged number specifier content =>
        rw [isEntry] at empty
        exact absurd empty (List.cons_ne_nil _ _)
  · rw [if_neg grows] at member
    cases after with
    | true =>
        rcases List.mem_cons.mp member with rfl | member
        · exact ⟨wellFormed.before, wellFormed.entry, isSpace_blank, wellFormed.anchored⟩
        · obtain rfl := List.mem_singleton.mp member
          exact ⟨isSpace_nil, Entry.wellFormed_blank, wellFormed.after, fun _ => rfl⟩
    | false =>
        rcases List.mem_cons.mp member with rfl | member
        · exact ⟨isSpace_nil, Entry.wellFormed_blank, wellFormed.before.append isSpace_blank,
            fun _ => rfl⟩
        · obtain rfl := List.mem_singleton.mp member
          exact ⟨isSpace_nil, wellFormed.entry, wellFormed.after, fun _ => rfl⟩

theorem WrittenCell.makeRoom_ne_nil (after : Bool) (column : Nat) (cell : WrittenCell) :
    cell.makeRoom after column ≠ [] := by
  unfold makeRoom
  by_cases grows : (if after then column + 1 ≠ cell.entry.width else column ≠ 0)
  · rw [if_pos grows]
    exact List.cons_ne_nil _ _
  · rw [if_neg grows]
    exact cell.besideBlank_ne_nil after

theorem WrittenRow.WellFormed.insertColumn {row : WrittenRow} (wellFormed : row.WellFormed)
    (limit : row.width + 1 < wordLimit) : (row.insertColumn after column).WellFormed := by
  refine ⟨wellFormed.ruleGaps, ?_, ?_⟩
  · intro empty
    cases cellsEq : row.cells with
    | nil => exact wellFormed.nonempty cellsEq
    | cons cell rest =>
        simp only [WrittenRow.insertColumn, cellsEq, makeRoomIn] at empty
        split at empty
        · exact cell.makeRoom_ne_nil after column (List.append_eq_nil_iff.mp empty).1
        · exact List.cons_ne_nil _ _ empty
  · by_cases written : column < row.width
    · obtain ⟨before, cell, behind, cellsEq, begins, ends⟩ :=
        exists_over (fun cell : WrittenCell => cell.entry.width) written
      have narrow := @WrittenRow.width_le_of_mem row cell (by simp [cellsEq])
      intro other member
      simp only [WrittenRow.insertColumn, cellsEq, makeRoomIn_of_over begins ends] at member
      rcases List.mem_append.mp member with inBefore | member
      · exact wellFormed.cells other (by simp [cellsEq, inBefore])
      rcases List.mem_append.mp member with inRoom | inBehind
      · exact (wellFormed.cells cell (by simp [cellsEq])).makeRoom (by omega) other inRoom
      · exact wellFormed.cells other (by simp [cellsEq, inBehind])
    · simp only [WrittenRow.insertColumn, makeRoomIn_of_le (Nat.le_of_not_lt written)]
      exact wellFormed.cells

theorem WrittenRow.Detached.insertColumn {row : WrittenRow} (detached : row.Detached) :
    (row.insertColumn after column).Detached := by
  intro other isFirst
  cases cellsEq : row.cells with
  | nil => simp [WrittenRow.insertColumn, cellsEq, makeRoomIn] at isFirst
  | cons cell rest =>
      have free := detached cell (by simp [cellsEq])
      simp only [WrittenRow.insertColumn, cellsEq, makeRoomIn] at isFirst
      by_cases inFirst : column < cell.entry.width
      · rw [if_pos inFirst, WrittenCell.makeRoom] at isFirst
        by_cases grows : (if after then column + 1 ≠ cell.entry.width else column ≠ 0)
        · rw [if_pos grows] at isFirst
          obtain rfl := Option.mem_some.mp isFirst
          refine free.imp_right ?_
          intro empty content isPlain
          cases isEntry : cell.entry with
          | plain text =>
              rw [isEntry] at isPlain
              exact empty content (by rw [isEntry]; exact isPlain)
          | merged number specifier text =>
              rw [isEntry] at isPlain
              exact Entry.noConfusion isPlain
        · rw [if_neg grows] at isFirst
          cases after with
          | true =>
              obtain rfl := Option.mem_some.mp isFirst
              exact free
          | false =>
              obtain rfl := Option.mem_some.mp isFirst
              refine Or.inr ?_
              rintro content ⟨⟩
              rfl
      · rw [if_neg inFirst] at isFirst
        obtain rfl := Option.mem_some.mp isFirst
        exact free

end WellFormed

end LatexTabular
