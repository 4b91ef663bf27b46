import LatexTabular.Proofs.Command.Merging
import LatexTabular.Proofs.Outline.Merging
import LatexTabular.Proofs.Sheet.OneRow

/-!
# Merging the cells of a sheet

The edit that merges cells turns a regular sheet into the sheet with a merged cell in the place
of the written ones among them (`Sheet.apply_mergeCells`), which takes the blank columns behind
them along.  Its outline is the one with these cells merged (`Sheet.outline_merged`).
-/

namespace LatexTabular

open Text Body Outline

namespace Text

theorem not_isBlank_of_head?_trim {text : Text} :
    ∀ character ∈ (trim text).head?, isBlank character = false := by
  intro character isHead
  have isPrefix : trimRight (trimLeft text) <+: trimLeft text := List.rdropWhile_prefix isBlank _
  obtain ⟨rest, trimEq⟩ := List.head?_eq_some_iff.mp isHead
  obtain ⟨behind, parts⟩ := isPrefix
  have first := List.head?_dropWhile_not isBlank text
  rw [show text.dropWhile isBlank = trimLeft text from rfl, ← parts,
    show trimRight (trimLeft text) = character :: rest from trimEq] at first
  simpa using first

theorem not_isBlank_of_getLast?_trim {text : Text} :
    ∀ character ∈ (trim text).getLast?, isBlank character = false := by
  intro character isLast
  have last := List.head?_dropWhile_not isBlank (trimLeft text).reverse
  rw [trim, trimRight, List.getLast?_reverse] at isLast
  rw [isLast] at last
  simpa using last

theorem mem_of_mem_trim {text : Text} {character : Char} (member : character ∈ trim text) :
    character ∈ text :=
  (List.dropWhile_sublist _).subset
    ((List.rdropWhile_prefix isBlank (trimLeft text)).subset member)

theorem mem_of_mem_intercalate {separator : Text} {contents : List Text} {character : Char}
    (member : character ∈ separator.intercalate contents) :
    character ∈ separator ∨ ∃ content ∈ contents, character ∈ content := by
  induction contents with
  | nil => simp at member
  | cons first rest ih =>
      cases rest with
      | nil => exact Or.inr ⟨first, List.mem_cons_self, by simpa using member⟩
      | cons second others =>
          rw [List.intercalate_cons_cons] at member
          rcases List.mem_append.mp member with inFront | inRest
          · rcases List.mem_append.mp inFront with inFirst | inSeparator
            · exact Or.inr ⟨first, List.mem_cons_self, inFirst⟩
            · exact Or.inl inSeparator
          · rcases ih inRest with inSeparator | ⟨content, isContent, inContent⟩
            · exact Or.inl inSeparator
            · exact Or.inr ⟨content, List.mem_cons_of_mem _ isContent, inContent⟩

/-- Empty contents side by side leave nothing. -/
theorem trim_intercalate_replicate (count : Nat) :
    trim (List.intercalate [' '] (List.replicate count [])) = [] := by
  have blank : ∀ character ∈ List.intercalate [' '] (List.replicate count []),
      isBlank character = true := by
    intro character member
    rcases mem_of_mem_intercalate member with isSpace | ⟨content, isContent, inContent⟩
    · obtain rfl := List.mem_singleton.mp isSpace
      decide
    · rw [List.eq_of_mem_replicate isContent] at inContent
      exact absurd inContent List.not_mem_nil
  rw [trim, trimLeft, List.dropWhile_eq_nil_iff.mpr blank]
  rfl

/-- Plain texts side by side are plain once they are trimmed. -/
theorem isPlain_trim_intercalate {contents : List Text}
    (plain : ∀ content ∈ contents, content.IsPlain) :
    (trim (List.intercalate [' '] contents)).IsPlain := by
  refine ⟨fun character member => ?_, not_isBlank_of_head?_trim, not_isBlank_of_getLast?_trim⟩
  rcases mem_of_mem_intercalate (mem_of_mem_trim member) with isSpace | ⟨content, isContent, found⟩
  · obtain rfl := List.mem_singleton.mp isSpace
    decide
  · exact (plain content isContent).ordinary character found

end Text

namespace Heading

variable {heading : Heading}

theorem leftRules_columns (nonempty : heading.letters ≠ []) (index : Nat) :
    (heading.columns[index]?.map (·.leftRules)).getD 0 = heading.barsBefore index := by
  obtain ⟨first, rest, lettersEq⟩ := List.exists_cons_of_ne_nil nonempty
  cases index with
  | zero => simp [columns, lettersEq, barsBefore, Letter.column]
  | succ index =>
      simp only [columns, lettersEq, barsBefore, List.getElem?_cons_succ, List.getElem?_map,
        Option.map_map, Nat.succ_ne_zero, if_false]
      cases rest[index]? <;> rfl

theorem rightRules_columns (heading : Heading) (index : Nat) :
    (heading.columns[index]?.map (·.rightRules)).getD 0 = heading.barsBehind index := by
  cases lettersEq : heading.letters with
  | nil => simp [columns, lettersEq, barsBehind]
  | cons first rest =>
      cases index with
      | zero => simp [columns, lettersEq, barsBehind, Letter.column]
      | succ index =>
          simp only [columns, lettersEq, barsBehind, List.getElem?_cons_succ, List.getElem?_map,
            Option.map_map]
          cases rest[index]? <;> rfl

/-- The column of a merged cell is written as the specifier of the heading for it. -/
theorem render_mergedColumn {table : Table} (nonempty : heading.letters ≠ [])
    (columns : table.columns = heading.columns) (range : ColumnRange) (options : Options) :
    Specifier.render [Plan.mergedColumn table range options]
      = heading.mergeSpecifier options range.first range.last := by
  have render (column : Column) : Specifier.render [column] = column.render :=
    List.append_nil _
  rw [render, Plan.mergedColumn, mergeSpecifier, columns, leftRules_columns nonempty,
    rightRules_columns]
  split
  · rfl
  · simp [Column.render, Column.plain]

theorem isBarred_mergeSpecifier (options : Options) (first last : Nat) (heading : Heading) :
    (heading.mergeSpecifier options first last).IsBarred := by
  have letter : isLetter options.mergeAlignment.letter = true := by
    cases options.mergeAlignment <;> rfl
  have single : Text.IsBarred [options.mergeAlignment.letter] := by
    intro character member
    obtain rfl := List.mem_singleton.mp member
    exact Or.inl letter
  have bars (count : Nat) : Text.IsBarred (List.replicate count '|') :=
    fun character member => Or.inr (List.eq_of_mem_replicate member)
  unfold mergeSpecifier
  split
  · intro character member
    rcases List.mem_append.mp member with inFront | behind
    · rcases List.mem_append.mp inFront with before | isLetter
      · exact bars _ character before
      · exact single character isLetter
    · exact bars _ character behind
  · exact single

end Heading

namespace Entry

/-- The entry that takes the place of others with some contents. -/
def merging (heading : Heading) (options : Options) (first columns : Nat)
    (contents : List Text) : Entry :=
  .merged (ofNumber columns) (heading.mergeSpecifier options first (first + columns - 1))
    (trim (List.intercalate [' '] contents))

variable {heading : Heading} {options : Options} {first columns : Nat} {contents : List Text}

/-- A new merge has no white space between its arguments. -/
theorem mergeText_eq (range : ColumnRange) (column : Column) (content : Text) :
    Plan.mergeText range column content
      = (mergeText (ofNumber (range.last + 1 - range.first))
          (Specifier.render [column]) content).text := by
  have command : "\\multicolumn".toList = '\\' :: MergeText.name := rfl
  unfold Plan.mergeText MergeText.text MergeText.preamble mergeText
  rw [command]
  generalize ofNumber (range.last + 1 - range.first) = number
  generalize MergeText.name = name
  simp

theorem text_merging {table : Table} (nonempty : heading.letters ≠ [])
    (columnsEq : table.columns = heading.columns) (positive : 0 < columns) :
    Plan.mergeText ⟨first, first + columns - 1⟩
        (Plan.mergedColumn table ⟨first, first + columns - 1⟩ options)
        (trim (List.intercalate [' '] contents))
      = (merging heading options first columns contents).text := by
  have count : first + columns - 1 + 1 - first = columns := by omega
  rw [mergeText_eq, Heading.render_mergedColumn nonempty columnsEq, count]
  rfl

theorem width_merging (positive : 0 < columns) :
    (merging heading options first columns contents).width = columns := by
  rw [merging, width, digitsValue_ofNumber, Nat.max_eq_left positive]

theorem WellFormed.isPlain_content {entry : Entry} (wellFormed : entry.WellFormed) :
    entry.content.IsPlain := by
  cases entry with
  | plain content => exact wellFormed
  | merged number specifier content => exact wellFormed.2.2.2.2

theorem content_laid (start : Nat) (entry : Entry) :
    (entry.laid start).content = entry.content := by
  cases entry <;> rfl

theorem outline_merging :
    (merging heading options first columns contents).outline
      = ⟨trim (List.intercalate [' '] contents), some ⟨columns,
        heading.mergeSpecifier options first (first + columns - 1)⟩⟩ := by
  rw [merging, outline, digitsValue_ofNumber]

theorem wellFormed_merging (positive : 0 < columns) (limit : columns < wordLimit)
    (plain : ∀ content ∈ contents, content.IsPlain) :
    (merging heading options first columns contents).WellFormed := by
  refine ⟨isNumeral_ofNumber columns, ?_, ?_, heading.isBarred_mergeSpecifier options _ _,
    isPlain_trim_intercalate plain⟩
  · rw [digitsValue_ofNumber]
    exact positive
  · rw [digitsValue_ofNumber]
    exact limit

end Entry

/-- One edit puts a text in the place of another one, which may be empty. -/
theorem Rewrite.substitution (offset : Nat) (left new : Text) {old right : Text}
    (nonempty : right ≠ []) :
    Rewrite offset (left ++ (old ++ right))
      [⟨⟨offset + left.size, offset + left.size + old.size⟩, new⟩] (left ++ (new ++ right)) := by
  cases old with
  | nil => exact Rewrite.insertion offset left new nonempty
  | cons head rest => exact Rewrite.replacement offset left right new (List.cons_ne_nil head rest)

theorem map_content_layCells (start : Nat) (cells : List WrittenCell) :
    (layCells start cells).map LatexTabular.Cell.content = cells.map (·.entry.content) := by
  induction cells generalizing start with
  | nil => rfl
  | cons cell rest ih =>
      rw [layCells_cons, List.map_cons, ih, Entry.content_laid, List.map_cons]

/-- The white space in front of cells. -/
def leadOf (cells : List WrittenCell) : Text := (cells.head?.map (·.before)).getD []

/-- The white space behind cells. -/
def trailOf (cells : List WrittenCell) : Text := (cells.getLast?.map (·.after)).getD []

/-- A cell with the white space around some cells, and an entry in their place. -/
def WrittenCell.around (cells : List WrittenCell) (entry : Entry) : WrittenCell :=
  ⟨leadOf cells, entry, trailOf cells⟩

theorem trailOf_concat (init : List WrittenCell) (last : WrittenCell) :
    trailOf (init ++ [last]) = last.after := by
  rw [trailOf, List.getLast?_concat]
  rfl

theorem exists_cellsText_eq {cells : List WrittenCell} (nonempty : cells ≠ []) :
    ∃ core, cellsText cells = leadOf cells ++ (core ++ trailOf cells) := by
  obtain ⟨init, last, rfl⟩ := (List.eq_nil_or_concat' cells).resolve_left nonempty
  rw [trailOf_concat]
  cases init with
  | nil => exact ⟨last.entry.text, List.append_assoc _ _ _⟩
  | cons first middle =>
      refine ⟨first.entry.text ++ first.after
        ++ ('&' :: frontText middle ++ (last.before ++ last.entry.text)), ?_⟩
      rw [cellsText_append_cons, frontText_cons, backText_nil]
      simp [WrittenCell.text, leadOf]

namespace WrittenRow

/-- The written cells of a row over the columns from `left` to `right`, and the number of the
blank columns behind them that fill the row. -/
structure Covers (columnCount left right : Nat) (row : WrittenRow)
    (before covered : List WrittenCell) (filler : Nat) (behind : List WrittenCell) : Prop where
  cells : row.cells = before ++ (covered ++ behind)
  nonempty : covered ≠ []
  atEnd : filler = 0 ∨ behind = []
  fits : row.width + filler ≤ columnCount
  covering : Covering left right (before.map (·.entry.width))
    (covered.map (·.entry.width) ++ List.replicate filler 1)

variable {columnCount left right filler start : Nat} {rules : List Span} {row : WrittenRow}
  {before covered behind : List WrittenCell}

/-- Columns of which the first one is written lie over written cells and fill. -/
theorem exists_covers (ordered : left ≤ right) (written : left < row.width)
    (within : right < columnCount) (fits : row.width ≤ columnCount) :
    ∃ before covered filler behind,
      row.Covers columnCount left right before covered filler behind := by
  by_cases allWritten : right < row.width
  · obtain ⟨before, covered, behind, cellsEq, covering⟩ :=
      exists_covering (fun cell : WrittenCell => cell.entry.width) ordered allWritten
    refine ⟨before, covered, 0, behind, cellsEq, ?_, Or.inl rfl, fits, by simpa using covering⟩
    rintro rfl
    have begins := covering.begins
    have ends := covering.ends
    simp only [List.map_nil, List.sum_nil] at ends
    omega
  · obtain ⟨before, first, rest, cellsEq, begins, inFirst⟩ :=
      exists_over (fun cell : WrittenCell => cell.entry.width) written
    have width : row.width = (before.map (·.entry.width)).sum
        + ((first :: rest).map (·.entry.width)).sum := by
      rw [WrittenRow.width, cellsEq, List.map_append, List.sum_append]
    refine ⟨before, first :: rest, right + 1 - row.width, [], by simpa using cellsEq,
      List.cons_ne_nil _ _, Or.inr rfl, by omega, begins, ?_, ?_, ?_⟩
    · rintro firstWidth ⟨⟩
      exact inFirst
    · intro lastWidth isLast
      rw [List.getLast?_append_of_ne_nil _ (by simp; omega), List.getLast?_replicate] at isLast
      obtain rfl : 1 = lastWidth := by simpa using (Option.ite_none_left_eq_some.mp isLast).2
      rw [List.sum_append, List.sum_replicate_nat]
      omega
    · rw [List.sum_append, List.sum_replicate_nat]
      omega

theorem Covers.width_eq
    (covers : row.Covers columnCount left right before covered filler behind) :
    row.width = (before.map (·.entry.width)).sum + (covered.map (·.entry.width)).sum
      + (behind.map (·.entry.width)).sum := by
  rw [width, covers.cells, List.map_append, List.map_append, List.sum_append, List.sum_append,
    Nat.add_assoc]

/-- The blank columns behind written cells are split where `filler` of them are taken. -/
theorem Covers.append_replicate {α : Type} {part part' : List α} (blank : α)
    (covers : row.Covers columnCount left right before covered filler behind)
    (noneBehind : behind = [] → part' = []) :
    part ++ (part' ++ List.replicate (columnCount - row.width) blank)
      = (part ++ List.replicate filler blank)
        ++ (part' ++ List.replicate (columnCount - (row.width + filler)) blank) := by
  have fits := covers.fits
  rcases covers.atEnd with rfl | isLast
  · simp
  · have count : columnCount - row.width = filler + (columnCount - (row.width + filler)) := by omega
    rw [noneBehind isLast, count, List.replicate_add]
    simp

/-- Written cells and blank ones behind them, as they are read in a row at an offset. -/
def readCovered (start : Nat) (before covered : List WrittenCell) (filler : Nat)
    (row : WrittenRow) : List LatexTabular.Cell :=
  layCells (row.cellsStart start + (frontText before).size) covered
    ++ List.replicate filler (.blank (row.fillStart start))

theorem length_readCovered : (row.readCovered start before covered filler).length
    = covered.length + filler := by
  rw [readCovered, List.length_append, length_layCells, List.length_replicate]

theorem totalWidth_readCovered : Row.totalWidth (row.readCovered start before covered filler)
    = (covered.map (·.entry.width)).sum + filler := by
  rw [readCovered, Row.totalWidth_append, totalWidth_layCells, Row.totalWidth_replicate_blank]

theorem joined_readCovered : Plan.joined (row.readCovered start before covered filler)
    = trim (List.intercalate [' ']
      (covered.map (·.entry.content) ++ List.replicate filler [])) := by
  rw [Plan.joined, readCovered, List.map_append, List.map_replicate, map_content_layCells]
  rfl

/-- The cells over some columns of a row as it is read. -/
theorem Covers.filled (covers : row.Covers columnCount left right before covered filler behind) :
    (row.filled columnCount start rules).PartedAt left right
      (layCells (row.cellsStart start) before) (row.readCovered start before covered filler)
      (layCells (row.cellsStart start + (frontText before).size + (frontText covered).size) behind
        ++ List.replicate (columnCount - (row.width + filler)) (.blank (row.fillStart start))) := by
  have blankWidth : (Cell.blank (row.fillStart start)).width = 1 := rfl
  refine ⟨?_, ?_⟩
  · rw [cells_filled, readCovered,
      ← covers.append_replicate (Cell.blank (row.fillStart start)) (by rintro rfl; rfl)]
    conv => lhs; rw [covers.cells, layCells_append, layCells_append]
    rw [List.append_assoc, List.append_assoc]
  · rw [readCovered, List.map_append, List.map_replicate, blankWidth, map_width_layCells,
      map_width_layCells]
    exact covers.covering

/-- The cells over some columns of the outline of a row. -/
theorem Covers.outline (covers : row.Covers columnCount left right before covered filler behind) :
    (row.outline columnCount).cells = before.map (·.entry.outline)
      ++ ((covered.map (·.entry.outline) ++ List.replicate filler Outline.Cell.blank)
        ++ (behind.map (·.entry.outline)
          ++ List.replicate (columnCount - (row.width + filler)) Outline.Cell.blank)) := by
  rw [← covers.append_replicate Outline.Cell.blank (by rintro rfl; rfl)]
  simp only [WrittenRow.outline, covers.cells, List.map_append, List.append_assoc]

/-- A merged cell in the place of some cells of a row and of blank columns behind them. -/
def merged (heading : Heading) (options : Options) (before covered : List WrittenCell)
    (filler : Nat) (behind : List WrittenCell) (row : WrittenRow) : WrittenRow :=
  { row with
    cells := before ++ .around covered (.merging heading options
        (before.map (·.entry.width)).sum ((covered.map (·.entry.width)).sum + filler)
        (covered.map (·.entry.content) ++ List.replicate filler [])) :: behind }

variable {heading : Heading} {options : Options}

/-- Cells over some columns take at least one. -/
theorem Covers.pos (covers : row.Covers columnCount left right before covered filler behind)
    (ordered : left ≤ right) : 0 < (covered.map (·.entry.width)).sum + filler := by
  have begins := covers.covering.begins
  have ends := covers.covering.ends
  rw [List.sum_append, List.sum_replicate_nat] at ends
  omega

theorem Covers.width_merged
    (covers : row.Covers columnCount left right before covered filler behind)
    (ordered : left ≤ right) :
    (row.merged heading options before covered filler behind).width = row.width + filler := by
  have widthEq := covers.width_eq
  simp only [width, merged, List.map_append, List.map_cons, List.sum_append, List.sum_cons,
    WrittenCell.around, Entry.width_merging (covers.pos ordered)]
  rw [width] at widthEq
  omega

theorem map_width_map_outline (cells : List WrittenCell) :
    (cells.map (·.entry.outline)).map Outline.Cell.width = cells.map (·.entry.width) := by
  rw [List.map_map]
  exact List.map_congr_left fun cell _ => cell.entry.width_outline

theorem map_content_map_outline (cells : List WrittenCell) (filler : Nat) :
    (cells.map (·.entry.outline) ++ List.replicate filler Outline.Cell.blank).map (·.content)
      = cells.map (·.entry.content) ++ List.replicate filler [] := by
  rw [List.map_append, List.map_replicate, List.map_map]
  exact congrArg (· ++ _) (List.map_congr_left fun cell _ => cell.entry.content_outline)

theorem Covers.covering_outline
    (covers : row.Covers columnCount left right before covered filler behind) :
    Covering left right ((before.map (·.entry.outline)).map Outline.Cell.width)
      ((covered.map (·.entry.outline) ++ List.replicate filler Outline.Cell.blank).map
        Outline.Cell.width) := by
  have blankWidth : Outline.Cell.blank.width = 1 := rfl
  rw [List.map_append, List.map_replicate, blankWidth, map_width_map_outline,
    map_width_map_outline]
  exact covers.covering

theorem Covers.length_cellsOver
    (covers : row.Covers columnCount left right before covered filler behind)
    (ordered : left ≤ right) :
    ((row.outline columnCount).cellsOver left right).length = covered.length + filler := by
  rw [(cells_of_covering covers.outline ordered covers.covering_outline).2.1, List.length_append,
    List.length_map, List.length_replicate]

/-- The outline of a row with a merged cell has the cells merged. -/
theorem Covers.outline_merged
    (covers : row.Covers columnCount left right before covered filler behind)
    (ordered : left ≤ right) :
    (row.merged heading options before covered filler behind).outline columnCount
      = (row.outline columnCount).mergeCells heading options left right := by
  have mergedEq : (Entry.merging heading options (before.map (·.entry.width)).sum
        ((covered.map (·.entry.width)).sum + filler)
        (covered.map (·.entry.content) ++ List.replicate filler [])).outline
      = Row.mergedCell heading options (before.map (·.entry.outline))
        (covered.map (·.entry.outline) ++ List.replicate filler Outline.Cell.blank) := by
    rw [Entry.outline_merging, Row.mergedCell, map_content_map_outline, totalWidth_append,
      totalWidth_replicate_blank, totalWidth, totalWidth, map_width_map_outline,
      map_width_map_outline]
  rw [mergeCells_of_covering covers.outline ordered covers.covering_outline, WrittenRow.outline,
    covers.width_merged ordered, ← mergedEq]
  simp [merged, WrittenCell.around, WrittenRow.outline]

theorem Covers.wellFormed_merged
    (covers : row.Covers columnCount left right before covered filler behind)
    (ordered : left ≤ right) (wellFormed : row.WellFormed) (limit : columnCount < wordLimit) :
    (row.merged heading options before covered filler behind).WellFormed := by
  have isCell {cells : List WrittenCell} (isPart : cells.Sublist row.cells) :
      ∀ cell ∈ cells, cell.WellFormed :=
    fun cell member => wellFormed.cells cell (isPart.subset member)
  have inFront := List.sublist_append_left before (covered ++ behind)
  have between := (List.sublist_append_left covered behind).trans
    (List.sublist_append_right before (covered ++ behind))
  have after := (List.sublist_append_right covered behind).trans
    (List.sublist_append_right before (covered ++ behind))
  rw [← covers.cells] at inFront between after
  have narrow : (covered.map (·.entry.width)).sum + filler < wordLimit := by
    have widthEq := covers.width_eq
    have fits := covers.fits
    omega
  have entry : (Entry.merging heading options (before.map (·.entry.width)).sum
      ((covered.map (·.entry.width)).sum + filler)
      (covered.map (·.entry.content) ++ List.replicate filler [])).WellFormed := by
    refine Entry.wellFormed_merging (covers.pos ordered) narrow fun content member => ?_
    rcases List.mem_append.mp member with isContent | isBlank
    · obtain ⟨cell, isCovered, rfl⟩ := List.mem_map.mp isContent
      exact (isCell between cell isCovered).entry.isPlain_content
    · obtain rfl := List.eq_of_mem_replicate isBlank
      exact Entry.wellFormed_blank
  obtain ⟨first, rest, firstEq⟩ := List.exists_cons_of_ne_nil covers.nonempty
  obtain ⟨init, last, lastEq⟩ := (List.eq_nil_or_concat' covered).resolve_left covers.nonempty
  refine ⟨wellFormed.ruleGaps, by simp [merged], fun cell member => ?_⟩
  rcases List.mem_append.mp member with isBefore | member
  · exact isCell inFront cell isBefore
  rcases List.mem_cons.mp member with rfl | isBehind
  · refine ⟨?_, entry, ?_, fun empty => ?_⟩
    · rw [firstEq]
      exact (isCell between first (by simp [firstEq])).before
    · rw [lastEq, WrittenCell.around, trailOf_concat]
      exact (isCell between last (by simp [lastEq])).after
    · simp [WrittenCell.around, Entry.merging, Entry.text, MergeText.text, MergeText.preamble]
        at empty
  · exact isCell after cell isBehind

/-- A row stays detached: a merged cell starts with a command. -/
theorem Covers.detached_merged
    (covers : row.Covers columnCount left right before covered filler behind)
    (detached : row.Detached) :
    (row.merged heading options before covered filler behind).Detached := by
  intro cell isFirst
  cases before with
  | nil =>
      obtain rfl : _ = cell := Option.some.inj isFirst
      exact Or.inr nofun
  | cons head rest =>
      obtain rfl : head = cell := Option.some.inj isFirst
      exact detached head (by rw [covers.cells]; rfl)

/-- Where the first cell over some columns starts and the last written one of them ends. -/
def mergeSpan (start : Nat) (before covered : List WrittenCell) : Span where
  start := start + (frontText before).size + (leadOf covered).size
  stop := start + (frontText before).size + (cellsText covered).size - (trailOf covered).size

/-- A merged cell that is written in the place of some cells rewrites the row. -/
theorem Covers.rewrites_merged
    (covers : row.Covers columnCount left right before covered filler behind) (start : Nat) :
    Rewrites start row.text
      [⟨mergeSpan (row.cellsStart start) before covered, (Entry.merging heading options
        (before.map (·.entry.width)).sum ((covered.map (·.entry.width)).sum + filler)
        (covered.map (·.entry.content) ++ List.replicate filler [])).text⟩]
      (row.merged heading options before covered filler behind).text := by
  obtain ⟨core, coveredEq⟩ := exists_cellsText_eq covers.nonempty
  generalize entryEq : Entry.merging heading options (before.map (·.entry.width)).sum
    ((covered.map (·.entry.width)).sum + filler)
    (covered.map (·.entry.content) ++ List.replicate filler []) = entry
  have nonempty : trailOf covered ++ (backText behind ++ "\\\\".toList) ≠ [] := by simp
  have substituted := @Rewrite.substitution start
    (rulesText row.ruleGaps ++ (frontText before ++ leadOf covered)) entry.text core _ nonempty
  have sourceEq : row.text = rulesText row.ruleGaps ++ (frontText before ++ leadOf covered)
      ++ (core ++ (trailOf covered ++ (backText behind ++ "\\\\".toList))) := by
    rw [text, covers.cells, cellsText_append _ _ covers.nonempty, coveredEq]
    simp
  have targetEq : (row.merged heading options before covered filler behind).text
      = rulesText row.ruleGaps ++ (frontText before ++ leadOf covered)
        ++ (entry.text ++ (trailOf covered ++ (backText behind ++ "\\\\".toList))) := by
    rw [text, merged, entryEq, cellsText_append_cons, WrittenCell.around, WrittenCell.text]
    simp
  have spanEq : mergeSpan (row.cellsStart start) before covered
      = ⟨start + Text.size (rulesText row.ruleGaps ++ (frontText before ++ leadOf covered)),
        start + Text.size (rulesText row.ruleGaps ++ (frontText before ++ leadOf covered))
          + core.size⟩ := by
    simp only [mergeSpan, cellsStart, coveredEq, Text.size_append, Span.mk.injEq]
    omega
  rw [sourceEq, targetEq, spanEq]
  exact substituted.rewrites

/-- Where the row is read, the cells over the columns stand there. -/
theorem Covers.exists_ends
    (covers : row.Covers columnCount left right before covered filler behind) (start : Nat) :
    ∃ first last, (row.readCovered start before covered filler).head? = some first ∧
      (row.readCovered start before covered filler).getLast? = some last ∧
      mergeSpan (row.cellsStart start) before covered = ⟨first.outer.start, last.outer.stop⟩ := by
  obtain ⟨first, rest, firstEq⟩ := List.exists_cons_of_ne_nil covers.nonempty
  obtain ⟨init, last, lastEq⟩ := (List.eq_nil_or_concat' covered).resolve_left covers.nonempty
  have firstOuter : (first.entry.laid (row.cellsStart start + (frontText before).size
      + first.before.size)).outer.start
        = (mergeSpan (row.cellsStart start) before covered).start := by
    rw [Entry.outer_laid, mergeSpan, firstEq]
    rfl
  have stop : (mergeSpan (row.cellsStart start) before covered).stop
      = entryStop (row.cellsStart start) (before ++ init) last := by
    have textEq := cellsText_append_cons init last []
    simp only [mergeSpan, lastEq, trailOf_concat, textEq, entryStop, frontText_append,
      WrittenCell.text, backText_nil, Text.size_append, Text.size_nil]
    omega
  have isFirst : (row.readCovered start before covered filler).head?
      = some (first.entry.laid (row.cellsStart start + (frontText before).size
        + first.before.size)) := by
    rw [readCovered, firstEq, layCells_cons]
    rfl
  by_cases written : filler = 0
  · refine ⟨_, last.entry.laid (row.cellsStart start + (frontText before).size
      + (frontText init).size + last.before.size), isFirst, ?_, ?_⟩
    · rw [readCovered, written, lastEq, layCells_append, layCells_cons]
      simp [layCells]
    · refine congrArg₂ Span.mk firstOuter.symm (stop.trans ?_)
      rw [Entry.outer_laid, entryStop, frontText_append, Text.size_append]
      simp only [Nat.add_assoc]
  · obtain rfl := covers.atEnd.resolve_left written
    refine ⟨_, .blank (row.fillStart start), isFirst, ?_, ?_⟩
    · rw [readCovered, List.getLast?_append_of_ne_nil _ (by simpa using written),
        List.getLast?_replicate, if_neg written]
    · have atEnd : row.cells = (before ++ init) ++ [last] := by
        simpa [lastEq] using covers.cells
      rw [← fillStart_eq atEnd] at stop
      exact congrArg₂ Span.mk firstOuter.symm stop

section Fill

variable (columnCount left right start) (rules) (row)

/-- The blank cells over columns that no written cell takes. -/
theorem covers_fill (fill : row.width ≤ left) (ordered : left ≤ right)
    (within : right < columnCount) :
    (row.filled columnCount start rules).PartedAt left right
      (layCells (row.cellsStart start) row.cells
        ++ List.replicate (left - row.width) (.blank (row.fillStart start)))
      (List.replicate (right + 1 - left) (.blank (row.fillStart start)))
      (List.replicate (columnCount - (right + 1)) (.blank (row.fillStart start))) := by
  have blankWidth : (Cell.blank (row.fillStart start)).width = 1 := rfl
  have counts : columnCount - row.width
      = (left - row.width) + ((right + 1 - left) + (columnCount - (right + 1))) := by omega
  have before : ((layCells (row.cellsStart start) row.cells
      ++ List.replicate (left - row.width) (LatexTabular.Cell.blank (row.fillStart start))).map
        LatexTabular.Cell.width).sum = left := by
    rw [← Row.totalWidth_eq_sum, Row.totalWidth_append, totalWidth_layCells,
      Row.totalWidth_replicate_blank]
    exact Nat.add_sub_cancel' fill
  refine ⟨by rw [cells_filled, counts, List.replicate_add, List.replicate_add, List.append_assoc],
    before.le, ?_, ?_, ?_⟩
  · intro width isFirst
    rw [List.map_replicate, blankWidth] at isFirst
    obtain rfl := List.eq_of_mem_replicate (List.mem_of_mem_head? isFirst)
    omega
  · intro width isLast
    rw [List.map_replicate, blankWidth] at isLast ⊢
    obtain rfl := List.eq_of_mem_replicate (List.mem_of_mem_getLast? isLast)
    rw [before, List.sum_replicate_nat]
    omega
  · rw [before, List.map_replicate, blankWidth, List.sum_replicate_nat]
    omega

/-- The last written cell of a row ends where the blank ones stand. -/
theorem exists_last_cell (nonempty : row.cells ≠ []) :
    ∃ cell, (row.filled columnCount start rules).cellAt? (row.width - 1) = some cell ∧
      cell.extent.stop = row.fillStart start := by
  obtain ⟨init, last, cellsEq⟩ := (List.eq_nil_or_concat' row.cells).resolve_left nonempty
  have filledEq : (row.filled columnCount start rules).cells
      = layCells (row.cellsStart start) init
        ++ last.entry.laid (row.cellsStart start + (frontText init).size + last.before.size)
          :: List.replicate (columnCount - row.width) (.blank (row.fillStart start)) := by
    rw [cells_filled]
    conv => lhs; rw [cellsEq, layCells_append, layCells_cons]
    rw [List.append_assoc]
    rfl
  have width : row.width = (init.map (·.entry.width)).sum + last.entry.width := by
    rw [WrittenRow.width, cellsEq, List.map_append, List.sum_append]
    rfl
  have positive := last.entry.width_pos
  have found := @Row.cellAt?_of_over _ _ _ _ (row.width - 1) filledEq
    (by rw [totalWidth_layCells]; omega) (by rw [totalWidth_layCells, Entry.width_laid]; omega)
  refine ⟨_, found, ?_⟩
  rw [fillStart_eq cellsEq, Entry.extent_laid]
  rfl

end Fill

end WrittenRow

namespace Sheet

variable {heading : Heading} {options : Options} {sheet : Sheet} {selection : Selection}
  {rowsBefore rowsBehind : List WrittenRow} {row : WrittenRow}
  {before covered behind : List WrittenCell} {filler : Nat}

/-- A sheet with a merged cell in one row. -/
def merged (heading : Heading) (options : Options) (rowsBefore rowsBehind : List WrittenRow)
    (row : WrittenRow) (before covered : List WrittenCell) (filler : Nat)
    (behind : List WrittenCell) (sheet : Sheet) : Sheet :=
  { sheet with
    rows := rowsBefore ++ row.merged heading options before covered filler behind :: rowsBehind }

section Kept

variable (options) {left right : Nat} (rowsEq : sheet.rows = rowsBefore ++ row :: rowsBehind)
  (covers : row.Covers heading.letters.length left right before covered filler behind)

include rowsEq covers

/-- A regular sheet stays regular when cells are merged. -/
theorem Regular.merged (ordered : left ≤ right) (regular : sheet.Regular heading)
    (limit : heading.letters.length < wordLimit) :
    (sheet.merged heading options rowsBefore rowsBehind row before covered filler behind).Regular
      heading := by
  have ofRow : row ∈ sheet.rows := by simp [rowsEq]
  refine regular.with_row rowsEq (covers.wellFormed_merged ordered
    (regular.wellFormed.rows row ofRow) limit) ?_
  rw [covers.width_merged ordered]
  exact covers.fits

theorem detached_merged (detached : ∀ other ∈ sheet.rows, other.Detached) :
    ∀ other ∈ (sheet.merged heading options rowsBefore rowsBehind row before covered filler
      behind).rows, other.Detached := by
  have ofRow : row ∈ sheet.rows := by simp [rowsEq]
  exact detached_with_row rowsEq detached (covers.detached_merged (detached row ofRow))

end Kept

section Merged

variable (options) (rowsEq : sheet.rows = rowsBefore ++ row :: rowsBehind)
  (covers : row.Covers heading.letters.length selection.bounds.left selection.bounds.right before
    covered filler behind)

include rowsEq covers

/-- Merging cells of one row, of which the first one is written, yields the sheet with the merged
cell. -/
theorem apply_mergeCells (regular : sheet.Regular heading)
    (oneRow : selection.bounds.top = selection.bounds.bottom)
    (isRow : selection.bounds.top = rowsBefore.length)
    (several : 2 ≤ covered.length + filler) :
    Batch.apply sheet.text (Plan.mergeCells sheet.table selection options)
      = .ok (sheet.merged heading options rowsBefore rowsBehind row before covered filler
        behind).text := by
  obtain ⟨rules, found⟩ := getElem?_rows rowsEq
  rw [← isRow, regular.columnCount] at found
  have filled := @WrittenRow.Covers.filled _ _ _ _ (sheet.bodyStart + (rowsText rowsBefore).size)
    rules _ _ _ _ covers
  obtain ⟨first, last, isFirst, isLast, spanEq⟩ := covers.exists_ends
    (sheet.bodyStart + (rowsText rowsBefore).size)
  have merges : Plan.Merges sheet.table selection _ _ _ _ :=
    ⟨oneRow, found, filled, several.trans_eq WrittenRow.length_readCovered.symm⟩
  have positive := covers.pos selection.left_le_right
  have columnsEq : Plan.columnsBehind
        (layCells (row.cellsStart (sheet.bodyStart + (rowsText rowsBefore).size)) before)
        (row.readCovered (sheet.bodyStart + (rowsText rowsBefore).size) before covered filler)
      = ⟨(before.map (·.entry.width)).sum, (before.map (·.entry.width)).sum
        + ((covered.map (·.entry.width)).sum + filler) - 1⟩ := by
    rw [Plan.columnsBehind, totalWidth_layCells, WrittenRow.totalWidth_readCovered]
  have columns : sheet.table.columns = heading.columns := regular.shows.columns
  rw [merges.mergeCells_eq isFirst isLast, ← spanEq, columnsEq, WrittenRow.joined_readCovered,
    Entry.text_merging regular.letters.nonempty columns positive]
  exact apply_of_row rowsEq (covers.rewrites_merged _)

/-- The outline of a sheet with a merged cell has the cells of the row merged. -/
theorem outline_merged (isRow : selection.bounds.top = rowsBefore.length) :
    (sheet.merged heading options rowsBefore rowsBehind row before covered filler behind).outline
        heading
      = (sheet.outline heading).mergeCells options selection.bounds.top selection.bounds.left
        selection.bounds.right := by
  rw [isRow]
  exact outline_with_row rowsEq (covers.outline_merged selection.left_le_right)

end Merged

/-- Cells that only fill a row are merged at the end of the last written one. -/
theorem mergeCells_of_fill (regular : sheet.Regular heading)
    (rowsEq : sheet.rows = rowsBefore ++ row :: rowsBehind)
    (oneRow : selection.bounds.top = selection.bounds.bottom)
    (isRow : selection.bounds.top = rowsBefore.length)
    (fill : row.width ≤ selection.bounds.left)
    (several : selection.bounds.left < selection.bounds.right)
    (within : selection.bounds.right < heading.letters.length) :
    ∃ cell, sheet.table.cellAt? selection.bounds.top (row.width - 1) = some cell ∧
      Plan.mergeCells sheet.table selection options = [.insertion cell.extent.stop
        (Entry.merging heading options selection.bounds.left
          (selection.bounds.right + 1 - selection.bounds.left) []).text] := by
  obtain ⟨rules, found⟩ := getElem?_rows rowsEq
  rw [← isRow, regular.columnCount] at found
  generalize sheet.bodyStart + (rowsText rowsBefore).size = start at found
  have nonempty := (regular.wellFormed.rows row (by simp [rowsEq])).nonempty
  obtain ⟨cell, isLast, stop⟩ := WrittenRow.exists_last_cell heading.letters.length start rules row
    nonempty
  have covers := WrittenRow.covers_fill heading.letters.length selection.bounds.left
    selection.bounds.right start rules row fill several.le within
  have merges : Plan.Merges sheet.table selection _ _ _ _ :=
    ⟨oneRow, found, covers, by rw [List.length_replicate]; omega⟩
  have some : selection.bounds.right + 1 - selection.bounds.left ≠ 0 := by omega
  have planned := @Plan.Merges.mergeCells_eq _ _ _ _ _ _ options
    (.blank (row.fillStart start)) (.blank (row.fillStart start)) merges
    (by rw [List.head?_replicate, if_neg some]) (by rw [List.getLast?_replicate, if_neg some])
  have columnsEq : Plan.columnsBehind
        (layCells (row.cellsStart start) row.cells
          ++ List.replicate (selection.bounds.left - row.width) (.blank (row.fillStart start)))
        (List.replicate (selection.bounds.right + 1 - selection.bounds.left)
          (.blank (row.fillStart start)))
      = ⟨selection.bounds.left, selection.bounds.left
        + (selection.bounds.right + 1 - selection.bounds.left) - 1⟩ := by
    have width : (row.cells.map (·.entry.width)).sum = row.width := rfl
    rw [Plan.columnsBehind, Row.totalWidth_append, totalWidth_layCells, width,
      Row.totalWidth_replicate_blank, Row.totalWidth_replicate_blank, Nat.add_sub_cancel' fill]
  have joined : Plan.joined (List.replicate (selection.bounds.right + 1 - selection.bounds.left)
      (.blank (row.fillStart start))) = trim (List.intercalate [' '] []) := by
    rw [Plan.joined, List.map_replicate]
    exact trim_intercalate_replicate _
  have columns : sheet.table.columns = heading.columns := regular.shows.columns
  refine ⟨cell, by simp [Table.cellAt?, found, isLast], ?_⟩
  rw [planned, columnsEq, joined, stop, Entry.text_merging regular.letters.nonempty columns
    (Nat.pos_of_ne_zero some)]
  rfl

end Sheet

end LatexTabular
