import LatexTabular.Proofs.Sheet.Merging
import LatexTabular.Proofs.Text.Covered

/-!
# Splitting the merged cells of a sheet

The edits that split a merged cell of a sheet leave its content in a cell of its own, with a blank
cell for each of its other columns (`Sheet.apply_unmergeCells`).  Where the merged cell was made of
plain cells, their contents are read joined in the first of them (`Sheet.readFrom_joined`).
-/

namespace LatexTabular

open Text Body Outline

/-- The cells that a merged cell of several columns is split into: its content, and blank cells
without white space between them. -/
def splitCells (lead content trail : Text) (columns : Nat) : List WrittenCell :=
  ⟨lead, .plain content, []⟩
    :: (List.replicate (columns - 2) ⟨[], .blank, []⟩ ++ [⟨[], .blank, trail⟩])

theorem trim_intercalate_ne_nil {first : Text} (plain : first.IsPlain) (nonempty : first ≠ [])
    (rest : List Text) : trim (List.intercalate [' '] (first :: rest)) ≠ [] := by
  intro empty
  have noInk : ink (trim (List.intercalate [' '] (first :: rest))) = [] := by rw [empty]; rfl
  rw [ink_trim, ink_intercalate (by decide), List.flatMap_cons, List.append_eq_nil_iff,
    ink_eq_nil_iff, allBlank, List.all_eq_true] at noInk
  obtain ⟨head, others, rfl⟩ := List.exists_cons_of_ne_nil nonempty
  have blank := noInk.1 head List.mem_cons_self
  rw [plain.head head rfl] at blank
  exact Bool.false_ne_true blank

section Cells

variable {lead content trail : Text} {columns : Nat}

theorem backText_blanks (count : Nat) (trail : Text) :
    backText (List.replicate count ⟨[], .blank, []⟩ ++ [⟨[], .blank, trail⟩])
      = repeated (count + 1) ['&'] ++ trail := by
  induction count with
  | zero => simp [backText, WrittenCell.text, Entry.text, Entry.blank, repeated]
  | succ count ih =>
      have first : WrittenCell.text ⟨[], .blank, []⟩ = [] := rfl
      rw [List.replicate_succ, List.cons_append, backText_cons, ih, first]
      simp [repeated, List.replicate_succ]

/-- Separators are written behind the content. -/
theorem cellsText_splitCells (several : 2 ≤ columns) :
    cellsText (splitCells lead content trail columns)
      = lead ++ (content ++ (repeated (columns - 1) ['&'] ++ trail)) := by
  have count : columns - 2 + 1 = columns - 1 := by omega
  rw [splitCells, cellsText_cons, backText_blanks, count]
  simp [WrittenCell.text, Entry.text]

theorem map_entry_splitCells (several : 2 ≤ columns) :
    (splitCells lead content trail columns).map (·.entry)
      = .plain content :: List.replicate (columns - 1) .blank := by
  have count : columns - 1 = columns - 2 + 1 := by omega
  simp [splitCells, count, List.replicate_succ']

theorem sum_width_splitCells (several : 2 ≤ columns) :
    ((splitCells lead content trail columns).map (·.entry.width)).sum = columns := by
  have entries := @map_entry_splitCells lead content trail _ several
  have widths : (splitCells lead content trail columns).map (·.entry.width)
      = (Entry.plain content :: List.replicate (columns - 1) .blank).map Entry.width := by
    rw [← entries, List.map_map]
    rfl
  have blankWidth : Entry.blank.width = 1 := rfl
  have plainWidth : (Entry.plain content).width = 1 := rfl
  rw [widths, List.map_cons, List.map_replicate, List.sum_cons, List.sum_replicate_nat, blankWidth,
    plainWidth]
  omega

theorem map_outline_splitCells (several : 2 ≤ columns) :
    (splitCells lead content trail columns).map (·.entry.outline)
      = ⟨content, none⟩ :: List.replicate (columns - 1) Outline.Cell.blank := by
  have entries := @map_entry_splitCells lead content trail _ several
  have outlines : (splitCells lead content trail columns).map (·.entry.outline)
      = (Entry.plain content :: List.replicate (columns - 1) .blank).map Entry.outline := by
    rw [← entries, List.map_map]
    rfl
  rw [outlines, List.map_cons, List.map_replicate]
  rfl

theorem wellFormed_of_mem_splitCells (leadSpace : lead.IsSpace) (trailSpace : trail.IsSpace)
    (plain : content.IsPlain) (nonempty : content ≠ []) {cell : WrittenCell}
    (member : cell ∈ splitCells lead content trail columns) : cell.WellFormed := by
  rcases List.mem_cons.mp member with rfl | inBlanks
  · exact ⟨leadSpace, plain, isSpace_nil, fun empty => absurd empty nonempty⟩
  · rcases List.mem_append.mp inBlanks with inner | isLast
    · obtain rfl := List.eq_of_mem_replicate inner
      exact ⟨isSpace_nil, Entry.wellFormed_blank, isSpace_nil, fun _ => rfl⟩
    · obtain rfl := List.mem_singleton.mp isLast
      exact ⟨isSpace_nil, Entry.wellFormed_blank, trailSpace, fun _ => rfl⟩

end Cells

namespace WrittenRow

/-- A row with a merged cell split. -/
def split (before : List WrittenCell) (lead content trail : Text) (columns : Nat)
    (behind : List WrittenCell) (row : WrittenRow) : WrittenRow :=
  { row with cells := before ++ (splitCells lead content trail columns ++ behind) }

variable {row : WrittenRow} {before behind : List WrittenCell}
  {lead trail number specifier content : Text}
  (cellsEq : row.cells = before ++ ⟨lead, .merged number specifier content, trail⟩ :: behind)
  (several : 2 ≤ digitsValue number)

include cellsEq several

theorem width_split :
    (row.split before lead content trail (digitsValue number) behind).width = row.width := by
  have mergedWidth : (Entry.merged number specifier content).width = digitsValue number :=
    Nat.max_eq_left (by omega)
  simp only [width, split, cellsEq, List.map_append, List.map_cons, List.sum_append, List.sum_cons,
    sum_width_splitCells several, mergedWidth]

/-- What a row with a split cell says. -/
theorem outline_split (columnCount : Nat) :
    (row.split before lead content trail (digitsValue number) behind).outline columnCount
      = { row.outline columnCount with
          cells := before.map (·.entry.outline)
            ++ ((⟨content, none⟩ :: List.replicate (digitsValue number - 1) Outline.Cell.blank)
              ++ (behind.map (·.entry.outline)
                ++ List.replicate (columnCount - row.width) Outline.Cell.blank)) } := by
  have width := width_split cellsEq several
  rw [outline, width, ← @map_outline_splitCells lead content trail _ several]
  simp [split, outline]

/-- The edits that split a merged cell of a row. -/
theorem rewrites_split (start : Nat) {merge : LatexTabular.Merge}
    (mergeEq : merge = (Entry.mergeText number specifier content).place
      (row.cellsStart start + (frontText before).size + lead.size)) :
    Rewrites start row.text
      [.deletion merge.preamble, ⟨merge.postamble, repeated (merge.columns - 1) ['&']⟩]
      (row.split before lead content trail (digitsValue number) behind).text := by
  have opens : (Entry.mergeText number specifier content).preamble ≠ [] := by
    simp [MergeText.preamble]
  have closed : Text.size ['}'] = 1 := by decide
  have unwrapped := (Rewrite.unwrapping (row.cellsStart start) (frontText before ++ lead) content
    (trail ++ backText behind) (repeated (digitsValue number - 1) ['&']) opens
    (List.cons_ne_nil '}' [])).rewrites
  refine WrittenRow.rewrites_text ?_
  have sourceEq : cellsText row.cells = frontText before ++ lead
      ++ ((Entry.mergeText number specifier content).preamble
        ++ (content ++ (['}'] ++ (trail ++ backText behind)))) := by
    rw [cellsEq, cellsText_append_cons]
    simp [WrittenCell.text, Entry.text, MergeText.text, Entry.mergeText]
  have targetEq : cellsText (before ++ (splitCells lead content trail (digitsValue number) ++ behind))
      = frontText before ++ lead ++ (content ++ (repeated (digitsValue number - 1) ['&']
        ++ (trail ++ backText behind))) := by
    have nonempty : splitCells lead content trail (digitsValue number) ≠ [] :=
      List.cons_ne_nil _ _
    rw [cellsText_append _ _ nonempty, cellsText_splitCells several]
    simp
  have contentEq : (Entry.mergeText number specifier content).content = content := rfl
  have columnsEq : (Entry.mergeText number specifier content).columns = digitsValue number := rfl
  rw [sourceEq, targetEq, mergeEq]
  simpa [MergeText.place, closed, contentEq, columnsEq, Nat.add_assoc] using unwrapped

omit several in
theorem wellFormed_split (wellFormed : row.WellFormed) (nonempty : content ≠ []) :
    (row.split before lead content trail (digitsValue number) behind).WellFormed := by
  have isCell := wellFormed.cells ⟨lead, .merged number specifier content, trail⟩
    (by simp [cellsEq])
  refine ⟨wellFormed.ruleGaps, by simp [split, splitCells], fun cell member => ?_⟩
  rcases List.mem_append.mp member with inFront | member
  · exact wellFormed.cells cell (by simp [cellsEq, inFront])
  rcases List.mem_append.mp member with isSplit | isBehind
  · exact wellFormed_of_mem_splitCells isCell.before isCell.after isCell.entry.isPlain_content
      nonempty isSplit
  · exact wellFormed.cells cell (by simp [cellsEq, isBehind])

omit several in
/-- A row stays detached if there is white space in front of the split cell. -/
theorem detached_split (detached : row.Detached) (spaced : lead ≠ []) :
    (row.split before lead content trail (digitsValue number) behind).Detached := by
  intro cell isFirst
  cases before with
  | nil =>
      obtain rfl : _ = cell := Option.some.inj isFirst
      exact Or.inl spaced
  | cons head rest =>
      obtain rfl : head = cell := Option.some.inj isFirst
      exact detached head (by rw [cellsEq]; rfl)

section Covers

variable {columnCount left right filler : Nat} {covered : List WrittenCell}
  (covers : row.Covers columnCount left right before covered filler behind)
  (plain : ∀ cell ∈ (row.outline columnCount).cellsOver left right, cell.merge = none)

/-- A row in which cells are merged and the merged cell is split again. -/
def joined (heading : Heading) (options : Options) (before covered : List WrittenCell)
    (filler : Nat) (behind : List WrittenCell) (row : WrittenRow) : WrittenRow :=
  (row.merged heading options before covered filler behind).split before (leadOf covered)
    (trim (List.intercalate [' '] (covered.map (·.entry.content) ++ List.replicate filler [])))
    (trailOf covered) (digitsValue (ofNumber ((covered.map (·.entry.width)).sum + filler))) behind

omit cellsEq several
include covers plain

/-- Plain cells over some columns take one column each. -/
theorem Covers.columns_of_plain (ordered : left ≤ right) :
    (before.map (·.entry.width)).sum = left ∧ covered.length + filler = right + 1 - left ∧
      (covered.map (·.entry.width)).sum + filler = right + 1 - left := by
  rw [(cells_of_covering covers.outline ordered covers.covering_outline).2.1] at plain
  have positive := covers.pos ordered
  have covering := covers.covering
  have widths : covered.map (·.entry.width) ++ List.replicate filler 1
      = List.replicate (covered.length + filler) 1 := by
    refine List.eq_replicate_iff.mpr ⟨by simp, fun width member => ?_⟩
    rcases List.mem_append.mp member with ofCell | ofBlank
    · obtain ⟨cell, isCovered, rfl⟩ := List.mem_map.mp ofCell
      have none := plain cell.entry.outline
        (List.mem_append_left _ (List.mem_map_of_mem isCovered))
      rw [← cell.entry.width_outline, Outline.Cell.width, none]
    · exact List.eq_of_mem_replicate ofBlank
  have sum := congrArg List.sum widths
  rw [List.sum_append, List.sum_replicate_nat, List.sum_replicate_nat] at sum
  obtain ⟨begins, first, last, ends⟩ := covering
  rw [widths] at first last ends
  have inFirst := first 1 (by rw [List.head?_replicate, if_neg (by omega)]; rfl)
  have inLast := last 1 (by rw [List.getLast?_replicate, if_neg (by omega)]; rfl)
  rw [List.sum_replicate_nat] at inLast ends
  omega

theorem Covers.two_le_columns (several : left < right) :
    2 ≤ digitsValue (ofNumber ((covered.map (·.entry.width)).sum + filler)) := by
  obtain ⟨-, -, columns⟩ := covers.columns_of_plain plain several.le
  rw [digitsValue_ofNumber]
  omega

/-- The first of the cells has white space in front of it if it is detached and says something. -/
theorem Covers.first_of_plain (ordered : left ≤ right)
    (shown : ∀ cell ∈ ((row.outline columnCount).cellsOver left right).head?, cell.content ≠ [])
    (detached : ∀ cell ∈ covered, cell.Detached) :
    ∃ first rest, covered = first :: rest ∧ first.before ≠ [] ∧ first.entry.content ≠ [] := by
  obtain ⟨first, rest, rfl⟩ := List.exists_cons_of_ne_nil covers.nonempty
  rw [(cells_of_covering covers.outline ordered covers.covering_outline).2.1] at plain shown
  have nonempty := shown first.entry.outline rfl
  rw [Entry.content_outline] at nonempty
  have spaced : first.before ≠ [] := by
    refine (detached first List.mem_cons_self).resolve_right fun empty => ?_
    have unmerged := plain first.entry.outline List.mem_cons_self
    cases entryEq : first.entry with
    | plain content =>
        rw [entryEq] at nonempty
        exact nonempty (empty content entryEq)
    | merged number specifier content =>
        rw [entryEq] at unmerged
        exact absurd unmerged (Option.some_ne_none _)
  exact ⟨first, rest, rfl, spaced, nonempty⟩

variable (heading : Heading) (options : Options)

/-- A row in which plain cells are merged and split again has their contents joined. -/
theorem Covers.outline_joined (several : left < right) :
    (row.joined heading options before covered filler behind).outline columnCount
      = (row.outline columnCount).joinCells left right := by
  obtain ⟨-, -, columns⟩ := covers.columns_of_plain plain several.le
  have blanks : right + 1 - left - 1 = right - left := by omega
  have splitEq := @outline_split (row.merged heading options before covered filler behind) _ _ _ _ _
    _ _ rfl (covers.two_le_columns plain several) columnCount
  rw [joinCells_of_covering covers.outline several.le covers.covering_outline,
    map_content_map_outline, joined, splitEq, covers.width_merged several.le, digitsValue_ofNumber, columns, blanks]
  simp [merged, WrittenRow.outline]

theorem Covers.width_joined (several : left < right) :
    (row.joined heading options before covered filler behind).width = row.width + filler := by
  rw [joined, width_split rfl (covers.two_le_columns plain several),
    covers.width_merged several.le]

theorem Covers.wellFormed_joined (several : left < right)
    (shown : ∀ cell ∈ ((row.outline columnCount).cellsOver left right).head?, cell.content ≠ [])
    (detached : ∀ cell ∈ covered, cell.Detached)
    (wellFormed : row.WellFormed) (limit : columnCount < wordLimit) :
    (row.joined heading options before covered filler behind).WellFormed := by
  obtain ⟨first, rest, rfl, -, nonempty⟩ := covers.first_of_plain plain several.le shown detached
  have inRow : first ∈ row.cells := by simp [covers.cells]
  have plainContent := (wellFormed.cells first inRow).entry.isPlain_content
  exact wellFormed_split rfl (covers.wellFormed_merged several.le wellFormed limit)
    (trim_intercalate_ne_nil plainContent nonempty _)

theorem Covers.detached_joined (ordered : left ≤ right)
    (shown : ∀ cell ∈ ((row.outline columnCount).cellsOver left right).head?, cell.content ≠ [])
    (detached : ∀ cell ∈ covered, cell.Detached) (ofRow : row.Detached) :
    (row.joined heading options before covered filler behind).Detached := by
  obtain ⟨first, rest, rfl, spaced, -⟩ := covers.first_of_plain plain ordered shown detached
  exact detached_split rfl (covers.detached_merged ofRow) spaced

end Covers

end WrittenRow

namespace Sheet

variable {sheet : Sheet} {rowsBefore rowsBehind : List WrittenRow}
  {row : WrittenRow} {before behind : List WrittenCell}
  {lead trail number specifier content : Text}

/-- Splitting a merged cell of a row yields the sheet with that row split. -/
theorem apply_unmergeCells
    (rowsEq : sheet.rows = rowsBefore ++ row :: rowsBehind)
    (cellsEq : row.cells = before ++ ⟨lead, .merged number specifier content, trail⟩ :: behind)
    (several : 2 ≤ digitsValue number) :
    Batch.apply sheet.text (Plan.unmergeCells sheet.table
        (.single rowsBefore.length (before.map (·.entry.width)).sum) {})
      = .ok ({ sheet with
          rows := rowsBefore
            ++ row.split before lead content trail (digitsValue number) behind :: rowsBehind } :
        Sheet).text := by
  obtain ⟨rules, found⟩ := getElem?_rows rowsEq
  generalize startEq : sheet.bodyStart + (rowsText rowsBefore).size = start at found
  have separator : ({} : Options).bareSeparator = ['&'] := by decide
  obtain ⟨others, filledEq⟩ : ∃ others, (row.filled sheet.columnCount start rules).cells
      = layCells (row.cellsStart start) before
        ++ (Entry.merged number specifier content).laid
          (row.cellsStart start + (frontText before).size + lead.size) :: others := by
    have filled := WrittenRow.cells_filled sheet.columnCount start rules row
    conv at filled => rhs; rw [cellsEq, layCells_append, layCells_cons]
    rw [List.append_assoc, List.cons_append] at filled
    exact ⟨_, filled⟩
  have width := (Entry.merged number specifier content).width_pos
  have isCell := @Row.cellAt?_of_over _ _ _ _ (before.map (·.entry.width)).sum filledEq
    (by rw [totalWidth_layCells]) (by rw [totalWidth_layCells, Entry.width_laid]; omega)
  have merged : (sheet.table.cellAt? rowsBefore.length (before.map (·.entry.width)).sum).bind
      (·.merge) = some ((Entry.mergeText number specifier content).place
        (row.cellsStart start + (frontText before).size + lead.size)) := by
    simp [Table.cellAt?, found, isCell, Entry.laid]
  rw [Plan.unmergeCells]
  simp only [Selection.single, merged, separator]
  refine apply_of_row rowsEq ?_
  rw [startEq]
  exact WrittenRow.rewrites_split cellsEq several start rfl

section Joined

variable {heading : Heading} (options : Options) {left right filler : Nat}
  {covered : List WrittenCell} (rowsEq : sheet.rows = rowsBefore ++ row :: rowsBehind)
  (covers : row.Covers heading.letters.length left right before covered filler behind)
  (plain : ∀ cell ∈ (row.outline heading.letters.length).cellsOver left right,
    cell.merge = none)

include rowsEq covers plain

omit rowsEq in
/-- Splitting a merged cell that was made of plain cells yields the sheet with these joined. -/
theorem apply_unmergeCells_merged (several : left < right) :
    Batch.apply (sheet.merged heading options rowsBefore rowsBehind row before covered filler
        behind).text
      (Plan.unmergeCells (sheet.merged heading options rowsBefore rowsBehind row before covered
        filler behind).table (.single rowsBefore.length left) {})
      = .ok ({ sheet with
          rows := rowsBefore
            ++ row.joined heading options before covered filler behind :: rowsBehind } :
        Sheet).text := by
  obtain ⟨leftEq, -, -⟩ := covers.columns_of_plain plain several.le
  have ofRow : (sheet.merged heading options rowsBefore rowsBehind row before covered filler
      behind).rows = rowsBefore
        ++ row.merged heading options before covered filler behind :: rowsBehind := rfl
  have split := apply_unmergeCells ofRow rfl (covers.two_le_columns plain several)
  rw [leftEq] at split
  exact split

/-- A sheet in which plain cells were merged and split again is read with them joined. -/
theorem readFrom_joined (regular : sheet.Regular heading) (several : left < right)
    (shown : ∀ cell ∈ ((row.outline heading.letters.length).cellsOver left right).head?,
      cell.content ≠ [])
    (detached : ∀ cell ∈ covered, cell.Detached) (rowsDetached : ∀ other ∈ sheet.rows,
      other.Detached) (limit : heading.letters.length < wordLimit) :
    ((sheet.outline heading).joinCells rowsBefore.length left right).ReadFrom
      ({ sheet with
          rows := rowsBefore
            ++ row.joined heading options before covered filler behind :: rowsBehind } :
        Sheet).text := by
  have ofRow : row ∈ sheet.rows := by simp [rowsEq]
  have wellFormed := covers.wellFormed_joined plain heading options several shown detached
    (regular.wellFormed.rows row ofRow) limit
  have stillDetached := detached_with_row rowsEq rowsDetached
    (covers.detached_joined plain heading options several.le shown detached
      (rowsDetached row ofRow))
  have stillRegular := regular.with_row rowsEq wellFormed (by
    rw [covers.width_joined plain heading options several]
    exact covers.fits)
  have read := stillRegular.readFrom (guarded_of_detached stillRegular.wellFormed stillDetached)
  rwa [outline_with_row rowsEq (covers.outline_joined plain heading options several)] at read

end Joined

end Sheet

end LatexTabular
