import LatexTabular.Proofs.Border.Edits
import LatexTabular.Command.Apply

/-!
# Chains of themes

Setting the borders of a theme succeeds on an open sheet and makes an open sheet again
(`OpenSheet.apply_themed`), so themes can be set one after another
(`OpenSheet.setThemes_eq`).  What the cells say stays, and the borders are those of the last
theme (`OpenSheet.hasBorders_themed`).
-/

namespace LatexTabular

open Text

namespace Frame

/-- Whether a frame has the rules of a theme: none, or one in front of each row and one behind
the last. -/
def HasRules (frame : Frame) : BorderTheme → Prop
  | .noBorders => '|' ∉ frame.specifier ∧ ∀ row ∈ frame.rows, row.rules = 0
  | .fullyBordered => (∀ row ∈ frame.rows, row.leading ≠ 0) ∧
      ∀ row ∈ frame.rows.getLast?, row.trailing ≠ 0

theorem IsBarred.hasRules_withTheme {frame : Frame} (barred : frame.IsBarred)
    (theme : BorderTheme) : (frame.withTheme theme).HasRules theme := by
  cases theme with
  | noBorders =>
      refine ⟨Specifier.notMem_removeRules barred.specifier, fun row member => ?_⟩
      obtain ⟨other, -, rfl⟩ := List.mem_map.mp member
      rfl
  | fullyBordered =>
      simp only [HasRules, withTheme]
      generalize frame.rows.map (Row.respecified BorderTheme.fullyBordered.rewrite) = rows
      rcases List.eq_nil_or_concat rows with rfl | ⟨rest, last, rfl⟩
      · exact ⟨fun row member => absurd member List.not_mem_nil,
          fun row isLast => absurd isLast (Option.not_mem_none row)⟩
      · rw [List.concat_eq_append, ruled_concat]
        refine ⟨fun row member => ?_, fun row isLast => ?_⟩
        · rcases List.mem_append.mp member with inRest | isLast
          · obtain ⟨other, -, rfl⟩ := List.mem_map.mp inRest
            exact other.leading_withLeading
          · rw [List.mem_singleton.mp isLast, Row.leading_withTrailing]
            exact last.leading_withLeading
        · rw [List.getLast?_concat] at isLast
          rw [← Option.some.inj isLast]
          exact last.withLeading.trailing_withTrailing

/-- Whether a frame has one rule in front of each row, one behind the last and no others. -/
def HasSingleRules (frame : Frame) : Prop :=
  (∀ row ∈ frame.rows.dropLast, row.leading = 1 ∧ row.trailing = 0 ∧ row.rules = 1) ∧
    ∀ row ∈ frame.rows.getLast?, row.leading = 1 ∧ row.trailing = 1 ∧ row.rules = 2

/-- Rules are written once where there are none. -/
theorem hasSingleRules_withTheme (frame : Frame) :
    ((frame.withTheme .noBorders).withTheme .fullyBordered).HasSingleRules := by
  obtain ⟨rows, rowsEq⟩ : ∃ rows : List Row,
      (frame.withTheme .noBorders).rows.map (Row.respecified BorderTheme.fullyBordered.rewrite)
        = rows.map Row.bare := by
    simp only [withTheme, List.map_map]
    exact ⟨frame.rows.map ((Row.respecified BorderTheme.fullyBordered.rewrite)
      ∘ Row.respecified BorderTheme.noBorders.rewrite), by rw [List.map_map]; rfl⟩
  have ruledRows : ((frame.withTheme .noBorders).withTheme .fullyBordered).rows
      = ruled (rows.map Row.bare) := congrArg ruled rowsEq
  rw [HasSingleRules, ruledRows]
  rcases List.eq_nil_or_concat rows with rfl | ⟨rest, last, rfl⟩
  · exact ⟨fun row member => absurd member List.not_mem_nil,
      fun row isLast => absurd isLast (Option.not_mem_none row)⟩
  · rw [List.concat_eq_append, List.map_append, List.map_singleton, ruled_concat,
      List.dropLast_concat, List.getLast?_concat]
    refine ⟨fun row member => ?_, ?_⟩
    · obtain ⟨other, isOther, rfl⟩ := List.mem_map.mp member
      obtain ⟨bared, -, rfl⟩ := List.mem_map.mp isOther
      exact ⟨rfl, rfl, rfl⟩
    · rintro _ ⟨⟩
      exact ⟨rfl, rfl, rfl⟩

end Frame

namespace Table

/-- The contents of the cells and the columns they span, row by row. -/
def contents (table : Table) : List (List (Text × Nat)) :=
  table.rows.map fun row => row.cells.map fun cell => (cell.content, cell.width)

/-- The specifiers that stand in the cells. -/
def mergeSpecifiers (table : Table) : List Text :=
  table.merges.map fun merge => table.slice merge.specifier

theorem contents_eq (table : Table) : table.contents
    = (table.frame.rows.map (·.cells)).map (List.map fun cell => (cell.content, cell.width)) := by
  have width (cell : Cell) : (table.outlineCell cell).width = cell.width := by
    cases merged : cell.merge <;> simp [outlineCell, Outline.Cell.width, Cell.width, merged]
  have content (cell : Cell) : (table.outlineCell cell).content = cell.content := rfl
  simp [contents, frame, frameRow, width, content, Function.comp_def]

theorem mergeSpecifiers_eq (table : Table) : table.mergeSpecifiers
    = (table.frame.rows.map (·.cells)).flatMap
        (List.filterMap fun cell => cell.merge.map (·.specifier)) := by
  have specifier (cell : Cell) : (table.outlineCell cell).merge.map (·.specifier)
      = cell.merge.map fun merge => table.slice merge.specifier := by
    cases merged : cell.merge <;> simp [outlineCell, merged]
  simp [mergeSpecifiers, merges, frame, frameRow, List.map_flatMap, List.flatMap_map,
    List.map_filterMap, List.filterMap_map, specifier, Function.comp_def]

/-- A table that says the same in its cells as another one and has the borders of a theme. -/
structure HasBorders (theme : BorderTheme) (table table' : Table) : Prop where
  contents : table'.contents = table.contents
  specifier : table'.specifier = theme.rewrite table.specifier
  mergeSpecifiers : table'.mergeSpecifiers = table.mergeSpecifiers.map theme.rewrite
  /-- Rules are added only where one is missing, and a terminator only with the rule behind it. -/
  frame : table'.frame = table.frame.withTheme theme
  rules : table'.frame.HasRules theme
  /-- Nothing is left to do for the theme. -/
  settled : Plan.setBorders table' theme {} = []

theorem HasBorders.of_frame {table table' : Table} {theme : BorderTheme}
    (barred : table.frame.IsBarred) (framed : table'.frame = table.frame.withTheme theme) :
    HasBorders theme table table' := by
  have cells := Frame.map_cells_withTheme theme table.frame
  rw [← framed] at cells
  refine ⟨?_, congrArg Frame.specifier framed, ?_, framed, ?_, Plan.setBorders_eq_nil ?_⟩
  · have unchanged (cell : Outline.Cell) : ((cell.respecified theme.rewrite).content,
        (cell.respecified theme.rewrite).width) = (cell.content, cell.width) := by
      cases merged : cell.merge <;> simp [Outline.Cell.respecified, Outline.Cell.width, merged]
    rw [contents_eq, contents_eq, cells]
    simp [unchanged, Function.comp_def]
  · have rewritten (cell : Outline.Cell) :
        ((cell.respecified theme.rewrite).merge.map fun merge => merge.specifier)
          = (cell.merge.map fun merge => merge.specifier).map theme.rewrite := by
      cases merged : cell.merge <;> simp [Outline.Cell.respecified, merged]
    rw [mergeSpecifiers_eq, mergeSpecifiers_eq, cells]
    simp [List.flatMap_map, List.filterMap_map, List.map_flatMap, List.map_filterMap, rewritten,
      Function.comp_def]
  · rw [framed]
    exact barred.hasRules_withTheme theme
  · rw [framed]
    exact barred.withTheme_withTheme theme

end Table

/-- Set the borders of themes one after another, each time for the table around an offset. -/
def setThemes (offset : Nat) (document : Text) (themes : List BorderTheme) :
    Except EditError Text :=
  themes.foldlM (fun document theme =>
    (Command.apply (.setBorders theme) document offset none {}).map Applied.document) document

namespace OpenSheet

variable {sheet : OpenSheet}

theorem isBarred_frame (wellFormed : sheet.WellFormed) : sheet.frame.IsBarred := by
  have ofRow {row : WrittenRow} (rowWellFormed : row.WellFormed) (columnCount : Nat) :
      ∀ cell ∈ (row.frame columnCount).cells, ∀ merge ∈ cell.merge, merge.specifier.IsBarred := by
    intro cell isCell merge merged
    rcases List.mem_append.mp isCell with written | blank
    · obtain ⟨writtenCell, isWritten, rfl⟩ := List.mem_map.mp written
      have entry := (rowWellFormed.cells writtenCell isWritten).entry
      obtain ⟨before, entry | ⟨number, specifier, content⟩, after⟩ := writtenCell
      · exact absurd merged (Option.not_mem_none merge)
      · obtain rfl := Option.some.inj merged
        exact entry.2.2.2.1
    · rw [List.eq_of_mem_replicate blank] at merged
      exact absurd merged (Option.not_mem_none merge)
  refine ⟨wellFormed.specifier, fun row isRow => ?_⟩
  rcases List.mem_append.mp isRow with inFront | isLast
  · obtain ⟨written, isWritten, rfl⟩ := List.mem_map.mp inFront
    exact ofRow (wellFormed.rows written isWritten) _
  · rw [List.mem_singleton.mp isLast]
    exact ofRow wellFormed.ending.row _

theorem hasBorders_themed (wellFormed : sheet.WellFormed) (theme : BorderTheme) :
    sheet.table.HasBorders theme (sheet.themed theme).table := by
  refine .of_frame ?_ ?_
  · rw [frame_table wellFormed]
    exact isBarred_frame wellFormed
  · rw [frame_table wellFormed, frame_table (wellFormed.themed theme), frame_themed wellFormed]

/-- Setting the borders of a theme succeeds wherever in the tabular it is asked for. -/
theorem apply_themed (wellFormed : sheet.WellFormed) {offset : Nat}
    (begins : sheet.lead.size ≤ offset) (ends : offset + sheet.trail.size ≤ sheet.text.size)
    (selection : Option Selection) (theme : BorderTheme) :
    Command.apply (.setBorders theme) sheet.text offset selection {}
      = .ok ⟨(sheet.themed theme).text, Plan.setBorders sheet.table theme {}, none⟩ := by
  have read := readAt_text wellFormed begins ends
  have edited := apply_setBorders wellFormed theme
  have planned : ((Command.setBorders theme).plan sheet.table (selection.getD (.single 0 0)) {}).batch
      = Plan.setBorders sheet.table theme {} := rfl
  simp only [Command.apply, read, bind, Except.bind, Command.usesSelection, Bool.false_eq_true,
    if_false, planned, edited]
  rfl

theorem touches_start (sheet : OpenSheet) : sheet.lead.size + sheet.trail.size ≤ sheet.text.size := by
  rw [text_eq]
  simp only [Text.size_append]
  omega

theorem setThemes_cons (wellFormed : sheet.WellFormed) (theme : BorderTheme)
    (themes : List BorderTheme) : setThemes sheet.lead.size sheet.text (theme :: themes)
      = setThemes sheet.lead.size (sheet.themed theme).text themes := by
  have first := apply_themed wellFormed (Nat.le_refl _) sheet.touches_start none theme
  rw [setThemes, List.foldlM_cons, first]
  rfl

/-- Themes may be set one after another. -/
theorem setThemes_eq (wellFormed : sheet.WellFormed) (themes : List BorderTheme) :
    setThemes sheet.lead.size sheet.text themes
      = .ok (themes.foldl (fun sheet theme => sheet.themed theme) sheet).text := by
  induction themes generalizing sheet with
  | nil => rfl
  | cons theme rest ih =>
      rw [setThemes_cons wellFormed]
      exact ih (wellFormed.themed theme)

theorem WellFormed.foldl_themed (wellFormed : sheet.WellFormed) (themes : List BorderTheme) :
    (themes.foldl (fun sheet theme => sheet.themed theme) sheet).WellFormed := by
  induction themes generalizing sheet with
  | nil => exact wellFormed
  | cons theme rest ih => exact ih (wellFormed.themed theme)

/-- What the cells say stays over any chain of themes. -/
theorem contents_foldl_themed (wellFormed : sheet.WellFormed) (themes : List BorderTheme) :
    (themes.foldl (fun sheet theme => sheet.themed theme) sheet).table.contents
      = sheet.table.contents := by
  induction themes generalizing sheet with
  | nil => rfl
  | cons theme rest ih =>
      exact (ih (wellFormed.themed theme)).trans (hasBorders_themed wellFormed theme).contents

end OpenSheet

end LatexTabular
