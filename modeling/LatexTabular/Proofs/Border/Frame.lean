import LatexTabular.Proofs.Border.Specifier
import LatexTabular.Proofs.Outline.Basic

/-!
# Frames of tables

A frame is what a table says with its rules: the specifiers, and for each row its cells, the
number of rules in front of them and behind them, and whether it has a terminator.
`Frame.withTheme` gives a frame the borders of a theme.  That is a normal form
(`Frame.IsBarred.withTheme_withTheme`), and the planner has nothing to do for a table whose frame is in
it (`Plan.setBorders_eq_nil`).
-/

namespace LatexTabular

open Text

/-- What a theme makes of a specifier. -/
def BorderTheme.rewrite : BorderTheme → Text → Text
  | .noBorders => Specifier.removeRules
  | .fullyBordered => Specifier.addRules

/-- A merged cell with another specifier. -/
def Outline.Cell.respecified (rewrite : Text → Text) (cell : Outline.Cell) : Outline.Cell :=
  { cell with
    merge := cell.merge.map fun merge => { merge with specifier := rewrite merge.specifier } }

namespace Frame

/-- A row with its rules, but without its place. -/
structure Row where
  /-- The number of rules in front of the first cell. -/
  leading : Nat
  /-- The number of rules behind the last cell. -/
  trailing : Nat
  /-- The number of all rules, those within cells included. -/
  rules : Nat
  cells : List Outline.Cell
  /-- The number of separators between the written cells. -/
  separators : Nat
  terminated : Bool
  deriving DecidableEq, Repr

namespace Row

def respecified (rewrite : Text → Text) (row : Row) : Row :=
  { row with cells := row.cells.map (Outline.Cell.respecified rewrite) }

/-- A row without rules. -/
def bare (row : Row) : Row := { row with leading := 0, trailing := 0, rules := 0 }

/-- A row with a rule in front of its cells. -/
def withLeading (row : Row) : Row :=
  if row.leading = 0 then { row with leading := 1, rules := row.rules + 1 } else row

/-- A row with a rule behind its cells.  A new rule stands behind a terminator. -/
def withTrailing (row : Row) : Row :=
  if row.trailing = 0 then
    { row with trailing := 1, rules := row.rules + 1, terminated := true }
  else row

end Row

/-- A rule in front of every row and one behind the last. -/
def ruled : List Row → List Row
  | [] => []
  | [row] => [row.withLeading.withTrailing]
  | row :: rest => row.withLeading :: ruled rest

end Frame

/-- What a table says, with its rules. -/
structure Frame where
  specifier : Text
  rows : List Frame.Row
  deriving DecidableEq, Repr

namespace Frame

/-- A frame with the borders of a theme. -/
def withTheme (theme : BorderTheme) (frame : Frame) : Frame where
  specifier := theme.rewrite frame.specifier
  rows :=
    let rows := frame.rows.map (Row.respecified theme.rewrite)
    match theme with
    | .noBorders => rows.map Row.bare
    | .fullyBordered => ruled rows

/-- A frame whose specifiers consist of letters and bars. -/
structure IsBarred (frame : Frame) : Prop where
  specifier : frame.specifier.IsBarred
  merges : ∀ row ∈ frame.rows, ∀ cell ∈ row.cells, ∀ merge ∈ cell.merge, merge.specifier.IsBarred

end Frame

namespace Table

/-- A row of a table with its rules. -/
def frameRow (table : Table) (row : Row) : Frame.Row where
  leading := row.rules.countP
    (·.stop ≤ (row.cells.head?.map (·.extent.start)).getD row.span.stop)
  trailing := row.rules.countP
    ((row.cells.getLast?.map (·.extent.stop)).getD row.span.start ≤ ·.start)
  rules := row.rules.length
  cells := row.cells.map table.outlineCell
  separators := row.separators.length
  terminated := row.terminator.isSome

def frame (table : Table) : Frame := ⟨table.specifier, table.rows.map table.frameRow⟩

end Table

namespace BorderTheme

/-- A theme keeps specifiers of letters and bars. -/
theorem isBarred_rewrite (theme : BorderTheme) {text : Text} (barred : text.IsBarred) :
    (theme.rewrite text).IsBarred ∧
      (theme.rewrite text).countP isLetter = text.countP isLetter := by
  cases theme with
  | noBorders => exact Specifier.isBarred_removeRules barred
  | fullyBordered => exact Specifier.isBarred_addRules barred

theorem rewrite_rewrite (theme : BorderTheme) {text : Text} (barred : text.IsBarred) :
    theme.rewrite (theme.rewrite text) = theme.rewrite text := by
  cases theme with
  | noBorders => exact Specifier.removeRules_removeRules barred
  | fullyBordered => exact Specifier.addRules_addRules barred

end BorderTheme

namespace Frame

variable {rows : List Row} {row : Row}

theorem Row.respecified_withLeading (rewrite : Text → Text) (row : Row) :
    row.withLeading.respecified rewrite = (row.respecified rewrite).withLeading := by
  unfold withLeading respecified
  split <;> rfl

theorem Row.respecified_withTrailing (rewrite : Text → Text) (row : Row) :
    row.withTrailing.respecified rewrite = (row.respecified rewrite).withTrailing := by
  unfold withTrailing respecified
  split <;> rfl

theorem ruled_cons_cons (row next : Row) (rest : List Row) :
    ruled (row :: next :: rest) = row.withLeading :: ruled (next :: rest) := rfl

theorem ruled_concat (rows : List Row) (last : Row) :
    ruled (rows ++ [last]) = rows.map Row.withLeading ++ [last.withLeading.withTrailing] := by
  induction rows with
  | nil => rfl
  | cons row rest ih =>
      obtain ⟨next, others, restEq⟩ :=
        List.exists_cons_of_ne_nil (show rest ++ [last] ≠ [] by simp)
      rw [List.cons_append, restEq, ruled_cons_cons, ← restEq, ih, List.map_cons,
        List.cons_append]

theorem map_respecified_ruled (rewrite : Text → Text) (rows : List Row) :
    (ruled rows).map (Row.respecified rewrite) = ruled (rows.map (Row.respecified rewrite)) := by
  rcases List.eq_nil_or_concat rows with rfl | ⟨rest, last, rfl⟩
  · rfl
  · simp only [List.concat_eq_append, List.map_append, List.map_cons, List.map_nil, ruled_concat,
      List.map_map, Row.respecified_withTrailing, Row.respecified_withLeading, Function.comp_def]

theorem Row.leading_withLeading (row : Row) : row.withLeading.leading ≠ 0 := by
  unfold withLeading
  split
  · exact Nat.one_ne_zero
  · assumption

theorem Row.trailing_withTrailing (row : Row) : row.withTrailing.trailing ≠ 0 := by
  unfold withTrailing
  split
  · exact Nat.one_ne_zero
  · assumption

theorem Row.leading_withTrailing (row : Row) : row.withTrailing.leading = row.leading := by
  unfold withTrailing
  split <;> rfl

theorem Row.cells_withLeading (row : Row) : row.withLeading.cells = row.cells := by
  unfold withLeading
  split <;> rfl

theorem Row.cells_withTrailing (row : Row) : row.withTrailing.cells = row.cells := by
  unfold withTrailing
  split <;> rfl

/-- A theme changes nothing in the cells but the specifiers of merges. -/
theorem map_cells_withTheme (theme : BorderTheme) (frame : Frame) :
    (frame.withTheme theme).rows.map (·.cells)
      = frame.rows.map fun row => row.cells.map (Outline.Cell.respecified theme.rewrite) := by
  have ruled (rows : List Row) : (ruled rows).map (·.cells) = rows.map (·.cells) := by
    rcases List.eq_nil_or_concat rows with rfl | ⟨rest, last, rfl⟩
    · rfl
    · simp [ruled_concat, Row.cells_withLeading, Row.cells_withTrailing, Function.comp_def]
  cases theme with
  | noBorders => simp [withTheme, Row.bare, Row.respecified, Function.comp_def]
  | fullyBordered => simp [withTheme, ruled, Row.respecified, Function.comp_def]

/-- Rows that have their rules keep them. -/
theorem ruled_ruled (rows : List Row) : ruled (ruled rows) = ruled rows := by
  have settled {row : Row} (leads : row.leading ≠ 0) : row.withLeading = row := if_neg leads
  have closed {row : Row} (trails : row.trailing ≠ 0) : row.withTrailing = row := if_neg trails
  have leads (row : Row) : row.withLeading.withLeading = row.withLeading :=
    settled row.leading_withLeading
  rcases List.eq_nil_or_concat rows with rfl | ⟨rest, last, rfl⟩
  · rfl
  · have both : last.withLeading.withTrailing.leading ≠ 0 := by
      rw [Row.leading_withTrailing]
      exact last.leading_withLeading
    simp only [List.concat_eq_append, ruled_concat, List.map_map, Function.comp_def, leads,
      settled both, closed last.withLeading.trailing_withTrailing]

namespace IsBarred

variable {frame : Frame}

/-- Rewriting specifiers twice with a theme is rewriting them once. -/
theorem map_respecified (barred : frame.IsBarred) (theme : BorderTheme) :
    (frame.rows.map (Row.respecified theme.rewrite)).map (Row.respecified theme.rewrite)
      = frame.rows.map (Row.respecified theme.rewrite) := by
  rw [List.map_map]
  refine List.map_congr_left fun row isRow => ?_
  have cells : (row.cells.map (Outline.Cell.respecified theme.rewrite)).map
      (Outline.Cell.respecified theme.rewrite)
        = row.cells.map (Outline.Cell.respecified theme.rewrite) := by
    rw [List.map_map]
    refine List.map_congr_left fun cell isCell => ?_
    cases merged : cell.merge with
    | none => simp [Outline.Cell.respecified, merged]
    | some merge =>
        simp [Outline.Cell.respecified, merged,
          theme.rewrite_rewrite (barred.merges row isRow cell isCell merge merged)]
  simp only [Function.comp_apply, Row.respecified, cells]

/-- A frame that has the borders of a theme keeps them. -/
theorem withTheme_withTheme (barred : frame.IsBarred) (theme : BorderTheme) :
    (frame.withTheme theme).withTheme theme = frame.withTheme theme := by
  have specifier := theme.rewrite_rewrite barred.specifier
  have rows := barred.map_respecified theme
  cases theme with
  | noBorders =>
      have swap (rows : List Row) (rewrite : Text → Text) :
          (rows.map Row.bare).map (Row.respecified rewrite)
            = (rows.map (Row.respecified rewrite)).map Row.bare := by
        rw [List.map_map, List.map_map]
        rfl
      have twice (rows : List Row) : (rows.map Row.bare).map Row.bare = rows.map Row.bare := by
        rw [List.map_map]
        rfl
      simp only [withTheme, specifier, Frame.mk.injEq, true_and]
      rw [swap, rows, twice]
  | fullyBordered =>
      simp only [withTheme, specifier, map_respecified_ruled, rows, ruled_ruled]

end IsBarred

end Frame

namespace Plan

variable {table : Table} {options : Options}

theorem leadingRule_eq_nil {row : Row} (leads : (table.frameRow row).leading ≠ 0) :
    leadingRule options row = [] := by
  simp only [leadingRule, List.any_eq_true, ite_eq_left_iff]
  intro none
  exact absurd (List.countP_eq_zero.mpr fun rule member reaches =>
    none ⟨rule, member, reaches⟩) leads

theorem trailingRule_eq_nil {row : Row} (trails : (table.frameRow row).trailing ≠ 0) :
    trailingRule options row = [] := by
  simp only [trailingRule, List.any_eq_true, ite_eq_left_iff]
  intro none
  exact absurd (List.countP_eq_zero.mpr fun rule member reaches =>
    none ⟨rule, member, reaches⟩) trails

theorem rulesForRows_concat (options : Options) (rows : List Row) (last : Row) :
    rulesForRows options (rows ++ [last])
      = rows.flatMap (leadingRule options)
        ++ (leadingRule options last ++ trailingRule options last) := by
  induction rows with
  | nil => rfl
  | cons row rest ih =>
      obtain ⟨next, others, restEq⟩ :=
        List.exists_cons_of_ne_nil (show rest ++ [last] ≠ [] by simp)
      rw [restEq] at ih
      have first : rulesForRows options (row :: next :: others)
          = leadingRule options row ++ rulesForRows options (next :: others) := rfl
      rw [List.cons_append, restEq, first, ih, List.flatMap_cons, List.append_assoc]

/-- Rows that have their rules get none. -/
theorem rulesForRows_eq_nil {rows : List Row}
    (normal : Frame.ruled (rows.map table.frameRow) = rows.map table.frameRow) :
    rulesForRows options rows = [] := by
  rcases List.eq_nil_or_concat rows with rfl | ⟨rest, last, rfl⟩
  · rfl
  · simp only [List.concat_eq_append, List.map_append, List.map_cons, List.map_nil,
      Frame.ruled_concat] at normal ⊢
    obtain ⟨others, ofLast⟩ := List.append_inj' normal rfl
    have lastEq := (List.cons.inj ofLast).1
    have leading : rest.flatMap (leadingRule options) = [] := by
      refine List.flatMap_eq_nil_iff.mpr fun row isRow => @leadingRule_eq_nil table _ _ ?_
      rw [List.map_map] at others
      have same : (table.frameRow row).withLeading = table.frameRow row :=
        List.map_inj_left.mp others row isRow
      rw [← same]
      exact (table.frameRow row).leading_withLeading
    have leads : (table.frameRow last).leading ≠ 0 := by
      rw [← lastEq, Frame.Row.leading_withTrailing]
      exact (table.frameRow last).leading_withLeading
    have trails : (table.frameRow last).trailing ≠ 0 := by
      rw [← lastEq]
      exact (table.frameRow last).withLeading.trailing_withTrailing
    rw [rulesForRows_concat, leading, leadingRule_eq_nil leads, trailingRule_eq_nil trails]
    rfl

theorem revision_eq_nil {span : Span} {current updated : Text} (same : updated = current) :
    Edit.revision span current updated = [] := if_pos same.symm

/-- The specifiers of the merges of a table stand in its frame. -/
theorem exists_of_mem_merges {merge : Merge} (member : merge ∈ table.merges) :
    ∃ row ∈ table.frame.rows, ∃ cell ∈ row.cells,
      cell.merge = some ⟨merge.columns, table.slice merge.specifier⟩ := by
  obtain ⟨row, isRow, inRow⟩ := List.mem_flatMap.mp member
  obtain ⟨cell, isCell, merged⟩ := List.mem_filterMap.mp inRow
  refine ⟨_, List.mem_map_of_mem isRow, _, List.mem_map_of_mem isCell, ?_⟩
  simp [Table.outlineCell, merged]

/-- Nothing is planned for a table that has the borders of a theme. -/
theorem setBorders_eq_nil {theme : BorderTheme}
    (normal : table.frame.withTheme theme = table.frame) :
    setBorders table theme options = [] := by
  have cells := Frame.map_cells_withTheme theme table.frame
  have specifier : theme.rewrite table.specifier = table.specifier :=
    congrArg Frame.specifier normal
  have rows : (table.frame.withTheme theme).rows = table.frame.rows := congrArg Frame.rows normal
  have merges : (table.merges.flatMap fun merge => Edit.revision merge.specifier
      (table.slice merge.specifier) (theme.rewrite (table.slice merge.specifier))) = [] := by
    refine List.flatMap_eq_nil_iff.mpr fun merge member => revision_eq_nil ?_
    obtain ⟨row, isRow, cell, isCell, merged⟩ := exists_of_mem_merges member
    rw [normal] at cells
    have rowCells : row.cells = row.cells.map (Outline.Cell.respecified theme.rewrite) :=
      List.map_inj_left.mp cells row isRow
    have cellEq : cell = cell.respecified theme.rewrite :=
      List.map_inj_left.mp ((List.map_id row.cells).trans rowCells) cell isCell
    have mergeEq := congrArg Outline.Cell.merge cellEq
    rw [Outline.Cell.respecified, merged, Option.map_some] at mergeEq
    exact (congrArg Outline.Merge.specifier (Option.some.inj mergeEq)).symm
  have ofSpecifier : Edit.revision table.specifierSpan (table.slice table.specifierSpan)
      (theme.rewrite (table.slice table.specifierSpan)) = [] := revision_eq_nil specifier
  cases theme with
  | noBorders =>
      have rules : (table.rows.flatMap fun row => row.rules.map Edit.deletion) = [] := by
        refine List.flatMap_eq_nil_iff.mpr fun row isRow => ?_
        have none : (table.frameRow row).rules = 0 := by
          have isFrame : table.frameRow row ∈ table.frame.rows := List.mem_map_of_mem isRow
          rw [← rows] at isFrame
          obtain ⟨other, -, otherEq⟩ := List.mem_map.mp isFrame
          rw [← otherEq]
          rfl
        rw [List.length_eq_zero_iff.mp none, List.map_nil]
      simp only [setBorders, rules, List.append_nil]
      exact List.append_eq_nil_iff.mpr ⟨ofSpecifier, merges⟩
  | fullyBordered =>
      have ruled : Frame.ruled table.frame.rows = table.frame.rows := by
        rw [← rows]
        exact Frame.ruled_ruled _
      simp only [setBorders, rulesForRows_eq_nil ruled, List.append_nil]
      exact List.append_eq_nil_iff.mpr ⟨ofSpecifier, merges⟩

end Plan

end LatexTabular
