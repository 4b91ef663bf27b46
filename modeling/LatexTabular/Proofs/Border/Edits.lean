import LatexTabular.Proofs.Border.Theme
import Mathlib.Data.List.Perm.Basic

/-!
# Edits of a theme

A theme plans edits of the specifier, of each row and of what stands behind the last one
(`Plan.setBorders_perm`).  Those of a row give the row the borders of the theme, and together
they turn an open sheet into the one with these borders (`OpenSheet.apply_setBorders`).
-/

namespace LatexTabular

open Text

namespace Plan

variable {table : Table} {theme : BorderTheme}

/-- The revision of the specifier of a cell, if it is merged. -/
def respecify (table : Table) (theme : BorderTheme) (cell : Cell) : List Edit :=
  cell.merge.toList.flatMap fun merge => Edit.revision merge.specifier
    (table.slice merge.specifier) (theme.rewrite (table.slice merge.specifier))

/-- What a theme plans for the rules of a row, or in front of it. -/
def rowRules (theme : BorderTheme) (row : Row) : List Edit :=
  match theme with
  | .noBorders => row.rules.map Edit.deletion
  | .fullyBordered => leadingRule {} row

/-- What it plans behind the last row. -/
def endRules (theme : BorderTheme) (row : Row) : List Edit :=
  match theme with
  | .noBorders => []
  | .fullyBordered => trailingRule {} row

/-- What a theme plans for a row. -/
def rowEdits (table : Table) (theme : BorderTheme) (row : Row) : List Edit :=
  rowRules theme row ++ row.cells.flatMap (respecify table theme)

theorem flatMap_merges (table : Table) (revise : Merge → List Edit) :
    table.merges.flatMap revise = table.rows.flatMap fun row =>
      row.cells.flatMap fun cell => cell.merge.toList.flatMap revise := by
  rw [Table.merges, List.flatMap_assoc]
  refine List.flatMap_congr fun row _ => ?_
  rw [List.filterMap_eq_flatMap_toList, List.flatMap_assoc]

/-- A theme plans for the specifier and for each row, and behind the last one. -/
theorem setBorders_perm {rows : List Row} {last : Row} (rowsEq : table.rows = rows ++ [last])
    (theme : BorderTheme) :
    (setBorders table theme {}).Perm (Edit.revision table.specifierSpan table.specifier
        (theme.rewrite table.specifier) ++ (rows.flatMap (rowEdits table theme)
          ++ (rowEdits table theme last ++ endRules theme last))) := by
  have horizontal : (setBorders table theme {}) = Edit.revision table.specifierSpan
      table.specifier (theme.rewrite table.specifier)
        ++ (rows.flatMap (rowRules theme) ++ (rowRules theme last ++ endRules theme last))
        ++ (table.rows.flatMap fun row => row.cells.flatMap (respecify table theme)) := by
    rw [show (fun row : Row => row.cells.flatMap (respecify table theme))
      = fun row => row.cells.flatMap fun cell => cell.merge.toList.flatMap fun merge =>
        Edit.revision merge.specifier (table.slice merge.specifier)
          (theme.rewrite (table.slice merge.specifier)) from rfl, ← flatMap_merges]
    cases theme with
    | noBorders =>
        have rules : table.rows.flatMap (fun row => row.rules.map Edit.deletion)
            = rows.flatMap (rowRules .noBorders) ++ (rowRules .noBorders last ++ []) := by
          rw [rowsEq, List.flatMap_append, List.flatMap_singleton, List.append_nil]
          rfl
        exact congrArg (fun rules => _ ++ rules ++ _) rules
    | fullyBordered =>
        have rules : rulesForRows {} table.rows
            = rows.flatMap (rowRules .fullyBordered)
              ++ (rowRules .fullyBordered last ++ endRules .fullyBordered last) := by
          rw [rowsEq]
          exact rulesForRows_concat {} rows last
        exact congrArg (fun rules => _ ++ rules ++ _) rules
  have each : (rows.flatMap (rowRules theme)
      ++ rows.flatMap fun row => row.cells.flatMap (respecify table theme)).Perm
        (rows.flatMap (rowEdits table theme)) := List.flatMap_append_perm rows _ _
  rw [horizontal, rowsEq, List.flatMap_append, List.flatMap_singleton]
  refine List.perm_iff_count.mpr fun edit => ?_
  have counts := each.count_eq edit
  simp only [List.count_append, rowEdits] at counts ⊢
  omega

theorem respecify_blank (offset : Nat) : respecify table theme (.blank offset) = [] := rfl

theorem leadingRule_eq (row : Row) : leadingRule {} row
    = if (table.frameRow row).leading = 0 then [.insertion row.span.start " \\hline ".toList]
      else [] := by
  split
  next none =>
    have noRule := List.countP_eq_zero.mp none
    simp only [leadingRule, List.any_eq_true]
    rw [if_neg]
    · rfl
    · rintro ⟨rule, member, reaches⟩
      exact noRule rule member reaches
  next some => exact leadingRule_eq_nil some

theorem trailingRule_eq (row : Row) : trailingRule {} row
    = if (table.frameRow row).trailing = 0 then
        [.insertion row.span.stop
          ((if row.terminator.isNone then " \\\\".toList else []) ++ " \\hline".toList)]
      else [] := by
  split
  next none =>
    have noRule := List.countP_eq_zero.mp none
    simp only [trailingRule, List.any_eq_true]
    rw [if_neg]
    · split <;> rfl
    · rintro ⟨rule, member, reaches⟩
      exact noRule rule member reaches
  next some => exact trailingRule_eq_nil some

end Plan

theorem BorderTheme.rewrite_nil (theme : BorderTheme) : theme.rewrite [] = [] := by
  cases theme <;> rfl

section Cells

variable {table : Table} {start : Nat}

theorem Entry.rewrites_respecified {entry : Entry} (theme : BorderTheme)
    (spells : Spells table.document ⟨start, start + entry.text.size⟩ entry.text) :
    Rewrites start entry.text (Plan.respecify table theme (entry.laid start))
      (entry.respecified theme.rewrite).text := by
  cases entry with
  | plain content => exact .refl _ _
  | merged number specifier content =>
      have slice : table.slice ⟨start + (headText number).size,
          start + (headText number).size + specifier.size⟩ = specifier :=
        (spells.middle (text_eq_headText number specifier content)).slice_eq
      have edits : Plan.respecify table theme ((merged number specifier content).laid start)
          = Edit.revision ⟨start + (headText number).size,
            start + (headText number).size + specifier.size⟩ specifier
              (theme.rewrite specifier) := by
        simp only [Plan.respecify, laid, Option.toList_some, List.flatMap_singleton,
          specifier_place, slice]
      rw [edits, respecified, text_eq_headText, text_eq_headText]
      exact .revision _ _ _ fun empty => by rw [empty, theme.rewrite_nil]

/-- The specifier of an entry stands behind its start. -/
theorem Entry.start_of_mem_respecify {entry : Entry} {theme : BorderTheme} {edit : Edit}
    (member : edit ∈ Plan.respecify table theme (entry.laid start)) :
    start < edit.span.start := by
  cases entry with
  | plain content => exact absurd member List.not_mem_nil
  | merged number specifier content =>
      have backslash : '\\'.utf8Size = 1 := by decide
      simp only [Plan.respecify, laid, Option.toList_some, List.flatMap_singleton,
        specifier_place, Edit.revision] at member
      split at member
      · exact absurd member List.not_mem_nil
      · rw [List.mem_singleton.mp member]
        simp only [headText, List.cons_append, Text.size_cons, backslash]
        omega

/-- A theme rewrites cells by revising their specifiers. -/
theorem rewrites_respecified {cells : List WrittenCell} (theme : BorderTheme)
    (spells : Spells table.document ⟨start, start + (cellsText cells).size⟩ (cellsText cells)) :
    Rewrites start (cellsText cells) ((layCells start cells).flatMap (Plan.respecify table theme))
      (cellsText (cells.map (WrittenCell.respecified theme.rewrite))) := by
  have ofCell {start : Nat} {cell : WrittenCell}
      (spells : Spells table.document ⟨start, start + cell.text.size⟩ cell.text) :
      Rewrites start cell.text
        (Plan.respecify table theme (cell.entry.laid (start + cell.before.size)))
        (cell.respecified theme.rewrite).text := by
    have parts : cell.text = cell.before ++ cell.entry.text ++ cell.after := rfl
    have entry := Entry.rewrites_respecified theme (spells.middle parts)
    have whole := ((Rewrites.refl start cell.before).append entry).append
      (Rewrites.refl _ cell.after)
    rwa [List.nil_append, List.append_nil] at whole
  induction cells generalizing start with
  | nil => exact .refl _ _
  | cons cell rest ih =>
      cases rest with
      | nil => simpa [layCells, cellsText] using ofCell spells
      | cons next rest =>
          have separator : Text.size ['&'] = 1 := by decide
          obtain ⟨first, -, others⟩ := spells_cells_cons_cons spells
          have whole := ((ofCell first).append (Rewrites.refl _ ['&'])).append_of_eq
            (by rw [Text.size_append, separator, ← Nat.add_assoc]) (ih others)
          rw [layCells_cons_cons, List.flatMap_cons, List.map_cons, List.map_cons,
            cellsText_cons_cons, cellsText_cons_cons]
          simpa using whole

theorem start_of_mem_respecify {cells : List WrittenCell} {theme : BorderTheme} {edit : Edit}
    (member : edit ∈ (layCells start cells).flatMap (Plan.respecify table theme)) :
    start < edit.span.start := by
  induction cells generalizing start with
  | nil => exact absurd member List.not_mem_nil
  | cons cell rest ih =>
      rw [layCells, List.flatMap_cons] at member
      rcases List.mem_append.mp member with inFirst | inRest
      · have := Entry.start_of_mem_respecify inFirst
        omega
      · have := ih inRest
        omega

/-- Rules that go leave the white space in front of them. -/
theorem rewrites_rulesText (start : Nat) (gaps : List Text) :
    Rewrites start (rulesText gaps) ((layRules start gaps).map Edit.deletion) gaps.flatten := by
  have size : Text.size "\\hline".toList = 6 := by decide
  induction gaps generalizing start with
  | nil => exact .refl _ _
  | cons gap rest ih =>
      have rule := @Rewrites.deletion (start + gap.size) "\\hline".toList (by decide)
      rw [size] at rule
      have whole := ((Rewrites.refl start gap).append rule).append_of_eq
        (by rw [Text.size_append, size, ← Nat.add_assoc]) (ih (start + gap.size + 6))
      simpa [rulesText_cons, layRules] using whole

end Cells

namespace Plan

/-- Blank cells that fill up a row have no specifier. -/
theorem flatMap_respecify_padded (table : Table) (theme : BorderTheme) (columnCount : Nat)
    (row : Row) : (row.padded columnCount).cells.flatMap (respecify table theme)
      = row.cells.flatMap (respecify table theme) := by
  have none (count offset : Nat) :
      (List.replicate count (Cell.blank offset)).flatMap (respecify table theme) = [] :=
    List.flatMap_eq_nil_iff.mpr fun cell member => by
      rw [List.eq_of_mem_replicate member, respecify_blank]
  simp only [Row.padded, List.flatMap_append, none, List.append_nil]

end Plan

namespace WrittenRow

variable {table : Table} {start : Nat} {row : WrittenRow}

/-- What a theme plans for the rules in front of the cells. -/
def frontEdits (theme : BorderTheme) (start : Nat) (row : WrittenRow) : List Edit :=
  match theme with
  | .noBorders => (layRules start row.ruleGaps).map Edit.deletion
  | .fullyBordered =>
      if row.ruleGaps = [] then [.insertion start " \\hline ".toList] else []

/-- A theme rewrites the rules in front of the cells and the cells, whatever it does to what
follows. -/
theorem rewrites_opened (theme : BorderTheme) {rest rest' : Text} {edits : Batch}
    (wellFormed : row.WellFormed)
    (spells : Spells table.document ⟨row.cellsStart start,
      row.cellsStart start + (cellsText row.cells).size⟩ (cellsText row.cells))
    (nonempty : row.opened ++ rest ≠ [])
    (behind : theme = .fullyBordered → ∀ edit ∈ edits, start < edit.span.start)
    (rewrites : Rewrites (start + row.opened.size) rest edits rest') :
    Rewrites start (row.opened ++ rest)
      (row.frontEdits theme start ++ (layCells (row.cellsStart start) row.cells).flatMap
        (Plan.respecify table theme) ++ edits)
      ((row.themed theme).opened ++ rest') := by
  have respecified := wellFormed.respecified theme
  have cells := rewrites_respecified theme spells
  cases theme with
  | noBorders =>
      have whole := ((rewrites_rulesText start row.ruleGaps).append cells).append rewrites
      have target : (row.themed .noBorders).opened = row.ruleGaps.flatten
          ++ cellsText (row.respecified BorderTheme.noBorders.rewrite).cells := by
        rw [themed, bare, regapped, opened,
          cellsText_indentedCells respecified.cells respecified.nonempty]
        rfl
      rw [target]
      exact whole
  | fullyBordered =>
      have kept := ((Rewrites.refl start (rulesText row.ruleGaps)).append cells).append rewrites
      by_cases none : row.ruleGaps = []
      · have target : (row.themed .fullyBordered).opened = " \\hline ".toList
            ++ cellsText (row.respecified BorderTheme.fullyBordered.rewrite).cells := by
          have noGaps : (row.respecified BorderTheme.fullyBordered.rewrite).ruleGaps = [] := none
          rw [themed, withLeading, if_pos noGaps, regapped, opened,
            cellsText_indentedCells respecified.cells respecified.nonempty, ← List.append_assoc]
          rfl
        have added := kept.insert_front " \\hline ".toList nonempty fun edit member => by
          refine Nat.lt_of_lt_of_le ?_ (kept.bounds edit member).2.1
          rcases List.mem_append.mp member with inCells | inRest
          · have := start_of_mem_respecify inCells
            rw [cellsStart] at this
            omega
          · exact behind rfl edit inRest
        have empty : rulesText row.ruleGaps = [] := by
          rw [none]
          rfl
        rw [target, frontEdits, if_pos none, opened, empty]
        rw [empty] at added
        exact added
      · have noGaps : (row.respecified BorderTheme.fullyBordered.rewrite).ruleGaps ≠ [] := none
        rw [frontEdits, if_neg none, themed, withLeading, if_neg noGaps]
        exact kept

/-- A theme rewrites a terminated row. -/
theorem rewrites_themed (theme : BorderTheme) (wellFormed : row.WellFormed)
    (detached : row.Detached) (columnCount : Nat)
    (spells : Spells table.document ⟨start, start + row.text.size⟩ row.text) :
    Rewrites start row.text (Plan.rowEdits table theme ((row.laid start).padded columnCount))
      (row.themed theme).text := by
  have parts : row.text = rulesText row.ruleGaps ++ cellsText row.cells ++ "\\\\".toList := rfl
  have framed := frameRow_laid wellFormed detached columnCount spells
  have rules : Plan.rowRules theme ((row.laid start).padded columnCount)
      = row.frontEdits theme start := by
    cases theme with
    | noBorders => rfl
    | fullyBordered =>
        rw [Plan.rowRules, @Plan.leadingRule_eq table, framed]
        simp only [frame, List.length_eq_zero_iff]
        rfl
  have nonempty : row.opened ++ "\\\\".toList ≠ [] := by simp
  have whole := rewrites_opened theme wellFormed (spells.middle parts) nonempty
    (fun _ edit member => absurd member List.not_mem_nil) (.refl _ "\\\\".toList)
  rw [List.append_nil] at whole
  rw [Plan.rowEdits, rules, Plan.flatMap_respecify_padded]
  exact whole

end WrittenRow

namespace Ending

variable {table : Table} {start : Nat} {ending : Ending} {theme : BorderTheme}

/-- What stands behind the cells of an ending. -/
def tail (ending : Ending) : Text :=
  rulesText ending.gaps ++ (ending.gap ++ ending.closingText)

theorem text_eq_append (ending : Ending) : ending.text = ending.row.opened ++ ending.tail := rfl

theorem rewrites_tail_bare (start : Nat) (ending : Ending) :
    Rewrites (ending.rulesStart start) ending.tail
      ((layRules (ending.rulesStart start) ending.gaps ++ ending.closingRules start).map
        Edit.deletion) ending.bare.tail := by
  have closing : Rewrites (ending.rulesStop start + ending.gap.size) ending.closingText
      ((ending.closingRules start).map Edit.deletion) ending.bare.closingText := by
    simp only [closingText, closingRules, bare]
    cases ending.closing with
    | none => exact .refl _ _
    | some closing =>
        have size : Text.size "\\\\".toList = 2 := by decide
        have rules := (rewrites_rulesText (ending.terminatorStop start) closing.gaps).append
          (Rewrites.refl _ closing.gap)
        have whole := (Rewrites.refl (ending.rulesStop start + ending.gap.size)
          "\\\\".toList).append_of_eq (by rw [size, terminatorStop]) rules
        rw [List.append_nil] at whole
        exact whole
  have source : ending.tail = rulesText ending.gaps ++ ending.gap ++ ending.closingText :=
    (List.append_assoc _ _ _).symm
  have whole := ((rewrites_rulesText (ending.rulesStart start) ending.gaps).append
    (Rewrites.refl _ ending.gap)).append_of_eq
      (by rw [Text.size_append, ← Nat.add_assoc, rulesStop]) closing
  rw [List.append_nil, ← List.map_append] at whole
  rw [source]
  exact whole

/-- Where a new rule stands behind an ending without one. -/
def trailingStop (start : Nat) (ending : Ending) : Nat :=
  if ending.closing.isNone then ending.rulesStop start else ending.terminatorStop start

/-- What the theme with all borders plans for the rules behind the cells. -/
def trailingEdits (start : Nat) (ending : Ending) : List Edit :=
  if ending.trailing = 0 then
    [.insertion (ending.trailingStop start)
      ((if ending.closing.isNone then " \\\\".toList else []) ++ " \\hline".toList)]
  else []

/-- The rule that a theme puts behind the last cell, in front of what stands there. -/
theorem rewrites_tail_withTrailing (start : Nat) (ending : Ending) {back : Text}
    (nonempty : back ≠ []) :
    Rewrites (ending.rulesStart start) (ending.tail ++ back) (ending.trailingEdits start)
      (ending.withTrailing.tail ++ back) := by
  by_cases untrailed : ending.trailing = 0
  · rw [trailingEdits, trailingStop, if_pos untrailed, withTrailing, if_pos untrailed]
    cases closed : ending.closing with
    | none =>
        have added := (Rewrite.insertion (ending.rulesStart start) (rulesText ending.gaps)
          " \\\\ \\hline".toList (List.append_ne_nil_of_right_ne_nil ending.gap nonempty)).rewrites
        have source : ending.tail ++ back = rulesText ending.gaps ++ (ending.gap ++ back) := by
          simp [tail, closingText, closed]
        have stop : ending.rulesStart start + (rulesText ending.gaps).size
            = ending.rulesStop start := rfl
        rw [stop] at added
        rw [source]
        simpa [tail, closingText, Closing.text, rulesText] using added
    | some closing =>
        have noRules : closing.gaps = [] := by
          have parts := untrailed
          rw [Ending.trailing, Nat.add_eq_zero_iff, closingCount, closed] at parts
          exact List.length_eq_zero_iff.mp parts.2
        have size : Text.size "\\\\".toList = 2 := by decide
        have added := (Rewrite.insertion (ending.rulesStart start)
          (rulesText ending.gaps ++ (ending.gap ++ "\\\\".toList)) " \\hline".toList
          (List.append_ne_nil_of_right_ne_nil closing.gap nonempty)).rewrites
        have source : ending.tail ++ back = rulesText ending.gaps ++ (ending.gap ++ "\\\\".toList)
            ++ (closing.gap ++ back) := by
          simp [tail, closingText, Closing.text, closed, noRules, rulesText]
        have stop : ending.rulesStart start
            + (rulesText ending.gaps ++ (ending.gap ++ "\\\\".toList)).size
              = ending.terminatorStop start := by
          simp only [Text.size_append, size, terminatorStop, rulesStop, Nat.add_assoc]
        rw [stop] at added
        rw [source]
        simpa [tail, closingText, Closing.text, rulesText] using added
  · rw [trailingEdits, if_neg untrailed, withTrailing, if_neg untrailed]
    exact .refl _ _

/-- A new rule stands where the row of an ending ends. -/
theorem stop_laid (wellFormed : ending.WellFormed) (untrailed : ending.trailing = 0) :
    (ending.laid start).span.stop = ending.trailingStop start := by
  rw [trailingStop]
  obtain ⟨last, isLast, -, -, -, -, stop⟩ := @exists_getLast?_laid start _ wellFormed
  cases closed : ending.closing with
  | some closing =>
      simp only [laid, closed]
      rfl
  | none =>
      have span : (ending.laid start).span.stop
          = ((ending.laid start).cells.getLast?.map (·.extent.stop)).getD start := by
        simp only [laid, closed]
      have inFront : (if ending.row.EndsBlank then 0 else ending.gaps.length) = 0 :=
        (Nat.add_eq_zero_iff.mp untrailed).1
      have lastStop := stop closed
      dsimp only [Option.isNone_none]
      rw [span, isLast, Option.map_some, Option.getD_some, lastStop, if_pos rfl]
      split at inFront
      next blank => rw [if_pos blank]
      next filled =>
        rw [if_neg filled, rulesStop, List.length_eq_zero_iff.mp inFront]
        rfl

/-- Something stands in a row without a terminator. -/
theorem opened_ne_nil (wellFormed : ending.WellFormed) (unclosed : ending.closing = none) :
    ending.row.opened ≠ [] := by
  have fills := wellFormed.fills (Or.inl unclosed)
  have nonempty := wellFormed.row.nonempty
  intro empty
  obtain ⟨-, noCells⟩ := List.append_eq_nil_iff.mp empty
  cases cellsEq : ending.row.cells with
  | nil => exact nonempty cellsEq
  | cons cell rest =>
      rw [cellsEq] at fills noCells
      cases rest with
      | cons next rest =>
          rw [cellsText_cons_cons] at noCells
          exact List.cons_ne_nil _ _ (List.append_eq_nil_iff.mp noCells).2
      | nil =>
          have noText : cell.entry.text = [] := by
            rw [cellsText, WrittenCell.text] at noCells
            exact (List.append_eq_nil_iff.mp (List.append_eq_nil_iff.mp noCells).1).2
          exact fills (by simp [noText])

/-- A new rule stands behind the front of an ending. -/
theorem start_lt_of_mem_trailingEdits (wellFormed : ending.WellFormed) {edit : Edit}
    (member : edit ∈ ending.trailingEdits start) : start < edit.span.start := by
  unfold trailingEdits at member
  split at member
  next =>
    rw [List.mem_singleton.mp member]
    change start < ending.trailingStop start
    rw [trailingStop]
    cases closed : ending.closing with
    | none =>
        have filled := Text.size_pos_of_ne_nil (opened_ne_nil wellFormed closed)
        simp only [Option.isNone_none, if_true, rulesStop, rulesStart]
        omega
    | some closing =>
        simp only [Option.isNone_some, Bool.false_eq_true, if_false, terminatorStop, rulesStop,
          rulesStart]
        omega
  next => exact absurd member List.not_mem_nil

/-- A theme revises the specifiers of an ending as those of other rows. -/
theorem flatMap_respecify_laid (theme : BorderTheme) (start columnCount : Nat) (ending : Ending) :
    ((ending.laid start).padded columnCount).cells.flatMap (Plan.respecify table theme)
      = (layCells (ending.row.cellsStart start) ending.row.cells).flatMap
        (Plan.respecify table theme) := by
  have moved := @map_layCellsTo _ (Plan.respecify table theme) (fun _ _ => rfl)
    (ending.anchor? start) (ending.row.cellsStart start) ending.row.cells
  rw [Plan.flatMap_respecify_padded, List.flatMap_def, List.flatMap_def, ← moved]
  rfl

section FullyBordered

variable (wellFormed : ending.WellFormed) (columnCount : Nat)
  (spells : Spells table.document ⟨start, start + ending.text.size⟩ ending.text)

include wellFormed spells

theorem rowRules_fullyBordered :
    Plan.rowRules .fullyBordered ((ending.laid start).padded columnCount)
      = ending.row.frontEdits .fullyBordered start := by
  rw [Plan.rowRules, @Plan.leadingRule_eq table, frameRow_laid wellFormed columnCount spells]
  simp only [frame, WrittenRow.frame, List.length_eq_zero_iff]
  rfl

theorem endRules_fullyBordered :
    Plan.endRules .fullyBordered ((ending.laid start).padded columnCount)
      = ending.trailingEdits start := by
  have isNone : ((ending.laid start).padded columnCount).terminator.isNone
      = ending.closing.isNone := Option.isNone_map
  have stop : ((ending.laid start).padded columnCount).span.stop
      = (ending.laid start).span.stop := rfl
  rw [Plan.endRules, @Plan.trailingRule_eq table, frameRow_laid wellFormed columnCount spells,
    isNone, stop, trailingEdits]
  by_cases untrailed : ending.trailing = 0
  · rw [if_pos untrailed, stop_laid wellFormed untrailed]
    exact if_pos untrailed
  · rw [if_neg untrailed]
    exact if_neg untrailed

end FullyBordered

/-- A theme rewrites an ending, in front of what stands behind the body. -/
theorem rewrites_themed (wellFormed : ending.WellFormed) (columnCount : Nat) {back : Text}
    (nonempty : back ≠ [])
    (spells : Spells table.document ⟨start, start + ending.text.size⟩ ending.text) :
    Rewrites start (ending.text ++ back)
      (Plan.rowEdits table theme ((ending.laid start).padded columnCount)
        ++ Plan.endRules theme ((ending.laid start).padded columnCount))
      ((ending.themed theme).text ++ back) := by
  have parts : ending.text = rulesText ending.row.ruleGaps ++ cellsText ending.row.cells
      ++ ending.tail := rfl
  have behind : ending.row.opened ++ (ending.tail ++ back) ≠ [] :=
    List.append_ne_nil_of_right_ne_nil _ (List.append_ne_nil_of_right_ne_nil _ nonempty)
  rw [text_eq_append, text_eq_append, List.append_assoc, List.append_assoc, Plan.rowEdits,
    flatMap_respecify_laid]
  cases theme with
  | noBorders =>
      have tail := (ending.rewrites_tail_bare start).append (Rewrites.refl _ back)
      rw [List.append_nil] at tail
      have whole := WrittenRow.rewrites_opened .noBorders wellFormed.row
        (spells.middle parts) behind (fun full => by cases full) tail
      have rules : Plan.rowRules .noBorders ((ending.laid start).padded columnCount)
          = ending.row.frontEdits .noBorders start
            ++ (layRules (ending.rulesStart start) ending.gaps
              ++ ending.closingRules start).map Edit.deletion := List.map_append
      have none : Plan.endRules .noBorders ((ending.laid start).padded columnCount) = [] := rfl
      rw [rules, none, List.append_nil, List.append_assoc]
      refine whole.perm ?_
      rw [List.append_assoc]
      exact List.perm_append_comm.append_left _
  | fullyBordered =>
      have tail := ending.rewrites_tail_withTrailing start nonempty
      have target : (ending.themed .fullyBordered).tail = ending.withTrailing.tail := by
        rw [themed_fullyBordered wellFormed]
        rfl
      have row : (ending.themed .fullyBordered).row = ending.row.themed .fullyBordered := by
        rw [themed_fullyBordered wellFormed]
      rw [rowRules_fullyBordered wellFormed columnCount spells,
        endRules_fullyBordered wellFormed columnCount spells, target, row]
      exact WrittenRow.rewrites_opened .fullyBordered wellFormed.row (spells.middle parts) behind
        (fun _ edit member => start_lt_of_mem_trailingEdits wellFormed member) tail

end Ending

/-- A theme rewrites the rows in front of the last one. -/
theorem rewrites_rowsText_themed {table : Table} {start : Nat} {rows : List WrittenRow}
    (theme : BorderTheme) (wellFormed : ∀ row ∈ rows, row.WellFormed)
    (detached : ∀ row ∈ rows, row.Detached) (columnCount : Nat)
    (spells : Spells table.document ⟨start, start + (Sheet.rowsText rows).size⟩
      (Sheet.rowsText rows)) :
    Rewrites start (Sheet.rowsText rows)
      (((layRows start [] rows).map (Row.padded columnCount)).flatMap (Plan.rowEdits table theme))
      (Sheet.rowsText (rows.map (WrittenRow.themed theme))) := by
  induction rows generalizing start with
  | nil => exact .refl _ _
  | cons row rest ih =>
      rw [Sheet.rowsText_cons] at spells
      have ofFirst := WrittenRow.rewrites_themed theme (wellFormed row List.mem_cons_self)
        (detached row List.mem_cons_self) columnCount spells.front
      have others := @ih (start + row.text.size)
        (fun other member => wellFormed other (List.mem_cons_of_mem _ member))
        (fun other member => detached other (List.mem_cons_of_mem _ member)) spells.back
      rw [layRows_nil_cons, List.map_cons, List.flatMap_cons]
      exact ofFirst.append others

namespace OpenSheet

variable {sheet : OpenSheet}

theorem rewrites_themed (wellFormed : sheet.WellFormed) (theme : BorderTheme) :
    Rewrites 0 sheet.text (Plan.setBorders sheet.table theme {}) (sheet.themed theme).text := by
  have spells : Spells sheet.text _ (Sheet.rowsText sheet.rows ++ sheet.ending.text) :=
    sheet.spells_body
  have closed : Text.size ['}'] = 1 := by decide
  have back : Sheet.closing ++ sheet.trail ≠ [] := List.cons_ne_nil _ _
  have rows := @rewrites_rowsText_themed sheet.table sheet.bodyStart _ theme wellFormed.rows
    wellFormed.detached sheet.unread.columnCount spells.front
  have ending := @Ending.rewrites_themed sheet.table sheet.endingStart _ theme wellFormed.ending
    sheet.unread.columnCount _ back spells.back
  have specifier : sheet.table.specifier = sheet.specifier := sheet.unread.specifier_table
  have heading := @Rewrites.revision 0 sheet.unread.front ['}'] sheet.specifier
    (theme.rewrite sheet.specifier) fun empty => by rw [empty, theme.rewrite_nil]
  have bodyStart : 0 + (sheet.unread.front ++ sheet.specifier ++ ['}']).size = sheet.bodyStart := by
    simp only [Text.size_append, closed, Nat.zero_add]
    rfl
  have specifierSpan : sheet.table.specifierSpan = ⟨0 + sheet.unread.front.size,
      0 + sheet.unread.front.size + sheet.specifier.size⟩ := by
    rw [Nat.zero_add]
    rfl
  have whole := heading.append_of_eq bodyStart (rows.append ending)
  have source (sheet : OpenSheet) : sheet.text = sheet.unread.front ++ sheet.specifier ++ ['}']
      ++ (Sheet.rowsText sheet.rows ++ (sheet.ending.text ++ (Sheet.closing ++ sheet.trail))) := by
    rw [text_eq]
    simp [Sheet.front, unread, body]
  have planned : sheet.table.rows
      = (layRows sheet.bodyStart [] sheet.rows).map (Row.padded sheet.unread.columnCount)
        ++ [(sheet.ending.laid sheet.endingStart).padded sheet.unread.columnCount] :=
    List.map_append
  have same := Plan.setBorders_perm planned theme
  rw [specifier, specifierSpan] at same
  rw [source, source]
  exact whole.perm same

/-- Setting the borders of a theme turns an open sheet into the one with these borders. -/
theorem apply_setBorders (wellFormed : sheet.WellFormed) (theme : BorderTheme) :
    Batch.apply sheet.text (Plan.setBorders sheet.table theme {}) = .ok (sheet.themed theme).text :=
  (rewrites_themed wellFormed theme).apply_eq

end OpenSheet

end LatexTabular
