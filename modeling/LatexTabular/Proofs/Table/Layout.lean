import LatexTabular.Proofs.Body.Origin
import LatexTabular.Proofs.Table.Body

/-!
# The layout of a table that was read

A table of a document stands within its own tabular: first the column specifier,
then the rows one behind the other, and rules that stand apart from one another
and from all merges.  `exists_laidOut_of_ofTabular` says so for every tabular
that can be read, whatever its text.
-/

namespace LatexTabular

open Markup Body

/-- Where the parts of a table stand, whose body reaches from one offset to
another. -/
structure Table.LaidOut (table : Table) (bodyStart bodyStop : Nat) : Prop where
  tabular : ∃ text, table.document.Spells table.span text
  specifier : table.specifierSpan.Fits table.document
  start_lt_specifier : table.span.start < table.specifierSpan.start
  specifier_lt_body : table.specifierSpan.stop < bodyStart
  rows : RowsLaid table.document bodyStart table.rows bodyStop
  body_lt_stop : bodyStop < table.span.stop
  rule : ∀ rule ∈ table.rows.flatMap (·.rules),
    rule.Fits table.document ∧ bodyStart ≤ rule.start ∧ rule.stop ≤ bodyStop
  rules : (table.rows.flatMap (·.rules)).Pairwise fun first second =>
    first.stop ≤ second.start
  rule_merge : ∀ rule ∈ table.rows.flatMap (·.rules), ∀ merge ∈ table.merges,
    rule.stop ≤ merge.span.start ∨ merge.span.stop ≤ rule.start

theorem Row.LaidOut.padded {document : Text} {row : Row} (laidOut : row.LaidOut document)
    (columnCount : Nat) : (row.padded columnCount).LaidOut document := by
  obtain ⟨final, isLast⟩ : ∃ final, row.cells.getLast? = some final :=
    ⟨_, List.getLast?_eq_some_getLast laidOut.cells.ne_nil⟩
  refine ⟨laidOut.span, ?_, ?_⟩
  · simpa [Row.padded, isLast] using laidOut.cells.fill isLast _
  · intro terminator isTerminator cell isCell
    rcases List.mem_append.mp isCell with written | filling
    · exact laidOut.terminator terminator isTerminator cell written
    · rw [List.eq_of_mem_replicate filling, isLast]
      exact laidOut.terminator terminator isTerminator final (List.mem_of_mem_getLast? isLast)

theorem RowsLaid.map_padded {document : Text} {start stop : Nat} {rows : List Row}
    (laid : RowsLaid document start rows stop) (columnCount : Nat) :
    RowsLaid document start (rows.map (Row.padded columnCount)) stop := by
  induction laid with
  | nil ordered => exact .nil ordered
  | cons first others ih => exact .cons (first.padded columnCount) ih

theorem Row.rules_padded (columnCount : Nat) (rows : List Row) :
    (rows.map (Row.padded columnCount)).flatMap (·.rules) = rows.flatMap (·.rules) := by
  simp [List.flatMap_map, Row.padded]

/-- The blank cells that fill a row are not merged. -/
theorem Row.exists_cell_of_mem_merges_padded {columnCount : Nat} {row : Row} {merge : Merge}
    (member : merge ∈ (row.padded columnCount).cells.filterMap (·.merge)) :
    ∃ cell ∈ row.cells, cell.merge = some merge := by
  obtain ⟨cell, isCell, merged⟩ := List.mem_filterMap.mp member
  rcases List.mem_append.mp isCell with written | filling
  · exact ⟨cell, written, merged⟩
  · rw [List.eq_of_mem_replicate filling] at merged
    simp [Cell.blank] at merged

namespace Body

variable {document : Text} {start stop : Nat} {lexemes : List Lexeme}

/-- The rules and the merges of a body stand apart, as different lexemes do. -/
theorem rule_apart_merge (chain : Chain start lexemes stop)
    (sound : ∀ lexeme ∈ lexemes, lexeme.Sound document) {rule : Span} {merge : Merge}
    (isRule : rule ∈ (rulesOf lexemes).map Lexeme.span)
    (isMerge : ∃ lexeme ∈ lexemes, ∃ parts, lexeme.kind = .merge parts ∧
      merge = parts.place lexeme.start) :
    rule.stop ≤ merge.span.start ∨ merge.span.stop ≤ rule.start := by
  obtain ⟨ruleLexeme, member, rfl⟩ := List.mem_map.mp isRule
  obtain ⟨ruleIn, ruleKind⟩ := List.mem_filter.mp member
  obtain ⟨lexeme, mergeIn, parts, mergeKind, rfl⟩ := isMerge
  have different : ruleLexeme ≠ lexeme := by
    rintro rfl
    simp [mergeKind] at ruleKind
  have stopEq : lexeme.stop = (parts.place lexeme.start).span.stop := by
    rw [Lexeme.stop, (sound lexeme mergeIn).ofMerge parts mergeKind]
    simp only [MergeText.place, MergeText.text, Text.size_append, Nat.add_assoc]
    rfl
  rw [← stopEq]
  exact chain.apart ruleIn mergeIn different

end Body

namespace Table

/-- The rows of a table are laid out between its specifier and the end of its body. -/
theorem HasBody.laidOut {table : Table} {tabular : Environment} {lexemes : List Lexeme}
    (hasBody : table.HasBody tabular lexemes) :
    table.LaidOut (table.specifierSpan.stop + 1) tabular.closing.start := by
  have chain := hasBody.chain
  have isPart := rules_rowsOf_sublist (table.specifierSpan.stop + 1) lexemes
  have rulesEq : table.rows.flatMap (·.rules)
      = (rowsOf (table.specifierSpan.stop + 1) lexemes).flatMap (·.rules) := by
    rw [hasBody.rows, Row.rules_padded]
  refine ⟨hasBody.spells, hasBody.specifier, hasBody.start_lt_specifier, Nat.lt_succ_self _, ?_,
    hasBody.closing_lt_stop, ?_, ?_, ?_⟩
  · rw [hasBody.rows]
    exact (rowsLaid_rowsOf chain hasBody.sound hasBody.boundary).map_padded _
  · intro rule member
    rw [rulesEq] at member
    obtain ⟨lexeme, isRule, rfl⟩ := List.mem_map.mp (isPart.subset member)
    have inBody := (List.mem_filter.mp isRule).1
    exact ⟨(hasBody.sound lexeme inBody).fits, chain.bounds inBody⟩
  · rw [rulesEq]
    exact (List.Pairwise.map Lexeme.span (fun _ _ ordered => ordered)
      (chain.pairwise.filter _)).sublist isPart
  · intro rule isRule merge isMerge
    rw [rulesEq] at isRule
    rw [merges, hasBody.rows] at isMerge
    simp only [List.flatMap_map, List.mem_flatMap] at isMerge
    obtain ⟨row, isRow, member⟩ := isMerge
    obtain ⟨cell, isCell, merged⟩ := Row.exists_cell_of_mem_merges_padded member
    exact rule_apart_merge chain hasBody.sound (isPart.subset isRule)
      (((madeOf_rowsOf isRow).cells cell isCell).exists_lexeme_of_merge merged)

/-- Every tabular that can be read is laid out within its own span. -/
theorem exists_laidOut_of_ofTabular {document : Text} {tabular : Environment} {table : Table}
    (member : tabular ∈ environments document)
    (found : ofTabular document (environments document) tabular = .ok table) :
    table.document = document ∧ table.span = tabular.span ∧
      ∃ bodyStart bodyStop, table.LaidOut bodyStart bodyStop := by
  obtain ⟨documentEq, -, body, -, hasBody⟩ := exists_body_of_ofTabular member found
  exact ⟨documentEq, hasBody.span, _, _, hasBody.laidOut⟩

namespace LaidOut

variable {table : Table} {bodyStart bodyStop : Nat}

/-- A merge of a table is the merge of a cell of one of its rows, within that
row. -/
theorem exists_row_of_mem_merges (laidOut : table.LaidOut bodyStart bodyStop) {merge : Merge}
    (member : merge ∈ table.merges) :
    ∃ row ∈ table.rows, merge.Placed table.document ∧
      row.span.start ≤ merge.span.start ∧ merge.span.stop ≤ row.span.stop := by
  simp only [merges, List.mem_flatMap, List.mem_filterMap] at member
  obtain ⟨row, isRow, cell, isCell, merged⟩ := member
  obtain ⟨placed, begins, ends⟩ := ((laidOut.rows.of_mem isRow).1.cells).of_mem isCell
  obtain ⟨mergePlaced, sameStart, withinCell⟩ := placed.merge merge merged
  exact ⟨row, isRow, mergePlaced, by omega, by omega⟩

theorem of_mem_merges (laidOut : table.LaidOut bodyStart bodyStop) {merge : Merge}
    (member : merge ∈ table.merges) :
    merge.Placed table.document ∧ bodyStart ≤ merge.span.start ∧
      merge.span.stop ≤ bodyStop := by
  obtain ⟨row, isRow, placed, begins, ends⟩ := laidOut.exists_row_of_mem_merges member
  obtain ⟨-, rowBegins, rowEnds⟩ := laidOut.rows.of_mem isRow
  exact ⟨placed, by omega, by omega⟩

/-- The cells of a table follow one another. -/
theorem pairwise_cells (laidOut : table.LaidOut bodyStart bodyStop) :
    (table.rows.flatMap (·.cells)).Pairwise fun first second =>
      first.extent.stop ≤ second.extent.start := by
  refine List.pairwise_flatMap.mpr
    ⟨fun row isRow => (laidOut.rows.of_mem isRow).1.cells.pairwise, ?_⟩
  refine laidOut.rows.pairwise.imp_of_mem ?_
  intro row row' isRow isRow' ordered cell isCell cell' isCell'
  have ends := ((laidOut.rows.of_mem isRow).1.cells.of_mem isCell).2.2
  have begins := ((laidOut.rows.of_mem isRow').1.cells.of_mem isCell').2.1
  omega

theorem placed_of_mem_cells (laidOut : table.LaidOut bodyStart bodyStop) {cell : Cell}
    (member : cell ∈ table.rows.flatMap (·.cells)) : cell.Placed table.document := by
  obtain ⟨row, isRow, isCell⟩ := List.mem_flatMap.mp member
  exact ((laidOut.rows.of_mem isRow).1.cells.of_mem isCell).1

/-- And so do its merges. -/
theorem pairwise_merges (laidOut : table.LaidOut bodyStart bodyStop) :
    table.merges.Pairwise fun first second => first.span.stop ≤ second.span.start := by
  rw [merges, ← List.filterMap_flatMap]
  refine List.pairwise_filterMap.mpr (laidOut.pairwise_cells.imp_of_mem ?_)
  intro first second firstIn secondIn ordered merge merged merge' merged'
  have firstMerge := (laidOut.placed_of_mem_cells firstIn).merge merge merged
  have secondMerge := (laidOut.placed_of_mem_cells secondIn).merge merge' merged'
  omega

end LaidOut

end Table

end LatexTabular
