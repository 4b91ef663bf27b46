import LatexTabular.Proofs.Command.Merging
import LatexTabular.Proofs.Table.Consistency
import LatexTabular.Proofs.Text.Covered

/-!
# What merging keeps

The content of a new merged cell is joined from the contents of the cells that it replaces.  So
it keeps all their ink, but for what stands behind the command of a merged cell within its cell
(`Plan.mergeCells_keeps_iff`).
-/

namespace LatexTabular

namespace Cell

/-- Where a cell shows its content: of a merged cell, between the braces of its command. -/
def shown (cell : Cell) : Span :=
  match cell.merge with
  | some merge => ⟨merge.preamble.stop, merge.postamble.start⟩
  | none => cell.extent

/-- What stands in a cell behind the command that merges it. -/
def trailing (cell : Cell) : Span :=
  match cell.merge with
  | some merge => ⟨merge.span.stop, cell.extent.stop⟩
  | none => .point cell.extent.stop

/-- A merged cell begins with its command, and any other shows all that stands in it. -/
structure Divided (document : Text) (cell : Cell) : Prop where
  shown : cell.shown.Fits document
  trailing : cell.trailing.Fits document
  outer_start : cell.outer.start = cell.extent.start
  start_le_shown : cell.extent.start ≤ cell.shown.start
  shown_le_outer : cell.shown.stop ≤ cell.outer.stop
  outer_stop : cell.outer.stop = cell.trailing.start
  trailing_stop : cell.trailing.stop = cell.extent.stop
  merge_within : ∀ merge ∈ cell.merge, ∀ offset,
    merge.preamble.covers offset ∨ merge.postamble.covers offset → cell.extent.covers offset
  covers_iff : ∀ offset, cell.extent.covers offset ∧
      (∀ merge ∈ cell.merge, ¬(merge.preamble.covers offset ∨ merge.postamble.covers offset)) ↔
    cell.shown.covers offset ∨ cell.trailing.covers offset

variable {document : Text} {cell : Cell}

theorem divided_of_plain (fits : cell.extent.Fits document) (merged : cell.merge = none)
    (plain : cell.contentSpan = cell.extent) : cell.Divided document := by
  have shownEq : cell.shown = cell.extent := by rw [shown, merged]
  have trailingEq : cell.trailing = .point cell.extent.stop := by rw [trailing, merged]
  have outerEq : cell.outer = cell.extent := by rwa [outer, merged]
  refine ⟨shownEq ▸ fits, trailingEq ▸ fits.point_stop, by rw [outerEq], by rw [shownEq],
    by rw [shownEq, outerEq], by rw [outerEq, trailingEq]; rfl, by rw [trailingEq]; rfl,
    by simp [merged], fun offset => ?_⟩
  rw [shownEq, trailingEq, merged, Span.point]
  simp only [Span.covers, Bool.and_eq_true, decide_eq_true_eq, reduceCtorEq, Option.mem_def,
    false_implies, implies_true, and_true]
  omega

theorem divided_of_merge {merge : Merge} (placed : cell.Placed document)
    (merged : cell.merge = some merge) : cell.Divided document := by
  obtain ⟨mergePlaced, begins, ends⟩ := placed.merge merge merged
  have shownEq : cell.shown = ⟨merge.preamble.stop, merge.postamble.start⟩ := by
    rw [shown, merged]
  have trailingEq : cell.trailing = ⟨merge.span.stop, cell.extent.stop⟩ := by
    rw [trailing, merged]
  have outerEq : cell.outer = merge.span := by rw [outer, merged]
  have preamble := mergePlaced.preamble.ordered
  have postamble := mergePlaced.postamble.ordered
  have preambleStart := mergePlaced.preamble_start
  have inner := mergePlaced.preamble_le_postamble
  have postambleStop := mergePlaced.postamble_stop
  refine ⟨?_, ?_, ?_, ?_, ?_, ?_, ?_, ?_, fun offset => ?_⟩
  · rw [shownEq]
    exact mergePlaced.preamble.join mergePlaced.postamble (.inr rfl) (.inl rfl) inner
  · rw [trailingEq]
    exact mergePlaced.span.join placed.extent (.inr rfl) (.inr rfl) ends
  · rw [outerEq, begins]
  · rw [shownEq]
    dsimp only
    omega
  · rw [shownEq, outerEq]
    dsimp only
    omega
  · rw [outerEq, trailingEq]
  · rw [trailingEq]
  · intro other isMerge offset within
    obtain rfl := Option.some.inj (merged.symm.trans isMerge)
    simp only [Span.covers, Bool.and_eq_true, decide_eq_true_eq] at within ⊢
    omega
  · rw [shownEq, trailingEq, merged]
    simp only [Span.covers, Bool.and_eq_true, decide_eq_true_eq, Option.mem_some_iff, forall_eq']
    omega

/-- Both parts stand within the cell, one behind the other. -/
theorem Divided.within (divided : cell.Divided document) :
    ∀ part ∈ [cell.shown, cell.trailing],
      cell.extent.start ≤ part.start ∧ part.stop ≤ cell.extent.stop := by
  have shown := divided.shown.ordered
  have trailing := divided.trailing.ordered
  obtain ⟨-, -, -, _, _, _, _, -, -⟩ := divided
  simp only [List.mem_cons, List.not_mem_nil, or_false, forall_eq_or_imp, forall_eq]
  omega

theorem Divided.extent_ordered (divided : cell.Divided document) :
    cell.extent.start ≤ cell.extent.stop := by
  have shown := divided.within cell.shown List.mem_cons_self
  have ordered := divided.shown.ordered
  omega

/-- What a cell says is what it shows, but for blank characters. -/
theorem MadeOf.ink_content {start stop : Nat} {lexemes : List Body.Lexeme}
    (madeOf : cell.MadeOf start lexemes) (chain : Body.Chain start lexemes stop)
    (sound : ∀ lexeme ∈ lexemes, lexeme.Sound document)
    (boundary : document.isBoundary start = true) :
    Text.ink cell.content = Text.ink (document.slice cell.shown) := by
  have spells := madeOf.spells chain sound boundary
  cases madeOf with
  | blank => rw [← spells.slice_eq]; rfl
  | plain => rw [← spells.slice_eq]; rfl
  | @merged part first last parts isPart isFirst isLast isMerge =>
      have firstIn := isPart.subset (List.mem_of_mem_head? isFirst)
      have ofMerge := (sound first firstIn).spells
      rw [Body.Lexeme.span, Body.Lexeme.stop, (sound first firstIn).ofMerge parts isMerge]
        at ofMerge
      have inner := (parts.placed_place ofMerge).2.slice_eq
      rw [Text.ink_trim, shown]
      exact congrArg Text.ink inner.symm

theorem MadeOf.contentSpan_eq {start : Nat} {lexemes : List Body.Lexeme}
    (madeOf : cell.MadeOf start lexemes) (plain : cell.merge = none) :
    cell.contentSpan = cell.extent := by
  cases madeOf with
  | blank => rfl
  | plain => rfl
  | merged => simp at plain

end Cell

namespace Table

/-- Whether an offset lies in some cells, but not in the command around the content of a merged
cell. -/
def saysAt (cells : List Cell) (offset : Nat) (table : Table) : Bool :=
  cells.any (·.extent.covers offset) && !table.merges.any fun merge =>
    merge.preamble.covers offset || merge.postamble.covers offset

/-- The ink in a range of the document that belongs to what some cells say. -/
def inkOf (range : Span) (cells : List Cell) (table : Table) : Text :=
  Text.inkWhere (fun offset => range.covers offset && table.saysAt cells offset) 0 table.document

/-- What cells side by side say in front of the end of the last command. -/
def replacedParts (init : List Cell) (last : Cell) : List Span :=
  init.flatMap (fun cell => [cell.shown, cell.trailing]) ++ [last.shown]

namespace HasBody

variable {table : Table} {tabular : Markup.Environment} {lexemes : List Body.Lexeme} {cell : Cell}

theorem cellMadeOf (hasBody : table.HasBody tabular lexemes)
    (isCell : cell ∈ table.rows.flatMap (·.cells)) :
    cell.MadeOf (table.specifierSpan.stop + 1) lexemes := by
  obtain ⟨row, isRow, inRow⟩ := List.mem_flatMap.mp isCell
  exact (hasBody.madeOf isRow).cells cell inRow

theorem divided (hasBody : table.HasBody tabular lexemes)
    (isCell : cell ∈ table.rows.flatMap (·.cells)) : cell.Divided table.document := by
  have placed := hasBody.laidOut.placed_of_mem_cells isCell
  cases merged : cell.merge with
  | none =>
      exact Cell.divided_of_plain placed.extent merged
        ((hasBody.cellMadeOf isCell).contentSpan_eq merged)
  | some merge => exact Cell.divided_of_merge placed merged

theorem extents_apart (hasBody : table.HasBody tabular lexemes) {other : Cell}
    (isCell : cell ∈ table.rows.flatMap (·.cells)) (isOther : other ∈ table.rows.flatMap (·.cells))
    (different : cell ≠ other) : cell.extent.Apart other.extent := by
  have : Std.Symm fun first second : Cell => first.extent.Apart second.extent :=
    ⟨fun _ _ => Or.symm⟩
  have apart : (table.rows.flatMap (·.cells)).Pairwise fun first second =>
      first.extent.Apart second.extent := hasBody.laidOut.pairwise_cells.imp Or.inl
  exact apart.forall isCell isOther different

/-- Only the own command of a cell takes some of its place. -/
theorem merge_eq_some (hasBody : table.HasBody tabular lexemes) {merge : Merge} {offset : Nat}
    (isCell : cell ∈ table.rows.flatMap (·.cells)) (inCell : cell.extent.covers offset = true)
    (isMerge : merge ∈ table.merges)
    (inMerge : merge.preamble.covers offset = true ∨ merge.postamble.covers offset = true) :
    cell.merge = some merge := by
  rw [merges, ← List.filterMap_flatMap] at isMerge
  obtain ⟨other, isOther, merged⟩ := List.mem_filterMap.mp isMerge
  have inOther := (hasBody.divided isOther).merge_within merge merged offset inMerge
  by_cases same : cell = other
  · rw [same, merged]
  · have apart := hasBody.extents_apart isCell isOther same
    simp only [Span.Apart] at apart
    simp only [Span.covers, Bool.and_eq_true, decide_eq_true_eq] at inCell inOther
    omega

/-- An offset in a cell that no command around a content takes is one where the cell shows its
content or where something stands behind its command. -/
theorem covers_iff (hasBody : table.HasBody tabular lexemes) {offset : Nat}
    (isCell : cell ∈ table.rows.flatMap (·.cells)) :
    cell.extent.covers offset = true ∧ (∀ merge ∈ table.merges,
        ¬(merge.preamble.covers offset = true ∨ merge.postamble.covers offset = true)) ↔
      cell.shown.covers offset = true ∨ cell.trailing.covers offset = true := by
  rw [← (hasBody.divided isCell).covers_iff]
  refine and_congr_right fun inCell => ⟨fun none merge merged => none merge ?_, ?_⟩
  · rw [merges, ← List.filterMap_flatMap]
    exact List.mem_filterMap.mpr ⟨cell, isCell, merged⟩
  · exact fun none merge isMerge inMerge =>
      none merge (hasBody.merge_eq_some isCell inCell isMerge inMerge) inMerge

theorem ink_content (hasBody : table.HasBody tabular lexemes)
    (isCell : cell ∈ table.rows.flatMap (·.cells)) :
    Text.ink cell.content = Text.ink (table.slice cell.shown) :=
  (hasBody.cellMadeOf isCell).ink_content hasBody.chain hasBody.sound hasBody.boundary

theorem saysAt_iff (hasBody : table.HasBody tabular lexemes) {cells : List Cell} {offset : Nat}
    (areCells : cells ⊆ table.rows.flatMap (·.cells)) :
    table.saysAt cells offset = true ↔
      ∃ cell ∈ cells, cell.shown.covers offset = true ∨ cell.trailing.covers offset = true := by
  rw [saysAt, Bool.and_eq_true, List.any_eq_true, Bool.not_eq_true', List.any_eq_false]
  constructor
  · rintro ⟨⟨cell, isCell, inCell⟩, none⟩
    refine ⟨cell, isCell, (hasBody.covers_iff (areCells isCell)).mp ⟨inCell, ?_⟩⟩
    simpa using none
  · rintro ⟨cell, isCell, inPart⟩
    obtain ⟨inCell, none⟩ := (hasBody.covers_iff (areCells isCell)).mpr inPart
    refine ⟨⟨cell, isCell, inCell⟩, ?_⟩
    simpa using none

section Replaced

variable {init : List Cell} {first last : Cell}
  (areCells : init ++ [last] ⊆ table.rows.flatMap (·.cells))
  (ordered : (init ++ [last]).Pairwise fun first second => first.extent.stop ≤ second.extent.start)

include areCells

theorem divided_of_mem (hasBody : table.HasBody tabular lexemes) :
    (∀ cell ∈ init, cell.Divided table.document) ∧ last.Divided table.document :=
  ⟨fun cell inInit => hasBody.divided (areCells (List.mem_append_left _ inInit)),
    hasBody.divided (areCells (by simp))⟩

include ordered

theorem pairwise_replacedParts (hasBody : table.HasBody tabular lexemes) :
    (replacedParts init last).Pairwise fun first second => first.stop ≤ second.start := by
  obtain ⟨inits, isLast⟩ := hasBody.divided_of_mem areCells
  obtain ⟨initOrdered, -, beforeLast⟩ := List.pairwise_append.mp ordered
  refine List.pairwise_append.mpr ⟨List.pairwise_flatMap.mpr ⟨fun cell inInit => ?_, ?_⟩,
    List.pairwise_singleton _ _, ?_⟩
  · have divided := inits cell inInit
    have shownEnds := divided.shown_le_outer
    have outerEnds := divided.outer_stop
    simp only [List.pairwise_cons, List.mem_singleton, forall_eq, List.not_mem_nil,
      false_implies, implies_true, List.Pairwise.nil, and_true]
    omega
  · refine initOrdered.imp_of_mem ?_
    intro cell other inInit otherIn ordered part isPart part' isPart'
    have ends := ((inits cell inInit).within part isPart).2
    have begins := ((inits other otherIn).within part' isPart').1
    omega
  · intro part isPart part' isPart'
    obtain ⟨cell, inInit, isPart⟩ := List.mem_flatMap.mp isPart
    obtain rfl := List.mem_singleton.mp isPart'
    have ends := ((inits cell inInit).within part isPart).2
    have next := beforeLast cell inInit last (by simp)
    have begins := isLast.start_le_shown
    omega

/-- The range from the first command to the last one holds all that the cells say, except for
what stands behind the last command. -/
theorem covers_replacedParts_iff (hasBody : table.HasBody tabular lexemes)
    (isFirst : (init ++ [last]).head? = some first) (offset : Nat) :
    (Span.covers ⟨first.outer.start, last.outer.stop⟩ offset
        && table.saysAt (init ++ [last]) offset) = true ↔
      (replacedParts init last).any (·.covers offset) = true := by
  obtain ⟨inits, isLast⟩ := hasBody.divided_of_mem areCells
  have lastOuter := isLast.outer_start
  have lastShown := isLast.shown_le_outer
  have lastTrailing := isLast.outer_stop
  have lastBegins := isLast.start_le_shown
  have lastOrdered := isLast.shown.ordered
  have parts : (replacedParts init last).any (·.covers offset) = true ↔
      (∃ cell ∈ init, cell.shown.covers offset = true ∨ cell.trailing.covers offset = true) ∨
        last.shown.covers offset = true := by
    simp [replacedParts]
  rw [parts, Bool.and_eq_true, hasBody.saysAt_iff areCells, Span.covers, Bool.and_eq_true,
    decide_eq_true_eq, decide_eq_true_eq]
  constructor
  · rintro ⟨⟨-, inRange⟩, cell, isCell, inPart⟩
    rcases List.mem_append.mp isCell with inInit | isEnd
    · exact Or.inl ⟨cell, inInit, inPart⟩
    · obtain rfl := List.mem_singleton.mp isEnd
      -- What stands behind the last command is not replaced.
      refine Or.inr (inPart.resolve_right fun behind => ?_)
      simp only [Span.covers, Bool.and_eq_true, decide_eq_true_eq] at behind inRange
      omega
  · have begins : ∀ cell ∈ init ++ [last], first.outer.start ≤ cell.extent.start := by
      obtain ⟨rest, cellsEq⟩ := List.head?_eq_some_iff.mp isFirst
      have firstDivided := hasBody.divided (areCells (cellsEq ▸ List.mem_cons_self))
      have firstOuter := firstDivided.outer_start
      rw [cellsEq] at ordered ⊢
      refine List.forall_mem_cons.mpr ⟨Nat.le_of_eq firstOuter, fun cell inRest => ?_⟩
      have next := (List.pairwise_cons.mp ordered).1 cell inRest
      have firstOrdered := firstDivided.extent_ordered
      omega
    rintro (⟨cell, inInit, inPart⟩ | inShown)
    · have isCell : cell ∈ init ++ [last] := List.mem_append_left _ inInit
      have inCell := (((inits cell inInit).covers_iff offset).mpr inPart).1
      have next := (List.pairwise_append.mp ordered).2.2 cell inInit last (by simp)
      have cellBegins := begins cell isCell
      simp only [Span.covers, Bool.and_eq_true, decide_eq_true_eq] at inCell
      exact ⟨⟨by dsimp only; omega, by dsimp only; omega⟩, cell, isCell, inPart⟩
    · have isCell : last ∈ init ++ [last] := by simp
      have cellBegins := begins last isCell
      refine ⟨?_, last, isCell, Or.inl inShown⟩
      simp only [Span.covers, Bool.and_eq_true, decide_eq_true_eq] at inShown
      exact ⟨by dsimp only; omega, by dsimp only; omega⟩

/-- What the cells say in the replaced range stands where they show their contents, and behind
the commands of all but the last one. -/
theorem inkOf_eq (hasBody : table.HasBody tabular lexemes)
    (isFirst : (init ++ [last]).head? = some first) :
    table.inkOf ⟨first.outer.start, last.outer.stop⟩ (init ++ [last])
      = init.flatMap (fun cell => Text.ink (table.slice cell.shown)
          ++ Text.ink (table.slice cell.trailing)) ++ Text.ink (table.slice last.shown) := by
  obtain ⟨inits, isLast⟩ := hasBody.divided_of_mem areCells
  have fits : ∀ part ∈ replacedParts init last, part.Fits table.document := by
    intro part isPart
    rcases List.mem_append.mp isPart with isPart | isShown
    · obtain ⟨cell, inInit, isPart⟩ := List.mem_flatMap.mp isPart
      rcases List.mem_pair.mp isPart with rfl | rfl
      · exact (inits cell inInit).shown
      · exact (inits cell inInit).trailing
    · obtain rfl := List.mem_singleton.mp isShown
      exact isLast.shown
  have covered : table.inkOf ⟨first.outer.start, last.outer.stop⟩ (init ++ [last])
      = Text.inkWhere (fun offset => (replacedParts init last).any (·.covers offset)) 0
        table.document :=
    Text.inkWhere_congr fun offset _ _ => Bool.eq_iff_iff.mpr
      (hasBody.covers_replacedParts_iff areCells ordered isFirst offset)
  rw [covered, Text.inkWhere_covers fits (hasBody.pairwise_replacedParts areCells ordered)]
  simp [replacedParts, List.flatMap_assoc, slice]

end Replaced

end HasBody

end Table

namespace Plan

open Markup

variable {document : Text} {tabular : Environment} {table : Table}

theorem ink_joined (cells : List Cell) :
    Text.ink (joined cells) = cells.flatMap fun cell => Text.ink cell.content := by
  rw [joined, Text.ink_trim, Text.ink_intercalate (by decide), List.flatMap_map]

/-- The cells of a row that a selection takes some column of. -/
def selectedCells (selection : Selection) (row : Row) : List Cell :=
  row.cellsOver selection.bounds.left selection.bounds.right

/-- The content of a new merged cell holds, in their order, all characters of the replaced range
that are not blank and belong to what the selected cells say, exactly if nothing but blank
characters stands behind the commands of the cells in front of the last one. -/
theorem mergeCells_keeps_iff (isTabular : tabular ∈ environments document)
    (found : Table.ofTabular document (environments document) tabular = .ok table)
    (selection : Selection) (options : Options)
    (planned : mergeCells table selection options ≠ []) :
    ∃ row, table.rows[selection.bounds.top]? = some row ∧ ∃ range columns,
      mergeCells table selection options = [⟨range, mergeText columns
        (mergedColumn table columns options) (joined (selectedCells selection row))⟩] ∧
      ((table.inkOf range (selectedCells selection row)).Sublist
          (joined (selectedCells selection row)) ↔
        ∀ cell ∈ (selectedCells selection row).dropLast,
          Text.allBlank (table.slice cell.trailing) = true) := by
  obtain ⟨rfl, -, lexemes, -, hasBody⟩ := Table.exists_body_of_ofTabular isTabular found
  obtain ⟨row, before, covered, behind, merges⟩ := exists_merges_of_ne_nil planned
  have rowIn : row ∈ table.rows := List.mem_of_getElem? merges.isRow
  have several := merges.several
  obtain ⟨init, last, rfl⟩ := (List.eq_nil_or_concat' covered).resolve_left (by
    rintro rfl
    simp at several)
  obtain ⟨first, isFirst⟩ : ∃ first, (init ++ [last]).head? = some first :=
    ⟨_, List.head?_eq_some_head (by simp)⟩
  have isPart : (init ++ [last]).Sublist row.cells := by
    rw [merges.covers.cells]
    exact (List.sublist_append_left _ behind).trans (List.sublist_append_right before _)
  have areCells : init ++ [last] ⊆ table.rows.flatMap (·.cells) := fun cell isCell =>
    List.mem_flatMap.mpr ⟨row, rowIn, isPart.subset isCell⟩
  have ordered := ((hasBody.laidOut.rows.of_mem rowIn).1.cells.pairwise).sublist isPart
  have selected : selectedCells selection row = init ++ [last] := merges.covers.cellsOver_eq
  have edit := @Merges.mergeCells_eq _ _ _ _ _ _ options _ _ merges isFirst List.getLast?_concat
  refine ⟨row, merges.isRow, _, _, by rw [selected]; exact edit, ?_⟩
  have inked : Text.ink (table.inkOf ⟨first.outer.start, last.outer.stop⟩ (init ++ [last]))
      = table.inkOf ⟨first.outer.start, last.outer.stop⟩ (init ++ [last]) :=
    Text.ink_inkWhere _ _ _
  have joinedInk : Text.ink (joined (init ++ [last]))
      = init.flatMap (fun cell => Text.ink (table.slice cell.shown))
        ++ Text.ink (table.slice last.shown) := by
    rw [ink_joined, List.flatMap_congr fun cell isCell => hasBody.ink_content (areCells isCell),
      List.flatMap_append, List.flatMap_singleton]
  rw [selected, List.dropLast_concat, ← Text.sublist_ink_iff inked, joinedInk,
    hasBody.inkOf_eq areCells ordered isFirst, flatMap_append_sublist_iff]
  simp only [Text.ink_eq_nil_iff]

/-- A merged cell with text behind its command. -/
def trailed : Text :=
  "\\begin\x7btabular\x7d\x7blll\x7d\n\\multicolumn\x7b2\x7d\x7bc\x7d\x7bx\x7d y & b \\\\\n".toList
    ++ "\\end\x7btabular\x7d".toList

/-- That text is lost when the cell is merged with the one behind it. -/
theorem mergeCells_keeps_iff_trailed :
    ∃ tabular ∈ environments trailed, ∃ table,
      Table.ofTabular trailed (environments trailed) tabular = .ok table ∧
        mergeCells table ⟨⟨0, 0⟩, ⟨0, 2⟩⟩ {}
          = [⟨⟨21, 48⟩, "\\multicolumn\x7b3\x7d\x7bc\x7d\x7bx b\x7d".toList⟩] ∧
        ∃ row, table.rows[0]? = some row ∧
          ¬(table.inkOf ⟨21, 48⟩ (selectedCells ⟨⟨0, 0⟩, ⟨0, 2⟩⟩ row)).Sublist
            (joined (selectedCells ⟨⟨0, 0⟩, ⟨0, 2⟩⟩ row)) := by
  have facts : (Table.readFirst trailed).map (fun table =>
      (mergeCells table ⟨⟨0, 0⟩, ⟨0, 2⟩⟩ {}, table.rows[0]?.map fun row =>
        (selectedCells ⟨⟨0, 0⟩, ⟨0, 2⟩⟩ row).dropLast.all
          fun cell => Text.allBlank (table.slice cell.trailing)))
      = .ok ([⟨⟨21, 48⟩, "\\multicolumn\x7b3\x7d\x7bc\x7d\x7bx b\x7d".toList⟩], some false) := by
    decide +kernel
  cases read : Table.readFirst trailed with
  | error error =>
      rw [read] at facts
      exact nomatch facts
  | ok table =>
      rw [read] at facts
      obtain ⟨planned, behind⟩ := Prod.mk.inj (Except.ok.inj facts)
      obtain ⟨tabular, isTabular, found⟩ := Table.exists_tabular_of_readFirst read
      have isEnvironment := (List.mem_filter.mp isTabular).1
      obtain ⟨row, isRow, range, columns, edit, keeps⟩ :=
        mergeCells_keeps_iff isEnvironment found ⟨⟨0, 0⟩, ⟨0, 2⟩⟩ {} (by rw [planned]; simp)
      refine ⟨tabular, isEnvironment, table, found, planned, row, isRow, ?_⟩
      rw [planned] at edit
      obtain rfl : range = ⟨21, 48⟩ := (Edit.mk.inj (List.cons.inj edit).1).1.symm
      rw [keeps]
      intro blank
      rw [show table.rows[0]? = some row from isRow] at behind
      exact Bool.noConfusion ((List.all_eq_true.mpr blank).symm.trans (Option.some.inj behind))

end Plan

end LatexTabular
