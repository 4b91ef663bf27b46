import LatexTabular.Table
import LatexTabular.Proofs.Text.Boundary

/-!
# The geometry of a table

Cells and separators of a row alternate in the order of the document, the blank
cells that fill a short row stand at the end of its last written cell, and rows
follow one another without a gap.  Whatever plans edits of a table relies on
nothing else.
-/

namespace LatexTabular

/-- The parts of a merge fit the document and stand in their order within it. -/
structure Merge.Placed (document : Text) (merge : Merge) : Prop where
  span : merge.span.Fits document
  number : merge.number.Fits document
  specifier : merge.specifier.Fits document
  preamble : merge.preamble.Fits document
  postamble : merge.postamble.Fits document
  start_le_number : merge.span.start ≤ merge.number.start
  number_le_specifier : merge.number.stop ≤ merge.specifier.start
  specifier_le_preamble : merge.specifier.stop ≤ merge.preamble.stop
  preamble_start : merge.preamble.start = merge.span.start
  preamble_le_postamble : merge.preamble.stop ≤ merge.postamble.start
  postamble_stop : merge.postamble.stop = merge.span.stop

namespace Merge.Placed

variable {document : Text} {merge : Merge}

theorem number_within (placed : merge.Placed document) :
    merge.span.start ≤ merge.number.start ∧ merge.number.stop ≤ merge.span.stop := by
  have := placed.specifier.ordered
  have := placed.postamble.ordered
  obtain ⟨-, -, -, -, -, _, _, _, _, _, _⟩ := placed
  omega

theorem specifier_within (placed : merge.Placed document) :
    merge.span.start ≤ merge.specifier.start ∧ merge.specifier.stop ≤ merge.span.stop := by
  have := placed.number.ordered
  have := placed.postamble.ordered
  obtain ⟨-, -, -, -, -, _, _, _, _, _, _⟩ := placed
  omega

end Merge.Placed

/-- The places of a cell fit the document, and what it says stands within it. -/
structure Cell.Placed (document : Text) (cell : Cell) : Prop where
  extent : cell.extent.Fits document
  content : cell.contentSpan.Fits document
  start_le_content : cell.extent.start ≤ cell.contentSpan.start
  content_le_stop : cell.contentSpan.stop ≤ cell.extent.stop
  merge : ∀ merge, cell.merge = some merge →
    merge.Placed document ∧ merge.span.start = cell.extent.start
      ∧ merge.span.stop ≤ cell.extent.stop

/-- A merged cell begins with its command, and any other is nothing but its
text. -/
theorem Cell.Placed.outer {document : Text} {cell : Cell} (placed : cell.Placed document) :
    cell.outer.Fits document ∧ cell.extent.start ≤ cell.outer.start ∧
      cell.outer.stop ≤ cell.extent.stop := by
  unfold Cell.outer
  split
  next merge merged =>
    obtain ⟨mergePlaced, sameStart, ends⟩ := placed.merge merge merged
    exact ⟨mergePlaced.span, Nat.le_of_eq sameStart.symm, ends⟩
  next => exact ⟨placed.content, placed.start_le_content, placed.content_le_stop⟩

theorem Cell.placed_blank {document : Text} {offset : Nat}
    (boundary : document.isBoundary offset = true) : (blank offset).Placed document := by
  have fits : (Span.point offset).Fits document := ⟨Nat.le_refl _, boundary, boundary⟩
  exact ⟨fits, fits, Nat.le_refl _, Nat.le_refl _, by simp [blank]⟩

theorem Row.mem_of_cellAt? {row : Row} {column : Nat} {cell : Cell}
    (found : row.cellAt? column = some cell) : cell ∈ row.cells := by
  simp only [cellAt?, Option.bind_eq_bind, Option.bind_eq_some_iff] at found
  obtain ⟨index, -, isCell⟩ := found
  exact List.mem_of_getElem? isCell

/-- Cells and the separators between them follow one another from one offset to
another.  Cells behind the last written one stand where it ends. -/
inductive CellsLaid (document : Text) :
    (start : Nat) → List Cell → List Span → (stop : Nat) → Prop where
  | last {start stop : Nat} {cell : Cell} {filling : List Cell}
      (placed : cell.Placed document) (begins : start ≤ cell.extent.start)
      (ends : cell.extent.stop ≤ stop)
      (filled : ∀ other ∈ filling, other = .blank cell.extent.stop) :
      CellsLaid document start (cell :: filling) [] stop
  | next {start stop : Nat} {cell : Cell} {rest : List Cell} {separator : Span}
      {separators : List Span} (placed : cell.Placed document)
      (begins : start ≤ cell.extent.start) (ends : cell.extent.stop ≤ separator.start)
      (fits : separator.Fits document)
      (laid : CellsLaid document separator.stop rest separators stop) :
      CellsLaid document start (cell :: rest) (separator :: separators) stop

namespace CellsLaid

variable {document : Text} {start stop : Nat} {cells : List Cell} {separators : List Span}

theorem start_le_stop (laid : CellsLaid document start cells separators stop) :
    start ≤ stop := by
  induction laid with
  | last placed begins ends filled =>
      have := placed.extent.ordered
      omega
  | next placed begins ends fits laid ih =>
      have := placed.extent.ordered
      have := fits.ordered
      omega

theorem ne_nil (laid : CellsLaid document start cells separators stop) : cells ≠ [] := by
  cases laid <;> simp

/-- Every cell is placed and stands between the ends. -/
theorem of_mem (laid : CellsLaid document start cells separators stop) {cell : Cell}
    (member : cell ∈ cells) :
    cell.Placed document ∧ start ≤ cell.extent.start ∧ cell.extent.stop ≤ stop := by
  induction laid with
  | last placed begins ends filled =>
      rcases List.mem_cons.mp member with rfl | inFilling
      · exact ⟨placed, begins, ends⟩
      · rw [filled cell inFilling]
        have ordered := placed.extent.ordered
        refine ⟨Cell.placed_blank placed.extent.stopBoundary, ?_⟩
        simp only [Cell.blank, Span.point]
        omega
  | next placed begins ends fits laid ih =>
      have behind := laid.start_le_stop
      have ordered := fits.ordered
      rcases List.mem_cons.mp member with rfl | inRest
      · exact ⟨placed, begins, by omega⟩
      · have cellOrdered := placed.extent.ordered
        obtain ⟨placed, begins, ends⟩ := ih inRest
        exact ⟨placed, by omega, ends⟩

/-- Every cell ends before or where a later one starts. -/
theorem pairwise (laid : CellsLaid document start cells separators stop) :
    cells.Pairwise fun first second => first.extent.stop ≤ second.extent.start := by
  induction laid with
  | @last start stop cell filling placed begins ends filled =>
      refine List.pairwise_cons.mpr ⟨?_, ?_⟩
      · intro other member
        rw [filled other member]
        exact Nat.le_refl _
      · refine List.pairwise_iff_forall_sublist.mpr ?_
        intro first second isPart
        rw [filled first (isPart.subset (by simp)), filled second (isPart.subset (by simp))]
        exact Nat.le_refl _
  | next placed begins ends fits laid ih =>
      refine List.pairwise_cons.mpr ⟨?_, ih⟩
      intro other member
      have := (laid.of_mem member).2.1
      have := fits.ordered
      omega

/-- A cell ends before or where a later one starts. -/
theorem stop_le_start {index later : Nat}
    {cell next : Cell} (laid : CellsLaid document start cells separators stop)
    (before : index < later) (isCell : cells[index]? = some cell)
    (isNext : cells[later]? = some next) : cell.extent.stop ≤ next.extent.start := by
  obtain ⟨_, rfl⟩ := List.getElem?_eq_some_iff.mp isCell
  obtain ⟨_, rfl⟩ := List.getElem?_eq_some_iff.mp isNext
  exact List.pairwise_iff_getElem.mp laid.pairwise _ _ _ _ before

/-- A cell ends no later than the cells behind it. -/
theorem stop_le_stop {index later : Nat}
    {cell next : Cell} (laid : CellsLaid document start cells separators stop)
    (notBehind : index ≤ later) (isCell : cells[index]? = some cell)
    (isNext : cells[later]? = some next) : cell.extent.stop ≤ next.extent.stop := by
  rcases Nat.eq_or_lt_of_le notBehind with rfl | before
  · obtain rfl := Option.some.inj (isCell.symm.trans isNext)
    exact Nat.le_refl _
  · have nextOrdered := (laid.of_mem (List.mem_of_getElem? isNext)).1.extent.ordered
    exact (laid.stop_le_start before isCell isNext).trans nextOrdered

/-- A separator fits, cells up to its index end in front of it and later cells
start behind it. -/
theorem of_separator (laid : CellsLaid document start cells separators stop)
    {index : Nat} {separator : Span} (found : separators[index]? = some separator) :
    separator.Fits document ∧ start ≤ separator.start ∧ separator.stop ≤ stop ∧
      ∀ position cell, cells[position]? = some cell →
        (position ≤ index → cell.extent.stop ≤ separator.start) ∧
        (index < position → separator.stop ≤ cell.extent.start) := by
  induction laid generalizing index with
  | last placed begins ends filled => simp at found
  | @next start stop cell rest first separators placed begins ends fits laid ih =>
      have cellOrdered := placed.extent.ordered
      have behind := laid.start_le_stop
      cases index with
      | zero =>
          obtain rfl : first = separator := by simpa using found
          refine ⟨fits, by omega, by omega, ?_⟩
          intro position other isOther
          cases position with
          | zero =>
              obtain rfl : cell = other := by simpa using isOther
              exact ⟨fun _ => ends, fun impossible => by omega⟩
          | succ position =>
              have inRest := List.mem_of_getElem? (show rest[position]? = some other from isOther)
              exact ⟨fun impossible => by omega, fun _ => (laid.of_mem inRest).2.1⟩
      | succ index =>
          obtain ⟨separatorFits, begins', ends', others⟩ := ih (by simpa using found)
          have ordered := fits.ordered
          refine ⟨separatorFits, by omega, ends', ?_⟩
          intro position other isOther
          cases position with
          | zero =>
              obtain rfl : cell = other := by simpa using isOther
              exact ⟨fun _ => by omega, fun impossible => by omega⟩
          | succ position =>
              have := others position other isOther
              constructor
              · intro le
                exact this.1 (by omega)
              · intro lt
                exact this.2 (by omega)

/-- There is a cell behind every separator. -/
theorem length_separators_lt (laid : CellsLaid document start cells separators stop) :
    separators.length < cells.length := by
  induction laid with
  | last => simp
  | next placed begins ends fits laid ih => simpa using ih

/-- The cells that no separator stands behind or in front of fill the row. -/
theorem eq_blank_of_lt (laid : CellsLaid document start cells separators stop) {index : Nat}
    {cell : Cell} (behind : separators.length < index) (found : cells[index]? = some cell) :
    ∃ final, cells[separators.length]? = some final ∧ cell = .blank final.extent.stop := by
  induction laid generalizing index with
  | @last start stop final filling placed begins ends filled =>
      obtain ⟨position, rfl⟩ := Nat.exists_eq_add_of_lt behind
      exact ⟨final, rfl, filled cell (List.mem_of_getElem? (by simpa using found))⟩
  | next placed begins ends fits laid ih =>
      cases index with
      | zero => simp at behind
      | succ index => exact ih (by simpa using behind) (by simpa using found)

/-- Cells may fill up a row at the end of its last one. -/
theorem fill (laid : CellsLaid document start cells separators stop) {final : Cell}
    (isLast : cells.getLast? = some final) (count : Nat) :
    CellsLaid document start
      (cells ++ List.replicate count (.blank final.extent.stop)) separators stop := by
  induction laid with
  | @last start stop cell filling placed begins ends filled =>
      have atEnd : final.extent.stop = cell.extent.stop := by
        rcases List.mem_cons.mp (List.mem_of_mem_getLast? isLast) with rfl | member
        · rfl
        · rw [filled final member]
          rfl
      rw [atEnd]
      refine .last placed begins ends ?_
      intro other member
      rcases List.mem_append.mp member with inFilling | inAdded
      · exact filled other inFilling
      · exact List.eq_of_mem_replicate inAdded
  | next placed begins ends fits laid ih =>
      rw [List.getLast?_cons_of_ne_nil laid.ne_nil] at isLast
      exact .next placed begins ends fits (ih isLast)

/-- Cells reach no further than the end of the last one. -/
theorem tighten (laid : CellsLaid document start cells separators stop) {final : Cell}
    (isLast : cells.getLast? = some final) :
    CellsLaid document start cells separators final.extent.stop := by
  induction laid with
  | @last start stop cell filling placed begins ends filled =>
      refine .last placed begins ?_ filled
      rcases List.mem_cons.mp (List.mem_of_mem_getLast? isLast) with rfl | member
      · exact Nat.le_refl _
      · rw [filled final member]
        exact Nat.le_refl _
  | next placed begins ends fits laid ih =>
      rw [List.getLast?_cons_of_ne_nil laid.ne_nil] at isLast
      exact .next placed begins ends fits (ih isLast)

end CellsLaid

/-- The cells of a row stand within its span, in front of its terminator. -/
structure Row.LaidOut (document : Text) (row : Row) : Prop where
  span : row.span.Fits document
  cells : CellsLaid document row.span.start row.cells row.separators row.span.stop
  terminator : ∀ terminator ∈ row.terminator, ∀ cell ∈ row.cells,
    cell.extent.stop ≤ terminator.start

/-- Rows that follow one another without a gap from one offset, up to at most
another. -/
inductive RowsLaid (document : Text) : (start : Nat) → List Row → (stop : Nat) → Prop where
  | nil {start stop : Nat} (ordered : start ≤ stop) : RowsLaid document start [] stop
  | cons {row : Row} {rest : List Row} {stop : Nat} (first : row.LaidOut document)
      (others : RowsLaid document row.span.stop rest stop) :
      RowsLaid document row.span.start (row :: rest) stop

namespace RowsLaid

variable {document : Text} {start stop : Nat} {rows : List Row}

theorem start_le_stop (laid : RowsLaid document start rows stop) : start ≤ stop := by
  induction laid with
  | nil ordered => exact ordered
  | cons first others ih => exact Nat.le_trans first.span.ordered ih

theorem of_mem (laid : RowsLaid document start rows stop) {row : Row} (member : row ∈ rows) :
    row.LaidOut document ∧ start ≤ row.span.start ∧ row.span.stop ≤ stop := by
  induction laid with
  | nil => simp at member
  | cons first others ih =>
      have behind := others.start_le_stop
      rcases List.mem_cons.mp member with rfl | inRest
      · exact ⟨first, Nat.le_refl _, behind⟩
      · have ordered := first.span.ordered
        obtain ⟨laidOut, begins, ends⟩ := ih inRest
        exact ⟨laidOut, by omega, ends⟩

/-- Every row ends before or where a later one starts. -/
theorem pairwise (laid : RowsLaid document start rows stop) :
    rows.Pairwise fun first second => first.span.stop ≤ second.span.start := by
  induction laid with
  | nil => exact .nil
  | cons first others ih =>
      exact List.pairwise_cons.mpr ⟨fun other member => (others.of_mem member).2.1, ih⟩

/-- The first row starts where the rows do. -/
theorem start_of_head? (laid : RowsLaid document start rows stop) {row : Row}
    (isFirst : rows.head? = some row) : row.span.start = start := by
  cases laid with
  | nil => simp at isFirst
  | cons first others =>
      obtain rfl := Option.some.inj isFirst
      rfl

/-- Every later row starts where the row above it ends. -/
theorem start_of_succ (laid : RowsLaid document start rows stop) {index : Nat} {row below : Row}
    (found : rows[index]? = some row) (next : rows[index + 1]? = some below) :
    below.span.start = row.span.stop := by
  induction laid generalizing index with
  | nil => simp at found
  | cons first others ih =>
      cases index with
      | zero =>
          obtain rfl := Option.some.inj found
          refine others.start_of_head? ?_
          rw [List.head?_eq_getElem?]
          exact next
      | succ index => exact ih found next

end RowsLaid

end LatexTabular
