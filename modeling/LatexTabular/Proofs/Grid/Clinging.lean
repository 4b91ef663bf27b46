import LatexTabular.Proofs.Grid.Layout
import LatexTabular.Proofs.Markup.Lookahead
import LatexTabular.Proofs.Sheet.Losses
import LatexTabular.Proofs.Sheet.Tight

/-!
# Rows that cling to what stands in front of them

Without the white space in front of it, the text of a cell may be taken for a part of
the rule or the terminator in front: a letter goes on with the name of the rule, and a
bracket opens an optional group if it is closed anywhere behind.  The tight rows of a
grid are guarded if and only if no row clings (`Grid.guarded_tight_iff`).
-/

namespace LatexTabular

open Text Markup Body

/-- The first character of an entry that is a plain text. -/
def Entry.leading? : Entry → Option Char
  | plain content => content.head?
  | merged _ _ _ => none

/-- Texts with the same number of each group mark have the same group marks. -/
theorem Text.mem_iff_of_countP {left right : Text} {character : Char}
    (mark : IsGroupMark character)
    (same : ∀ test : Char → Bool, (∀ other, test other = true → IsGroupMark other) →
      left.countP test = right.countP test) :
    character ∈ left ↔ character ∈ right := by
  have counts := same (· == character) fun other isMark => by
    rw [beq_iff_eq.mp isMark]
    exact mark
  have left := @List.count_pos_iff _ _ _ character left
  have right := @List.count_pos_iff _ _ _ character right
  rw [← left, ← right, List.count_eq_countP, List.count_eq_countP, counts]

namespace WrittenRow

variable {row : WrittenRow} {rest : Text}

theorem tight_eq {cell : WrittenCell} {others : List WrittenCell}
    (cellsEq : row.cells = cell :: others) :
    row.tight = { row with cells := { cell with before := [] } :: others } := by
  rw [tight, cellsEq]

theorem ruleGaps_tight (row : WrittenRow) : row.tight.ruleGaps = row.ruleGaps := by
  rw [tight]
  split <;> rfl

theorem WellFormed.tight (wellFormed : row.WellFormed) : row.tight.WellFormed := by
  obtain ⟨cell, others, cellsEq⟩ := List.exists_cons_of_ne_nil wellFormed.nonempty
  have cellWellFormed := wellFormed.cells cell (by simp [cellsEq])
  rw [tight_eq cellsEq]
  refine ⟨wellFormed.ruleGaps, List.cons_ne_nil _ _, ?_⟩
  intro other member
  rcases List.mem_cons.mp member with rfl | member
  · exact ⟨isSpace_nil, cellWellFormed.entry, cellWellFormed.after, fun _ => rfl⟩
  · exact wellFormed.cells other (by simp [cellsEq, member])

theorem entries_tight (row : WrittenRow) :
    row.tight.cells.map WrittenCell.entry = row.cells.map WrittenCell.entry := by
  rw [tight]
  split
  next => rfl
  next cellsEq => rw [cellsEq]; rfl

/-- A tight row of which the first entry has no leading character is detached. -/
theorem detached_tight (row : WrittenRow)
    (noLeading : (row.cells.head?.bind (·.entry.leading?)) = none) : row.tight.Detached := by
  intro cell isFirst
  cases cellsEq : row.cells with
  | nil => simp [tight, cellsEq] at isFirst
  | cons first others =>
      rw [tight_eq cellsEq] at isFirst
      rw [cellsEq] at noLeading
      obtain rfl := Option.some.inj isFirst
      refine Or.inr ?_
      intro content (isPlain : first.entry = .plain content)
      simpa [Entry.leading?, isPlain] using noLeading

/-- A tight row with a leading character has it at the front of its cells. -/
theorem exists_cellsText_tight {head : Char}
    (leading : (row.cells.head?.bind (·.entry.leading?)) = some head) :
    ∃ others, cellsText row.tight.cells = head :: others := by
  cases cellsEq : row.cells with
  | nil => simp [cellsEq] at leading
  | cons first others =>
      obtain ⟨before, entry, after⟩ := first
      rw [cellsEq] at leading
      cases entry with
      | merged number specifier content => simp [Entry.leading?] at leading
      | plain content =>
          obtain ⟨behind, rfl⟩ := List.head?_eq_some_iff.mp leading
          rw [tight_eq cellsEq, cellsText_cons]
          exact ⟨_, rfl⟩

/-- What makes the cells of a tight row a part of a terminator in front. -/
theorem optionalGroup?_tight_eq_none_iff (wellFormed : row.WellFormed) :
    optionalGroup? (cellsText row.tight.cells ++ ("\\\\".toList ++ rest)) = none ↔
      ∀ head ∈ row.cells.head?.bind (·.entry.leading?),
        ¬ OpensGroup head (cellsText row.tight.cells ++ ("\\\\".toList ++ rest)) := by
  cases leading : row.cells.head?.bind (·.entry.leading?) with
  | none =>
      have clear := isClear_cellsText_append wellFormed.tight (detached_tight row leading) rest
      exact iff_of_true clear.optionalGroup?_eq_none nofun
  | some head =>
      obtain ⟨others, textEq⟩ := exists_cellsText_tight leading
      rw [textEq, List.cons_append, optionalGroup?_cons_eq_none_iff]
      simp

/-- What makes the cells of a tight row a part of a rule in front. -/
theorem endsRule_tight_iff (wellFormed : row.WellFormed) :
    EndsRule (cellsText row.tight.cells ++ ("\\\\".toList ++ rest)) ↔
      ∀ head ∈ row.cells.head?.bind (·.entry.leading?), ¬ (isLetter head = true
        ∨ OpensGroup head (cellsText row.tight.cells ++ ("\\\\".toList ++ rest))) := by
  have group := @optionalGroup?_tight_eq_none_iff row rest wellFormed
  cases leading : row.cells.head?.bind (·.entry.leading?) with
  | none =>
      have clear := isClear_cellsText_append wellFormed.tight (detached_tight row leading) rest
      exact iff_of_true clear.endsRule nofun
  | some head =>
      obtain ⟨others, textEq⟩ := exists_cellsText_tight leading
      rw [leading] at group
      have first : (cellsText row.tight.cells ++ ("\\\\".toList ++ rest)).head? = some head := by
        rw [textEq]
        rfl
      constructor
      · intro ends other isHead clings
        obtain rfl := Option.some.inj isHead
        rcases clings with letter | opens
        · exact absurd letter (by simp [ends.letter head first])
        · exact group.mp ends.group head rfl opens
      · intro free
        refine ⟨?_, group.mpr fun other isHead opens => free other isHead (Or.inr opens)⟩
        intro character isFirst
        obtain rfl := Option.some.inj (first.symm.trans isFirst)
        by_contra letter
        exact free head rfl (Or.inl (by simpa using letter))

end WrittenRow

namespace Grid

/-- The contents of rows, one after the other. -/
def contents (rows : List Row) : Text := rows.flatMap fun row => row.entries.flatMap Entry.content

/-- Whether a row clings to the rule or the terminator in front of it, where `behind` are
the rows that follow. -/
def Row.Clings (isFirst : Bool) (behind : List Row) (row : Row) : Prop :=
  ∃ head ∈ row.entries.head?.bind Entry.leading?,
    row.rules ≠ 0 ∧ isLetter head = true ∨
      (row.rules ≠ 0 ∨ isFirst = false) ∧ OpensGroup head (contents (row :: behind))

instance {isFirst : Bool} {behind : List Row} {row : Row} : Decidable (row.Clings isFirst behind) :=
  match leading : row.entries.head?.bind Entry.leading? with
  | none => .isFalse (by simp [Row.Clings, leading])
  | some head => decidable_of_iff (row.rules ≠ 0 ∧ isLetter head = true ∨
      (row.rules ≠ 0 ∨ isFirst = false) ∧ OpensGroup head (contents (row :: behind)))
    (by simp [Row.Clings, leading])

/-- Whether one of some rows clings to what stands in front of it.  There is no terminator
in front of the first one. -/
def Clinging : (isFirst : Bool) → List Row → Prop
  | _, [] => False
  | isFirst, row :: rest => row.Clings isFirst rest ∨ Clinging false rest

instance decidableClinging :
    (isFirst : Bool) → (rows : List Row) → Decidable (Clinging isFirst rows)
  | _, [] => inferInstanceAs (Decidable False)
  | isFirst, row :: rest =>
      have := decidableClinging false rest
      inferInstanceAs (Decidable (row.Clings isFirst rest ∨ Clinging false rest))

/-- A row of a grid without the white space in front of its first cell. -/
def Row.tightened (row : Row) : WrittenRow := row.written.tight

theorem entryContents_tightened (rows : List Row) :
    entryContents (rows.map Row.tightened) = contents rows := by
  rw [entryContents, contents, List.flatMap_map]
  refine List.flatMap_congr fun row _ => ?_
  have entries : row.tightened.cells.map WrittenCell.entry = row.entries := by
    rw [Row.tightened, WrittenRow.entries_tight, Row.written, map_entry_spacedCells]
  conv => rhs; rw [← entries, List.flatMap_map]

theorem Row.leading?_written (row : Row) :
    row.written.cells.head?.bind (·.entry.leading?) = row.entries.head?.bind Entry.leading? := by
  have entries := map_entry_spacedCells row.entries
  conv => rhs; rw [← entries, List.head?_map, Option.bind_map]
  rfl

section Tightened

variable {columnCount : Nat} {closing : Text} {rows : List Row}

/-- A group mark that stands behind the start of the cells of a tight row stands in some
content from there on. -/
theorem mem_tightened_iff {row : Row} {character : Char} (mark : IsGroupMark character)
    (wellFormed : ∀ other ∈ row :: rows, other.tightened.WellFormed)
    (noMarks : ∀ test : Char → Bool, (∀ other, test other = true → IsGroupMark other) →
      closing.countP test = 0) :
    character ∈ cellsText row.tightened.cells
        ++ ("\\\\".toList ++ (Sheet.rowsText (rows.map Row.tightened) ++ closing)) ↔
      character ∈ contents (row :: rows) := by
  refine mem_iff_of_countP mark fun test marks => ?_
  have terminator : "\\\\".toList.countP test = 0 :=
    countP_eq_zero_of_notMem marks (by decide)
  have first := countP_cellsText marks (wellFormed row List.mem_cons_self).cells
  have others := countP_rowsText marks fun other (member : other ∈ rows.map Row.tightened) => by
    obtain ⟨own, isRow, rfl⟩ := List.mem_map.mp member
    exact wellFormed own (List.mem_cons_of_mem _ isRow)
  have whole := entryContents_tightened (row :: rows)
  have parts : entryContents ((row :: rows).map Row.tightened)
      = row.tightened.cells.flatMap (·.entry.content)
        ++ entryContents (rows.map Row.tightened) := rfl
  rw [← whole, parts]
  simp only [List.countP_append, terminator, first, others, noMarks test marks, Nat.zero_add,
    Nat.add_zero]

theorem opensGroup_tightened_iff {row : Row} {head : Char}
    (wellFormed : ∀ other ∈ row :: rows, other.tightened.WellFormed)
    (noMarks : ∀ test : Char → Bool, (∀ other, test other = true → IsGroupMark other) →
      closing.countP test = 0) :
    OpensGroup head (cellsText row.tightened.cells
        ++ ("\\\\".toList ++ (Sheet.rowsText (rows.map Row.tightened) ++ closing))) ↔
      OpensGroup head (contents (row :: rows)) := by
  rw [OpensGroup, OpensGroup,
    mem_tightened_iff (Or.inr (Or.inl rfl)) wellFormed noMarks,
    mem_tightened_iff (Or.inr (Or.inr (Or.inr rfl))) wellFormed noMarks]

/-- What keeps a tight row from clinging to what stands in front of it. -/
theorem not_clings_iff {isFirst : Bool} {row : Row} (rowWellFormed : row.written.WellFormed)
    (wellFormed : ∀ other ∈ row :: rows, other.tightened.WellFormed)
    (noMarks : ∀ test : Char → Bool, (∀ other, test other = true → IsGroupMark other) →
      closing.countP test = 0) :
    ((row.tightened.ruleGaps ≠ [] → EndsRule (cellsText row.tightened.cells
        ++ ("\\\\".toList ++ (Sheet.rowsText (rows.map Row.tightened) ++ closing)))) ∧
      (isFirst = true ∨ optionalGroup? (Sheet.rowsText ((row :: rows).map Row.tightened)
        ++ closing) = none)) ↔ ¬ row.Clings isFirst rows := by
  have opens (head : Char) := @opensGroup_tightened_iff closing rows row head wellFormed noMarks
  have ends := @WrittenRow.endsRule_tight_iff row.written
    (Sheet.rowsText (rows.map Row.tightened) ++ closing) rowWellFormed
  have free := @WrittenRow.optionalGroup?_tight_eq_none_iff row.written
    (Sheet.rowsText (rows.map Row.tightened) ++ closing) rowWellFormed
  have gaps : row.tightened.ruleGaps = List.replicate row.rules ['\n'] :=
    row.written.ruleGaps_tight
  have textEq : Sheet.rowsText ((row :: rows).map Row.tightened) ++ closing
      = rulesText row.tightened.ruleGaps ++ (cellsText row.tightened.cells
        ++ ("\\\\".toList ++ (Sheet.rowsText (rows.map Row.tightened) ++ closing))) := by
    simp [Sheet.rowsText_cons, WrittenRow.text]
  rw [row.leading?_written] at ends free
  change EndsRule (cellsText row.tightened.cells ++ _) ↔ ∀ head ∈ _,
    ¬ (_ ∨ OpensGroup head (cellsText row.tightened.cells ++ _)) at ends
  change optionalGroup? (cellsText row.tightened.cells ++ _) = none ↔ ∀ head ∈ _,
    ¬ OpensGroup head (cellsText row.tightened.cells ++ _) at free
  simp only [opens] at ends free
  rw [textEq, Row.Clings]
  by_cases noRules : row.rules = 0
  · rw [noRules] at gaps
    have none : rulesText row.tightened.ruleGaps = [] := by
      rw [gaps]
      rfl
    rw [none, List.nil_append, free, gaps]
    cases isFirst <;> simp [noRules]
  · have nonempty : row.tightened.ruleGaps ≠ [] := by
      rw [gaps]
      simpa using noRules
    have clear := @isClear_rulesText_append _ (cellsText row.tightened.cells
        ++ ("\\\\".toList ++ (Sheet.rowsText (rows.map Row.tightened) ++ closing)))
      (wellFormed row List.mem_cons_self).ruleGaps nonempty
    rw [clear.optionalGroup?_eq_none, ends]
    simp [noRules, nonempty]

/-- Tight rows are guarded if and only if none of them clings. -/
theorem guarded_tightened_iff {isFirst : Bool} (clear : closing.IsClear)
    (written : ∀ row ∈ rows, row.written.WellFormed)
    (noMarks : ∀ test : Char → Bool, (∀ other, test other = true → IsGroupMark other) →
      closing.countP test = 0) :
    (Guarded closing (rows.map Row.tightened) ∧ (isFirst = true ∨
      optionalGroup? (Sheet.rowsText (rows.map Row.tightened) ++ closing) = none)) ↔
        ¬ Clinging isFirst rows := by
  induction rows generalizing isFirst with
  | nil => exact iff_of_true ⟨trivial, Or.inr clear.optionalGroup?_eq_none⟩ not_false
  | cons row rest ih =>
      have others := @ih false fun other member => written other (List.mem_cons_of_mem _ member)
      have first := @not_clings_iff closing rest isFirst row (written row List.mem_cons_self)
        (fun other member => (written other member).tight) noMarks
      simp only [Bool.false_eq_true, false_or] at others
      rw [Clinging, not_or, ← others, ← first, List.map_cons, Guarded]
      constructor
      · rintro ⟨⟨ruleEnds, rowEnds, guarded⟩, atFront⟩
        exact ⟨⟨ruleEnds, atFront⟩, guarded, rowEnds⟩
      · rintro ⟨⟨ruleEnds, atFront⟩, guarded, rowEnds⟩
        exact ⟨⟨ruleEnds, rowEnds, guarded⟩, atFront⟩

end Tightened

end Grid

end LatexTabular
