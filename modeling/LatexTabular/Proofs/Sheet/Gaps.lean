import LatexTabular.Proofs.Sheet.Shrinking

/-!
# Runs of cells that go

A run of neighbouring cells goes with one separator.  What stands around the run
closes up: the white space behind its last cell goes to the cell in front, or else
the white space in front of its first cell to the cell behind (`closeGap`).
-/

namespace LatexTabular

open Text

variable {left right : Nat}

/-- The cells that stay when a run of cells goes.  One blank cell stays of all. -/
def closeGap (before removed behind : List WrittenCell) : List WrittenCell :=
  match removed.head?, removed.getLast? with
  | some first, some last =>
      match before.getLast?, behind with
      | some previous, _ => before.dropLast ++ ({ previous with after := last.after } :: behind)
      | none, next :: rest => next.indented first.before :: rest
      | none, [] => [⟨[], .blank, first.before ++ last.after⟩]
  | _, _ => before ++ behind

section Equations

variable (before removed behind : List WrittenCell) (previous first last next : WrittenCell)

theorem closeGap_nil : closeGap before [] behind = before ++ behind := rfl

theorem closeGap_of_previous :
    closeGap (before ++ [previous]) (removed ++ [last]) behind
      = before ++ ({ previous with after := last.after } :: behind) := by
  have someFirst : ∃ first, (removed ++ [last]).head? = some first := by
    cases removed <;> exact ⟨_, rfl⟩
  obtain ⟨first, isFirst⟩ := someFirst
  simp [closeGap, isFirst]

theorem closeGap_of_next :
    closeGap [] (first :: removed) (next :: behind) = next.indented first.before :: behind := by
  have someLast := List.getLast?_eq_some_getLast (List.cons_ne_nil first removed)
  simp only [closeGap, someLast, List.head?_cons, List.getLast?_nil]

theorem closeGap_of_all (isFirst : (removed ++ [last]).head? = some first) :
    closeGap [] (removed ++ [last]) [] = [⟨[], .blank, first.before ++ last.after⟩] := by
  simp [closeGap, isFirst]

end Equations

/-- Where an entry ends that stands behind some cells. -/
def entryStop (start : Nat) (before : List WrittenCell) (cell : WrittenCell) : Nat :=
  start + (frontText before).size + cell.before.size + cell.entry.text.size

theorem frontText_singleton (cell : WrittenCell) : frontText [cell] = cell.text ++ ['&'] := by
  simp [frontText]

/-- Cells that stand at a run: the text of the cell in front, the text that goes, and
what stays behind it. -/
theorem cellsText_around_run (before removed behind : List WrittenCell)
    (previous last : WrittenCell) :
    cellsText (before ++ [previous] ++ (removed ++ [last] ++ behind))
      = frontText before ++ ((previous.before ++ previous.entry.text)
        ++ ((previous.after ++ ['&'] ++ frontText removed ++ (last.before ++ last.entry.text))
          ++ (last.after ++ backText behind))) := by
  have parts : before ++ [previous] ++ (removed ++ [last] ++ behind)
      = before ++ [previous] ++ removed ++ last :: behind := by simp
  rw [parts, cellsText_append_cons, frontText_append, frontText_append, frontText_singleton]
  simp [WrittenCell.text]

/-- A run of cells goes with the separator in front of it. -/
theorem rewrites_closeGap_of_previous {start index first index' first' : Nat}
    {before removed behind : List WrittenCell} {previous last : WrittenCell}
    (beforeWellFormed : ∀ cell ∈ before ++ [previous], cell.WellFormed)
    (behindWellFormed : ∀ cell ∈ behind, cell.WellFormed) :
    Rewrites start (cellsText (before ++ [previous] ++ (removed ++ [last] ++ behind)))
      (shrinkEdits left right index first (layCells start (before ++ [previous]))
        ++ ([.deletion ⟨entryStop start before previous,
            entryStop start (before ++ [previous] ++ removed) last⟩]
          ++ shrinkEdits left right index' first' (layCells
            (start + (frontText (before ++ [previous] ++ (removed ++ [last]))).size) behind)))
      (cellsText (closeGap (shrunkCells left right first (before ++ [previous]))
        (removed ++ [last]) (shrunkCells left right first' behind))) := by
  have separator : Text.size ['&'] = 1 := by decide
  have goes : previous.after ++ ['&'] ++ frontText removed ++ (last.before ++ last.entry.text) ≠ []
      := by simp
  have widths := totalWidth_layCells start before
  have startEq : start + (frontText before).size + (previous.before ++ previous.entry.text).size
      = entryStop start before previous := by
    simp only [entryStop, Text.size_append, Nat.add_assoc]
  have stopEq : entryStop start before previous
      + (previous.after ++ ['&'] ++ frontText removed ++ (last.before ++ last.entry.text)).size
        = entryStop start (before ++ [previous] ++ removed) last := by
    simp only [entryStop, frontText_append, frontText_singleton, WrittenCell.text,
      Text.size_append, Nat.add_assoc]
  have behindEq : entryStop start (before ++ [previous] ++ removed) last + last.after.size + 1
      = start + (frontText (before ++ [previous] ++ (removed ++ [last]))).size := by
    simp only [entryStop, frontText_append, frontText_singleton, WrittenCell.text,
      Text.size_append, Nat.add_assoc, separator]
  have front := @rewrites_frontText_shrunk left right before
    (fun cell member => beforeWellFormed cell (List.mem_append_left _ member)) start index first
  have entry := @Entry.rewrites_shrunk left right _
    (beforeWellFormed previous (by simp)).entry
    (start + (frontText before).size + previous.before.size)
    (index + (layCells start before).length) (first + Row.totalWidth (layCells start before))
  have deleted := Rewrites.deletion
    (start + (frontText before).size + (previous.before ++ previous.entry.text).size) goes
  have stays := @rewrites_backText_shrunk left right behind behindWellFormed
    (entryStop start (before ++ [previous] ++ removed) last + last.after.size) index' first'
  rw [startEq, stopEq] at deleted
  have whole := front.append (((Rewrites.refl _ previous.before).append entry).append_of_eq startEq
    (deleted.append_of_eq stopEq ((Rewrites.refl _ last.after).append stays)))
  have edits : shrinkEdits left right index first (layCells start (before ++ [previous]))
      = shrinkEdits left right index first (layCells start before)
        ++ (Plan.shrink? left right (index + (layCells start before).length,
          ⟨first + Row.totalWidth (layCells start before),
            first + Row.totalWidth (layCells start before) + previous.entry.width - 1⟩,
          previous.entry.laid (start + (frontText before).size + previous.before.size))).toList := by
    rw [layCells_append, layCells_cons, shrinkEdits_append, shrinkEdits_cons, Entry.width_laid]
    exact congrArg _ (List.append_nil _)
  rw [cellsText_around_run, edits, shrunkCells_append, shrunkCells, shrunkCells,
    closeGap_of_previous, cellsText_append_cons, ← widths, ← behindEq]
  simpa [WrittenCell.text] using whole

/-- A run of cells at the front goes with the separator behind it. -/
theorem rewrites_closeGap_of_next {start index' first' : Nat}
    {removed behind : List WrittenCell} {first next : WrittenCell}
    (behindWellFormed : ∀ cell ∈ next :: behind, cell.WellFormed) :
    Rewrites start (cellsText (first :: removed ++ next :: behind))
      ([.deletion ⟨start + first.before.size, start + (frontText (first :: removed)).size⟩]
        ++ shrinkEdits left right index' first' (layCells
          (start + (frontText (first :: removed)).size) (next :: behind)))
      (cellsText (closeGap [] (first :: removed)
        (shrunkCells left right first' (next :: behind)))) := by
  have nextWellFormed := behindWellFormed next List.mem_cons_self
  have frontEq : frontText (first :: removed)
      = first.before ++ (first.entry.text ++ first.after ++ '&' :: frontText removed) := by
    rw [frontText_cons]
    simp [WrittenCell.text]
  have goes : first.entry.text ++ first.after ++ '&' :: frontText removed ≠ [] := by simp
  have stopEq : start + first.before.size
      + Text.size (first.entry.text ++ first.after ++ '&' :: frontText removed)
        = start + (frontText (first :: removed)).size := by
    simp only [frontEq, Text.size_append, Nat.add_assoc]
  have deleted := Rewrites.deletion (start + first.before.size) goes
  have nextStays := @WrittenCell.rewrites_shrunk left right next nextWellFormed
    (start + (frontText (first :: removed)).size) index' first'
  have behindStays := @rewrites_backText_shrunk left right behind
    (fun cell member => behindWellFormed cell (List.mem_cons_of_mem _ member))
    (start + (frontText (first :: removed)).size + next.text.size) (index' + 1)
    (first' + next.entry.width)
  rw [stopEq] at deleted
  have whole := (Rewrites.refl start first.before).append
    (deleted.append_of_eq stopEq (nextStays.append behindStays))
  have indented := @WrittenCell.text_indented
    { next with entry := next.entry.shrunk left right first' }
    (fun empty => nextWellFormed.anchored (Entry.text_eq_nil_of_shrunk empty)) first.before
  rw [cellsText_append_cons, layCells_cons, shrinkEdits_cons, Entry.width_laid, shrunkCells,
    closeGap_of_next, cellsText_cons, indented]
  conv => arg 2; rw [frontEq]
  simpa using whole

/-- All cells give way to a blank one. -/
theorem rewrites_closeGap_of_all {start : Nat} {removed : List WrittenCell}
    {first last : WrittenCell} (isFirst : (removed ++ [last]).head? = some first) :
    Rewrites start (cellsText (removed ++ [last]))
      (if (⟨start + first.before.size, entryStop start removed last⟩ : Span).isEmpty then []
        else [.deletion ⟨start + first.before.size, entryStop start removed last⟩])
      (cellsText (closeGap [] (removed ++ [last]) [])) := by
  obtain ⟨middle, sourceEq, stopEq⟩ : ∃ middle : Text,
      cellsText (removed ++ [last]) = first.before ++ (middle ++ last.after) ∧
        entryStop start removed last = start + first.before.size + middle.size := by
    cases removed with
    | nil =>
        obtain rfl := Option.some.inj isFirst
        refine ⟨last.entry.text, by simp [cellsText, WrittenCell.text], ?_⟩
        simp [entryStop]
    | cons head rest =>
        obtain rfl := Option.some.inj isFirst
        refine ⟨head.entry.text ++ head.after ++ '&' :: frontText rest
          ++ (last.before ++ last.entry.text), ?_, ?_⟩
        · rw [cellsText_append_cons, frontText_cons]
          simp [WrittenCell.text]
        · simp only [entryStop, frontText_cons, WrittenCell.text, Text.size_append,
            Text.size_cons, Nat.add_assoc]
  have target : cellsText (closeGap [] (removed ++ [last]) [])
      = first.before ++ ([] ++ last.after) := by
    rw [closeGap_of_all _ _ _ isFirst]
    simp [cellsText, WrittenCell.text, Entry.blank, Entry.text]
  rw [sourceEq, target, stopEq]
  by_cases empty : middle = []
  · subst empty
    have nothing : (⟨start + first.before.size, start + first.before.size + Text.size []⟩
        : Span).isEmpty = true := by simp [Span.isEmpty]
    rw [nothing]
    exact .refl _ _
  · have some : (⟨start + first.before.size, start + first.before.size + middle.size⟩
        : Span).isEmpty = false := by
      have positive := Text.size_pos_of_ne_nil empty
      simp only [Span.isEmpty, decide_eq_false_iff_not]
      omega
    have deleted := Rewrites.deletion (start + first.before.size) empty
    have whole := (Rewrites.refl start first.before).append (deleted.append (.refl _ last.after))
    rw [some]
    exact whole

end LatexTabular
