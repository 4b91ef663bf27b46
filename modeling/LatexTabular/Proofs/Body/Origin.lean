import LatexTabular.Proofs.Body.Rows

/-!
# What the parts of a row are made of

Each cell, separator, terminator and rule of a row comes from lexemes of the body
(`madeOf_rowsOf`), so that whatever tells lexemes of a chain apart tells the parts of a
table apart.
-/

namespace LatexTabular

open Body

namespace Body

section Segments

variable {α : Type}

/-- Only the elements that close a part are closing elements. -/
theorem segments_inside (ends : α → Bool) (list : List α) :
    (∀ part ∈ (segments ends list).1, (∀ item ∈ part.1, ends item = false) ∧ ends part.2 = true) ∧
      ∀ item ∈ (segments ends list).2, ends item = false := by
  induction list with
  | nil => simp [segments]
  | cons head rest ih =>
      obtain ⟨closedInside, lastInside⟩ := ih
      by_cases closes : ends head = true
      · simp only [segments, closes, if_true]
        exact ⟨List.forall_mem_cons.mpr ⟨⟨by simp, closes⟩, closedInside⟩, lastInside⟩
      · have stays : ends head = false := by simpa using closes
        cases closedEq : (segments ends rest).1 with
        | nil =>
            simp only [segments, closedEq, stays]
            exact ⟨by simp, List.forall_mem_cons.mpr ⟨stays, lastInside⟩⟩
        | cons first others =>
            rw [closedEq] at closedInside
            obtain ⟨firstInside, othersInside⟩ := List.forall_mem_cons.mp closedInside
            simp only [segments, closedEq, stays]
            refine ⟨List.forall_mem_cons.mpr ⟨⟨?_, firstInside.2⟩, othersInside⟩, lastInside⟩
            exact List.forall_mem_cons.mpr ⟨stays, firstInside.1⟩

/-- An element of a list closes a part of it, or stands in one or behind them all. -/
theorem mem_segments (ends : α → Bool) {list : List α} {item : α} (member : item ∈ list) :
    (∃ part ∈ (segments ends list).1, item ∈ part.1 ∨ item = part.2) ∨
      item ∈ (segments ends list).2 := by
  rw [← segments_flatten ends list] at member
  simpa [List.mem_flatMap] using member

end Segments

/-- An offset at which a body that starts at `start` may be cut: its start or the end of
a lexeme. -/
def IsCut (start : Nat) (lexemes : List Lexeme) (offset : Nat) : Prop :=
  offset = start ∨ ∃ lexeme ∈ lexemes, lexeme.stop = offset

end Body

/-- A cell of a body that starts at `start`: blank where the body may be cut, or made of
consecutive lexemes of which the first and the last fill it. -/
inductive Cell.MadeOf (start : Nat) (lexemes : List Lexeme) : Cell → Prop where
  | blank {offset : Nat} (isCut : IsCut start lexemes offset) : MadeOf start lexemes (.blank offset)
  | plain {part : List Lexeme} {first last : Lexeme} (isPart : part <:+: lexemes)
      (isFirst : part.head? = some first) (isLast : part.getLast? = some last)
      (fillsFirst : first.kind.fillsCell = true) (fillsLast : last.kind.fillsCell = true) :
      MadeOf start lexemes
        ⟨part.flatMap Lexeme.text, ⟨first.start, last.stop⟩, ⟨first.start, last.stop⟩, none⟩
  | merged {part : List Lexeme} {first last : Lexeme} {parts : MergeText}
      (isPart : part <:+: lexemes) (isFirst : part.head? = some first)
      (isLast : part.getLast? = some last) (isMerge : first.kind = .merge parts)
      (fillsLast : last.kind.fillsCell = true) :
      MadeOf start lexemes
        { content := Text.trim parts.content
          contentSpan := Text.trimmedSpan (first.start + parts.preamble.size) parts.content
          extent := ⟨first.start, last.stop⟩
          merge := some (parts.place first.start) }

/-- A row whose parts come from the lexemes of a body that starts at `start`. -/
structure Row.MadeOf (start : Nat) (lexemes : List Lexeme) (row : Row) : Prop where
  cells : ∀ cell ∈ row.cells, cell.MadeOf start lexemes
  separators : ∀ separator ∈ row.separators,
    ∃ lexeme ∈ lexemes, lexeme.kind = .separator ∧ separator = lexeme.span
  terminator : ∀ terminator, row.terminator = some terminator →
    terminator.stop = row.span.stop ∧
      ∃ lexeme ∈ lexemes, lexeme.kind = .terminator ∧ terminator = lexeme.span
  rules : ∀ rule ∈ row.rules, ∃ lexeme ∈ lexemes, lexeme.kind = .rule ∧ rule = lexeme.span

namespace Cell.MadeOf

variable {start : Nat} {lexemes : List Lexeme} {cell : Cell}

/-- A cell ends where the body may be cut. -/
theorem isCut_stop (madeOf : cell.MadeOf start lexemes) : IsCut start lexemes cell.extent.stop := by
  cases madeOf with
  | blank isCut => exact isCut
  | plain isPart isFirst isLast =>
      exact Or.inr ⟨_, isPart.subset (List.mem_of_mem_getLast? isLast), rfl⟩
  | merged isPart isFirst isLast =>
      exact Or.inr ⟨_, isPart.subset (List.mem_of_mem_getLast? isLast), rfl⟩

/-- The merge of a cell is read from one lexeme. -/
theorem exists_lexeme_of_merge (madeOf : cell.MadeOf start lexemes) {merge : Merge}
    (merged : cell.merge = some merge) :
    ∃ lexeme ∈ lexemes, ∃ parts, lexeme.kind = .merge parts ∧ merge = parts.place lexeme.start := by
  cases madeOf with
  | blank => simp [Cell.blank] at merged
  | plain => simp at merged
  | merged isPart isFirst isLast isMerge =>
      obtain rfl := Option.some.inj merged
      exact ⟨_, isPart.subset (List.mem_of_mem_head? isFirst), _, isMerge, rfl⟩

/-- A cell of a part of a body is a cell of the body. -/
theorem mono (madeOf : cell.MadeOf start lexemes) {wider : Nat} {others : List Lexeme}
    (cuts : ∀ offset, IsCut start lexemes offset → IsCut wider others offset)
    (within : lexemes <:+: others) : cell.MadeOf wider others := by
  cases madeOf with
  | blank isCut => exact .blank (cuts _ isCut)
  | plain isPart isFirst isLast fillsFirst fillsLast =>
      exact .plain (isPart.trans within) isFirst isLast fillsFirst fillsLast
  | merged isPart isFirst isLast isMerge fillsLast =>
      exact .merged (isPart.trans within) isFirst isLast isMerge fillsLast

end Cell.MadeOf

namespace Row.MadeOf

variable {start : Nat} {lexemes : List Lexeme} {row : Row}

theorem mono (madeOf : row.MadeOf start lexemes) {wider : Nat} {others : List Lexeme}
    (cuts : ∀ offset, IsCut start lexemes offset → IsCut wider others offset)
    (within : lexemes <:+: others) : row.MadeOf wider others := by
  refine ⟨fun cell isCell => (madeOf.cells cell isCell).mono cuts within, ?_, ?_, ?_⟩
  · intro separator isSeparator
    obtain ⟨lexeme, member, related⟩ := madeOf.separators separator isSeparator
    exact ⟨lexeme, within.subset member, related⟩
  · intro terminator isTerminator
    obtain ⟨stopEq, lexeme, member, related⟩ := madeOf.terminator terminator isTerminator
    exact ⟨stopEq, lexeme, within.subset member, related⟩
  · intro rule isRule
    obtain ⟨lexeme, member, related⟩ := madeOf.rules rule isRule
    exact ⟨lexeme, within.subset member, related⟩

/-- Rules behind the last row come from lexemes as its own do. -/
theorem withRules (madeOf : row.MadeOf start lexemes) {last : List Lexeme}
    (within : last ⊆ lexemes) :
    Row.MadeOf start lexemes
      { row with rules := row.rules ++ (rulesOf last).map Lexeme.span } := by
  refine ⟨madeOf.cells, madeOf.separators, madeOf.terminator, fun rule isRule => ?_⟩
  rcases List.mem_append.mp isRule with isRule | isRule
  · exact madeOf.rules rule isRule
  · obtain ⟨lexeme, member, rfl⟩ := List.mem_map.mp isRule
    obtain ⟨inLast, isRule⟩ := List.mem_filter.mp member
    exact ⟨lexeme, within inLast, by simpa using isRule, rfl⟩

/-- Blank cells fill a row where the body may be cut. -/
theorem padded (madeOf : row.MadeOf start lexemes) (nonempty : row.cells ≠ [])
    (columnCount : Nat) : (row.padded columnCount).MadeOf start lexemes := by
  refine ⟨fun cell isCell => ?_, madeOf.separators, madeOf.terminator, madeOf.rules⟩
  rcases List.mem_append.mp isCell with written | filling
  · exact madeOf.cells cell written
  · rw [List.eq_of_mem_replicate filling, List.getLast?_eq_some_getLast nonempty]
    exact .blank (madeOf.cells _ (List.getLast_mem nonempty)).isCut_stop

end Row.MadeOf

namespace Body

variable {start : Nat} {closed : List (List Lexeme × Lexeme)} {lexemes last : List Lexeme}

/-- The first lexeme of the filled part of lexemes fills the cell. -/
theorem fillsCell_of_head? {first : Lexeme} (isFirst : (filledPart lexemes).head? = some first) :
    first.kind.fillsCell = true := by
  obtain ⟨rest, filledEq⟩ := List.head?_eq_some_iff.mp isFirst
  obtain ⟨back, whole⟩ : filledPart lexemes <+: lexemes.dropWhile (!·.kind.fillsCell) :=
    List.rdropWhile_prefix _ _
  have kept : (lexemes.dropWhile (!·.kind.fillsCell)).head? = some first := by
    rw [← whole, filledEq]
    rfl
  have stops := List.head?_dropWhile_not (!·.kind.fillsCell) lexemes
  simpa [kept] using stops

/-- So does the last one. -/
theorem fillsCell_of_getLast? {final : Lexeme}
    (isLast : (filledPart lexemes).getLast? = some final) : final.kind.fillsCell = true := by
  rw [filledPart, List.getLast?_reverse] at isLast
  have stops := List.head?_dropWhile_not (!·.kind.fillsCell)
    (lexemes.dropWhile (!·.kind.fillsCell)).reverse
  simpa [isLast] using stops

theorem madeOf_cellOf (start : Nat) (lexemes : List Lexeme) :
    (cellOf start lexemes).MadeOf start lexemes := by
  have isPart := filledPart_isInfix lexemes
  rcases cellOf_cases start lexemes with
    ⟨first, final, parts, isFirst, isLast, isMerge, cellEq⟩ | ⟨first, final, isFirst, isLast, cellEq⟩
      | ⟨-, cellEq⟩ <;> rw [cellEq]
  · exact .merged isPart isFirst isLast isMerge (fillsCell_of_getLast? isLast)
  · exact .plain isPart isFirst isLast (fillsCell_of_head? isFirst)
      (fillsCell_of_getLast? isLast)
  · refine .blank ?_
    cases found : (rulesOf lexemes).getLast? with
    | none => exact Or.inl rfl
    | some rule =>
        exact Or.inr ⟨rule, (List.mem_filter.mp (List.mem_of_mem_getLast? found)).1, rfl⟩

/-- What follows the first closed part is cut where the whole is cut. -/
theorem IsCut.of_cons {part : List Lexeme × Lexeme} {offset : Nat}
    (isCut : IsCut part.2.stop (closed.flatMap (fun part => part.1 ++ [part.2]) ++ last) offset) :
    IsCut start ((part :: closed).flatMap (fun part => part.1 ++ [part.2]) ++ last) offset := by
  rcases isCut with rfl | ⟨lexeme, member, rfl⟩
  · exact Or.inr ⟨part.2, by simp, rfl⟩
  · refine Or.inr ⟨lexeme, ?_, rfl⟩
    rw [List.flatMap_cons, List.append_assoc]
    exact List.mem_append_right _ member

theorem isInfix_of_cons {part : List Lexeme × Lexeme} :
    closed.flatMap (fun part => part.1 ++ [part.2]) ++ last
      <:+: (part :: closed).flatMap (fun part => part.1 ++ [part.2]) ++ last := by
  rw [List.flatMap_cons, List.append_assoc]
  exact (List.suffix_append _ _).isInfix

theorem isPrefix_of_cons (part : List Lexeme × Lexeme) (closed : List (List Lexeme × Lexeme))
    (last : List Lexeme) :
    part.1 ++ [part.2]
      <+: (part :: closed).flatMap (fun part => part.1 ++ [part.2]) ++ last := by
  rw [List.flatMap_cons, List.append_assoc]
  exact List.prefix_append _ _

theorem IsCut.mono {others : List Lexeme} {offset : Nat} (isCut : IsCut start lexemes offset)
    (within : lexemes ⊆ others) : IsCut start others offset :=
  isCut.imp_right fun ⟨lexeme, member, stopEq⟩ => ⟨lexeme, within member, stopEq⟩

theorem madeOf_of_mem_cellsOf {cell : Cell} (member : cell ∈ cellsOf start closed last) :
    cell.MadeOf start (closed.flatMap (fun part => part.1 ++ [part.2]) ++ last) := by
  induction closed generalizing start with
  | nil =>
      obtain rfl := List.mem_singleton.mp member
      exact madeOf_cellOf start last
  | cons part rest ih =>
      rcases List.mem_cons.mp member with rfl | inRest
      · have within := (List.prefix_append part.1 [part.2]).trans
          (isPrefix_of_cons part rest last)
        exact (madeOf_cellOf start part.1).mono (fun _ isCut => isCut.mono within.subset)
          within.isInfix
      · exact (ih inRest).mono (fun _ isCut => isCut.of_cons) isInfix_of_cons

theorem madeOf_rowOf (start : Nat) (lexemes : List Lexeme) (terminator : Option Lexeme)
    (closes : ∀ lexeme ∈ terminator, lexeme.kind = .terminator) :
    (rowOf start lexemes terminator).MadeOf start (lexemes ++ terminator.toList) := by
  have flat := segments_flatten (·.kind == .separator) lexemes
  refine ⟨?_, ?_, ?_, ?_⟩
  · intro cell isCell
    have madeOf := madeOf_of_mem_cellsOf isCell
    rw [flat] at madeOf
    have within := List.prefix_append lexemes terminator.toList
    exact madeOf.mono (fun _ isCut => isCut.mono within.subset) within.isInfix
  · intro separator isSeparator
    obtain ⟨part, isPart, rfl⟩ := List.mem_map.mp isSeparator
    have inLexemes : part.2 ∈ lexemes := by
      rw [← flat]
      exact List.mem_append_left _ (List.mem_flatMap.mpr ⟨part, isPart, by simp⟩)
    have closesCell := ((segments_inside (·.kind == .separator) lexemes).1 part isPart).2
    exact ⟨part.2, List.mem_append_left _ inLexemes, by simpa using closesCell, rfl⟩
  · intro span isTerminator
    obtain ⟨lexeme, rfl, rfl⟩ := Option.map_eq_some_iff.mp isTerminator
    exact ⟨rfl, lexeme, by simp, closes lexeme rfl, rfl⟩
  · intro rule isRule
    obtain ⟨lexeme, member, rfl⟩ := List.mem_map.mp isRule
    obtain ⟨inLexemes, isRule⟩ := List.mem_filter.mp member
    exact ⟨lexeme, List.mem_append_left _ inLexemes, by simpa using isRule, rfl⟩

theorem madeOf_of_mem_rowsFrom {row : Row} (closes : ∀ part ∈ closed, part.2.kind = .terminator)
    (member : row ∈ rowsFrom start closed last) :
    row.MadeOf start (closed.flatMap (fun part => part.1 ++ [part.2]) ++ last) := by
  have ofPart {part : List Lexeme × Lexeme} (start : Nat) (others : List (List Lexeme × Lexeme))
      (closesPart : part.2.kind = .terminator) :
      (rowOf start part.1 (some part.2)).MadeOf start
        ((part :: others).flatMap (fun part => part.1 ++ [part.2]) ++ last) := by
    have within := isPrefix_of_cons part others last
    have madeOf := madeOf_rowOf start part.1 (some part.2) (by simpa using closesPart)
    exact madeOf.mono (fun _ isCut => isCut.mono within.subset) within.isInfix
  induction start, closed using rowsFrom_induction last with
  | row start isRow rowsEq =>
      rw [rowsEq] at member
      obtain rfl := List.mem_singleton.mp member
      simpa using madeOf_rowOf start last none (by simp)
  | nothing start noRow rowsEq => simp [rowsEq] at member
  | rules start lexemes terminator noRow rowsEq =>
      rw [rowsEq] at member
      obtain rfl := List.mem_singleton.mp member
      refine (ofPart start [] (closes _ List.mem_cons_self)).withRules ?_
      exact fun lexeme inLast => List.mem_append_right _ inLast
  | cons start lexemes terminator rest _ rowsEq ih =>
      rw [rowsEq] at member
      rcases List.mem_cons.mp member with rfl | member
      · exact ofPart start rest (closes _ List.mem_cons_self)
      · have madeOf := ih (fun part isPart => closes part (List.mem_cons_of_mem _ isPart)) member
        exact madeOf.mono (fun _ isCut => isCut.of_cons) isInfix_of_cons

/-- Every row has the terminator that closes it, and only a last row may have none. -/
theorem map_terminator_rowsFrom (start : Nat) (closed : List (List Lexeme × Lexeme))
    (last : List Lexeme) :
    ∃ unterminated, (unterminated = [] ∨ unterminated = [none]) ∧
      (rowsFrom start closed last).map (·.terminator)
        = closed.map (fun part => some part.2.span) ++ unterminated := by
  induction start, closed using rowsFrom_induction last with
  | row start isRow rowsEq => exact ⟨[none], Or.inr rfl, by rw [rowsEq]; rfl⟩
  | nothing start noRow rowsEq => exact ⟨[], Or.inl rfl, by rw [rowsEq]; rfl⟩
  | rules start lexemes terminator noRow rowsEq => exact ⟨[], Or.inl rfl, by rw [rowsEq]; rfl⟩
  | cons start lexemes terminator rest _ rowsEq ih =>
      obtain ⟨unterminated, few, restEq⟩ := ih
      refine ⟨unterminated, few, ?_⟩
      rw [rowsEq, List.map_cons, restEq]
      rfl

/-- The parts of the rows of a body come from its lexemes. -/
theorem madeOf_rowsOf {row : Row} (member : row ∈ rowsOf start lexemes) :
    row.MadeOf start lexemes := by
  have closes : ∀ part ∈ (segments (·.kind == .terminator) lexemes).1, part.2.kind = .terminator :=
    fun part isPart => by
      simpa using ((segments_inside (·.kind == .terminator) lexemes).1 part isPart).2
  have madeOf := madeOf_of_mem_rowsFrom closes member
  rwa [segments_flatten] at madeOf

end Body

end LatexTabular
