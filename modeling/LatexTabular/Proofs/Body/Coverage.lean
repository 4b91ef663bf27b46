import LatexTabular.Proofs.Body.Origin
import LatexTabular.Proofs.Body.Reading

/-!
# What the rows of a body account for

Every lexeme of a body that is neither white space nor a comment stands in a cell of
some row, or is a separator, a terminator or a rule of one, unless the body makes no
row at all (`rowsOf_holds`).
-/

namespace LatexTabular

open Markup

/-- Whether a row accounts for a span, as a part of a cell or as a whole. -/
def Row.Holds (row : Row) (span : Span) : Prop :=
  (∃ cell ∈ row.cells, cell.extent.contains span = true) ∨ span ∈ row.separators ∨
    row.terminator = some span ∨ span ∈ row.rules

namespace Row.Holds

variable {row : Row} {span : Span}

theorem padded (holds : row.Holds span) (columnCount : Nat) :
    (row.padded columnCount).Holds span := by
  refine holds.imp_left ?_
  rintro ⟨cell, isCell, contains⟩
  exact ⟨cell, List.mem_append_left _ isCell, contains⟩

theorem withRules (holds : row.Holds span) (others : List Span) :
    Row.Holds { row with rules := row.rules ++ others } span := by
  refine holds.imp_right (Or.imp_right (Or.imp_right ?_))
  exact fun isRule => List.mem_append_left _ isRule

end Row.Holds

namespace Body

variable {start stop : Nat} {lexemes last : List Lexeme} {closed : List (List Lexeme × Lexeme)}
  {lexeme : Lexeme}

namespace Chain

/-- Whatever a chain reaches over stands in one of its lexemes. -/
theorem exists_covering (chain : Chain start lexemes stop) {offset : Nat} (behind : start ≤ offset)
    (before : offset < stop) : ∃ lexeme ∈ lexemes, lexeme.span.covers offset = true := by
  induction lexemes generalizing start with
  | nil =>
      have reached : start = stop := chain
      omega
  | cons first rest ih =>
      obtain ⟨begins, others⟩ := chain
      by_cases inFirst : offset < first.stop
      · refine ⟨first, List.mem_cons_self, ?_⟩
        simp [Span.covers, Lexeme.span, begins, behind, inFirst]
      · obtain ⟨lexeme, member, covers⟩ := ih others (by omega)
        exact ⟨lexeme, List.mem_cons_of_mem _ member, covers⟩

/-- A part of a chain reaches over its members. -/
theorem contains_of_isInfix {part : List Lexeme} {first final : Lexeme}
    (chain : Chain start lexemes stop) (isPart : part <:+: lexemes)
    (isFirst : part.head? = some first) (isLast : part.getLast? = some final)
    (member : lexeme ∈ part) :
    Span.contains ⟨first.start, final.stop⟩ lexeme.span = true := by
  obtain ⟨begins, ends⟩ := (chain.of_isInfix isPart isFirst isLast).bounds member
  simp [Span.contains, Lexeme.span, begins, ends]

end Chain

/-- Lexemes that fill a cell stand in its filled part. -/
theorem mem_filledPart (member : lexeme ∈ lexemes) (fills : lexeme.kind.fillsCell = true) :
    lexeme ∈ filledPart lexemes := by
  have kept {list : List Lexeme} (inList : lexeme ∈ list) :
      lexeme ∈ list.dropWhile (!·.kind.fillsCell) := by
    rw [← List.takeWhile_append_dropWhile (p := (!·.kind.fillsCell)) (l := list)] at inList
    rcases List.mem_append.mp inList with skipped | inRest
    · have empty := List.mem_takeWhile_imp skipped
      simp [fills] at empty
    · exact inRest
  exact List.mem_reverse.mpr (kept (List.mem_reverse.mpr (kept member)))

/-- A cell reaches over the lexemes that fill it. -/
theorem contains_cellOf (chain : Chain start lexemes stop) (anchor : Nat)
    (member : lexeme ∈ lexemes) (fills : lexeme.kind.fillsCell = true) :
    (cellOf anchor lexemes).extent.contains lexeme.span = true := by
  have isFilled := mem_filledPart member fills
  have isPart := filledPart_isInfix lexemes
  rcases cellOf_cases anchor lexemes with
    ⟨first, final, parts, isFirst, isLast, -, cellEq⟩ | ⟨first, final, isFirst, isLast, cellEq⟩
      | ⟨isEmpty, -⟩
  · rw [cellEq]
    exact chain.contains_of_isInfix isPart isFirst isLast isFilled
  · rw [cellEq]
    exact chain.contains_of_isInfix isPart isFirst isLast isFilled
  · simp [isEmpty] at isFilled

/-- Some cell of a row reaches over a lexeme that fills one. -/
theorem exists_contains_cellsOf
    (chain : Chain start (closed.flatMap (fun part => part.1 ++ [part.2]) ++ last) stop)
    (anchor : Nat) (member : (∃ part ∈ closed, lexeme ∈ part.1) ∨ lexeme ∈ last)
    (fills : lexeme.kind.fillsCell = true) :
    ∃ cell ∈ cellsOf anchor closed last, cell.extent.contains lexeme.span = true := by
  induction closed generalizing start anchor with
  | nil =>
      have inLast : lexeme ∈ last := by simpa using member
      exact ⟨_, List.mem_singleton_self _, contains_cellOf chain anchor inLast fills⟩
  | cons part rest ih =>
      obtain ⟨_, inPart, -⟩ := Chain.append_iff.mp chain.of_cons.1
      by_cases inFirst : lexeme ∈ part.1
      · exact ⟨_, List.mem_cons_self, contains_cellOf inPart anchor inFirst fills⟩
      · have inOthers : (∃ part ∈ rest, lexeme ∈ part.1) ∨ lexeme ∈ last := by
          simpa [inFirst] using member
        obtain ⟨cell, isCell, contains⟩ := ih chain.of_cons.2 part.2.stop inOthers
        exact ⟨cell, List.mem_cons_of_mem _ isCell, contains⟩

/-- A row accounts for the marked lexemes it is made of. -/
theorem rowOf_holds (chain : Chain start lexemes stop) (terminator : Option Lexeme)
    (member : lexeme ∈ lexemes) (isMarked : lexeme.kind.isMarked = true)
    (notTerminator : lexeme.kind ≠ .terminator) :
    (rowOf start lexemes terminator).Holds lexeme.span := by
  obtain ⟨inside, insideLast⟩ := segments_inside (·.kind == .separator) lexemes
  rw [← segments_flatten (·.kind == .separator) lexemes] at chain
  have parts := mem_segments (·.kind == .separator) member
  by_cases fills : lexeme.kind.fillsCell = true
  · -- A separator fills no cell, so the lexeme stands within a part.
    refine Or.inl (exists_contains_cellsOf chain start (parts.imp_left ?_) fills)
    rintro ⟨part, isPart, inPart | rfl⟩
    · exact ⟨part, isPart, inPart⟩
    · have isSeparator : part.2.kind = .separator := by simpa using (inside part isPart).2
      simp [isSeparator, Kind.fillsCell] at fills
  · cases kindEq : lexeme.kind with
    | space => simp [kindEq, Kind.isMarked] at isMarked
    | comment => simp [kindEq, Kind.isMarked] at isMarked
    | terminator => exact absurd kindEq notTerminator
    | merge parts => simp [kindEq, Kind.fillsCell] at fills
    | content => simp [kindEq, Kind.fillsCell] at fills
    | rule =>
        refine Or.inr (Or.inr (Or.inr ?_))
        exact List.mem_map_of_mem (List.mem_filter.mpr ⟨member, by simp [kindEq]⟩)
    | separator =>
        refine Or.inr (Or.inl ?_)
        rcases parts with ⟨part, isPart, inPart | rfl⟩ | inLast
        · simpa [kindEq] using (inside part isPart).1 lexeme inPart
        · exact List.mem_map_of_mem isPart
        · simpa [kindEq] using insideLast lexeme inLast

/-- Lexemes that make no row are at most rules. -/
theorem kind_eq_rule_of_makesRow_eq_false (noRow : makesRow lexemes = false)
    (member : lexeme ∈ lexemes) (isMarked : lexeme.kind.isMarked = true)
    (notTerminator : lexeme.kind ≠ .terminator) : lexeme.kind = .rule := by
  have neither := List.any_eq_false.mp noRow lexeme member
  cases kindEq : lexeme.kind <;> simp_all [Kind.isMarked, Kind.fillsCell]

/-- The rows account for the marked lexemes of a body that is parted at its
terminators. -/
theorem rowsFrom_holds
    (chain : Chain start (closed.flatMap (fun part => part.1 ++ [part.2]) ++ last) stop)
    (inside : ∀ part ∈ closed, ∀ lexeme ∈ part.1, lexeme.kind ≠ .terminator)
    (insideLast : ∀ lexeme ∈ last, lexeme.kind ≠ .terminator)
    (member : (∃ part ∈ closed, lexeme ∈ part.1 ∨ lexeme = part.2) ∨ lexeme ∈ last)
    (isMarked : lexeme.kind.isMarked = true) :
    (∃ row ∈ rowsFrom start closed last, row.Holds lexeme.span) ∨
      (closed = [] ∧ rowsFrom start closed last = [] ∧ lexeme.kind = .rule) := by
  have ofPart {start : Nat} {part : List Lexeme × Lexeme} {others : List (List Lexeme × Lexeme)}
      (chain : Chain start
        ((part :: others).flatMap (fun part => part.1 ++ [part.2]) ++ last) stop)
      (inside : ∀ lexeme ∈ part.1, lexeme.kind ≠ .terminator)
      (inPart : lexeme ∈ part.1 ∨ lexeme = part.2) :
      (rowOf start part.1 (some part.2)).Holds lexeme.span := by
    rcases inPart with inPart | rfl
    · obtain ⟨_, cells, -⟩ := Chain.append_iff.mp chain.of_cons.1
      exact rowOf_holds cells _ inPart isMarked (inside lexeme inPart)
    · exact Or.inr (Or.inr (Or.inl rfl))
  induction start, closed using rowsFrom_induction last with
  | row start isRow rowsEq =>
      have inLast : lexeme ∈ last := by simpa using member
      rw [rowsEq]
      exact Or.inl ⟨_, List.mem_singleton_self _,
        rowOf_holds chain none inLast isMarked (insideLast lexeme inLast)⟩
  | nothing start noRow rowsEq =>
      have inLast : lexeme ∈ last := by simpa using member
      exact Or.inr ⟨rfl, rowsEq,
        kind_eq_rule_of_makesRow_eq_false noRow inLast isMarked (insideLast lexeme inLast)⟩
  | rules start lexemes terminator noRow rowsEq =>
      rw [rowsEq]
      refine Or.inl ⟨_, List.mem_singleton_self _, ?_⟩
      rcases member with ⟨part, isPart, inPart⟩ | inLast
      · obtain rfl := List.mem_singleton.mp isPart
        exact (ofPart chain (inside _ isPart) inPart).withRules _
      · -- Only rules stand behind the last terminator, and they belong to the last row.
        have isRule := kind_eq_rule_of_makesRow_eq_false noRow inLast isMarked
          (insideLast lexeme inLast)
        refine Or.inr (Or.inr (Or.inr (List.mem_append_right _ ?_)))
        exact List.mem_map_of_mem (List.mem_filter.mpr ⟨inLast, by simp [isRule]⟩)
  | cons start lexemes terminator rest some rowsEq ih =>
      rw [rowsEq]
      refine Or.inl ?_
      obtain ⟨insideFirst, insideRest⟩ := List.forall_mem_cons.mp inside
      by_cases inFirst : lexeme ∈ lexemes ∨ lexeme = terminator
      · exact ⟨_, List.mem_cons_self, ofPart chain insideFirst inFirst⟩
      · have inOthers : (∃ part ∈ rest, lexeme ∈ part.1 ∨ lexeme = part.2) ∨ lexeme ∈ last := by
          simpa [inFirst] using member
        obtain ⟨row, isRow, holds⟩ := (ih chain.of_cons.2 insideRest inOthers).resolve_right
          fun nothing => some nothing.2.1
        exact ⟨row, List.mem_cons_of_mem _ isRow, holds⟩

/-- Unless a body makes no row, its rows account for every marked lexeme. -/
theorem rowsOf_holds (chain : Chain start lexemes stop) (member : lexeme ∈ lexemes)
    (isMarked : lexeme.kind.isMarked = true) :
    (∃ row ∈ rowsOf start lexemes, row.Holds lexeme.span) ∨
      (rowsOf start lexemes = [] ∧ lexeme.kind = .rule) := by
  obtain ⟨inside, insideLast⟩ := segments_inside (·.kind == .terminator) lexemes
  rw [← segments_flatten (·.kind == .terminator) lexemes] at chain
  refine (rowsFrom_holds chain ?_ ?_ (mem_segments _ member) isMarked).imp_right And.right
  · exact fun part isPart lexeme inPart => by simpa using (inside part isPart).1 lexeme inPart
  · exact fun lexeme inLast => by simpa using insideLast lexeme inLast

end Body

end LatexTabular
