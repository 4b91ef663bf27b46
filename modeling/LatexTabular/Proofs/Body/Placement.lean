import LatexTabular.Proofs.Body.Chain
import LatexTabular.Proofs.Table.Geometry
import Mathlib.Data.List.Infix

/-!
# Where cells stand

A cell is made of consecutive lexemes and stands within them: `placed_cellOf`.
Its ends are ends of lexemes (`ends_cellOf`).
-/

namespace LatexTabular

namespace Body

open Text

/-- The place of a merge that covers its text. -/
theorem MergeText.placed_place {document : Text} {start : Nat} {parts : MergeText}
    (spells : document.Spells ⟨start, start + parts.text.size⟩ parts.text) :
    (parts.place start).Placed document ∧
      document.Spells ⟨start + parts.preamble.size,
        start + parts.preamble.size + parts.content.size⟩ parts.content := by
  have opened : size ['{'] = 1 := by decide
  have closed : size ['}'] = 1 := by decide
  have command : size ('\\' :: name) = 1 + name.size := by decide
  have whole : parts.text = parts.preamble ++ parts.content ++ ['}'] := rfl
  have front : parts.preamble = '\\' :: name ++ parts.numberGap ++ ['{'] ++ parts.number
      ++ ['}'] ++ parts.specifierGap ++ ['{'] ++ parts.specifier
      ++ (['}'] ++ parts.contentGap ++ ['{']) := by
    simp [preamble]
  have frontSize := congrArg size front
  have wholeSize := congrArg size whole
  simp only [size_append, command, opened, closed] at frontSize wholeSize
  have contentSpells := spells.middle whole
  have preambleSpells : document.Spells ⟨start, start + parts.preamble.size⟩
      parts.preamble := by
    rw [whole, List.append_assoc] at spells
    exact spells.front
  have postambleSpells : document.Spells
      ⟨start + parts.preamble.size + parts.content.size,
        start + parts.preamble.size + parts.content.size + 1⟩ ['}'] := by
    rw [whole] at spells
    simpa [closed, Nat.add_assoc] using spells.back
  have specifierSpells := preambleSpells.middle front
  have numberSpells := preambleSpells.middle (show parts.preamble
    = ('\\' :: name ++ parts.numberGap ++ ['{']) ++ parts.number
      ++ (['}'] ++ parts.specifierGap ++ ['{'] ++ parts.specifier
        ++ (['}'] ++ parts.contentGap ++ ['{'])) by simp [front])
  simp only [size_append, command, opened, closed, ← Nat.add_assoc]
    at specifierSpells numberSpells frontSize wholeSize
  have wholeFits := spells.fits
  have begins := start_le_trimmedSpan
    (start + 1 + name.size + parts.numberGap.size + 1) parts.number
  have ends := trimmedSpan_le_stop
    (start + 1 + name.size + parts.numberGap.size + 1) parts.number
  refine ⟨⟨?_, ?_, ?_, ?_, ?_, ?_, ?_, ?_, ?_, ?_, ?_⟩, contentSpells⟩
  · simpa [place, wholeSize, Nat.add_assoc] using wholeFits
  · exact numberSpells.trimmed.fits
  · exact specifierSpells.fits
  · exact preambleSpells.fits
  · exact postambleSpells.fits
  all_goals simp only [place] <;> omega

theorem filledPart_isInfix (lexemes : List Lexeme) : filledPart lexemes <:+: lexemes :=
  (List.rdropWhile_prefix _ _).isInfix.trans (List.dropWhile_suffix _).isInfix

/-- The cell that lexemes make up is merged, plain or blank. -/
theorem cellOf_cases (start : Nat) (lexemes : List Lexeme) :
    (∃ first last parts, (filledPart lexemes).head? = some first ∧
      (filledPart lexemes).getLast? = some last ∧ first.kind = .merge parts ∧
      cellOf start lexemes =
        { content := trim parts.content
          contentSpan := trimmedSpan (first.start + parts.preamble.size) parts.content
          extent := ⟨first.start, last.stop⟩
          merge := some (parts.place first.start) }) ∨
    (∃ first last, (filledPart lexemes).head? = some first ∧
      (filledPart lexemes).getLast? = some last ∧
      cellOf start lexemes = ⟨(filledPart lexemes).flatMap Lexeme.text,
        ⟨first.start, last.stop⟩, ⟨first.start, last.stop⟩, none⟩) ∨
    (filledPart lexemes = [] ∧ cellOf start lexemes =
      .blank (((rulesOf lexemes).getLast?.map Lexeme.stop).getD start)) := by
  cases filled : filledPart lexemes with
  | nil => simp [cellOf, filled]
  | cons first rest =>
      obtain ⟨last, isLast⟩ : ∃ last, (first :: rest).getLast? = some last :=
        ⟨_, List.getLast?_eq_some_getLast (List.cons_ne_nil _ _)⟩
      simp only [cellOf, filled, isLast, List.head?_cons]
      split
      next parts isMerge => exact Or.inl ⟨first, last, parts, rfl, rfl, isMerge, rfl⟩
      next => exact Or.inr (Or.inl ⟨first, last, rfl, rfl, rfl⟩)

/-- The first and the last lexeme of a part of a chain, with what lies around
them. -/
theorem Chain.ends_of_isInfix {start stop : Nat} {lexemes part : List Lexeme}
    {first last : Lexeme} (chain : Chain start lexemes stop) (isPart : part <:+: lexemes)
    (isFirst : part.head? = some first) (isLast : part.getLast? = some last) :
    first ∈ lexemes ∧ last ∈ lexemes ∧ start ≤ first.start ∧ first.stop ≤ last.stop
      ∧ last.stop ≤ stop := by
  have firstIn := isPart.subset (List.mem_of_mem_head? isFirst)
  have lastIn := isPart.subset (List.mem_of_mem_getLast? isLast)
  have inPart := chain.of_isInfix isPart isFirst isLast
  exact ⟨firstIn, lastIn, (chain.bounds firstIn).1,
    (inPart.bounds (List.mem_of_mem_head? isFirst)).2, (chain.bounds lastIn).2⟩

/-- Where the lexemes of a cell end, its places end as well: whatever holds of
the start of the cell and of the ends of its lexemes holds of its own ends. -/
theorem ends_cellOf {holds : Nat → Prop} {start : Nat} {lexemes : List Lexeme}
    (atStart : holds start)
    (atLexemes : ∀ lexeme ∈ lexemes, holds lexeme.start ∧ holds lexeme.stop) :
    holds (cellOf start lexemes).extent.start ∧ holds (cellOf start lexemes).extent.stop := by
  have filledIn : ∀ lexeme ∈ filledPart lexemes, holds lexeme.start ∧ holds lexeme.stop :=
    fun lexeme member => atLexemes lexeme ((filledPart_isInfix lexemes).subset member)
  rcases cellOf_cases start lexemes with
    ⟨first, last, parts, isFirst, isLast, -, cellEq⟩ | ⟨first, last, isFirst, isLast, cellEq⟩
      | ⟨-, cellEq⟩ <;> rw [cellEq]
  · exact ⟨(filledIn first (List.mem_of_mem_head? isFirst)).1,
      (filledIn last (List.mem_of_mem_getLast? isLast)).2⟩
  · exact ⟨(filledIn first (List.mem_of_mem_head? isFirst)).1,
      (filledIn last (List.mem_of_mem_getLast? isLast)).2⟩
  · have anchor : holds (((rulesOf lexemes).getLast?.map Lexeme.stop).getD start) := by
      cases found : (rulesOf lexemes).getLast? with
      | none => exact atStart
      | some rule =>
          have ruleIn := List.mem_of_mem_getLast? found
          exact (atLexemes rule (List.mem_filter.mp ruleIn).1).2
    exact ⟨anchor, anchor⟩

/-- A cell stands within its lexemes. -/
theorem placed_cellOf {document : Text} {start stop : Nat} {lexemes : List Lexeme}
    (chain : Chain start lexemes stop) (sound : ∀ lexeme ∈ lexemes, lexeme.Sound document)
    (boundary : document.isBoundary start = true) :
    (cellOf start lexemes).Placed document ∧
      start ≤ (cellOf start lexemes).extent.start ∧
      (cellOf start lexemes).extent.stop ≤ stop := by
  have isPart := filledPart_isInfix lexemes
  have boundaries := @ends_cellOf (fun offset => document.isBoundary offset = true) start
    lexemes boundary fun lexeme member =>
      ⟨(sound lexeme member).fits.startBoundary, (sound lexeme member).fits.stopBoundary⟩
  have total := chain.start_le_stop
  rcases cellOf_cases start lexemes with
    ⟨first, last, parts, isFirst, isLast, isMerge, cellEq⟩ | ⟨first, last, isFirst, isLast, cellEq⟩
      | ⟨-, cellEq⟩ <;> rw [cellEq] at boundaries ⊢
  · obtain ⟨firstIn, lastIn, begins, ordered, ends⟩ :=
      chain.ends_of_isInfix isPart isFirst isLast
    have positive := (sound first firstIn).start_lt_stop
    have textEq := (sound first firstIn).ofMerge parts isMerge
    have spells := (sound first firstIn).spells
    have stopEq : first.stop = first.start + parts.text.size := by
      rw [Lexeme.stop, textEq]
    have sizes : parts.text.size = parts.preamble.size + parts.content.size + 1 := by
      simp only [MergeText.text, size_append]
      rfl
    rw [textEq, Lexeme.span, stopEq] at spells
    obtain ⟨placed, content⟩ := parts.placed_place spells
    have contentBegins := start_le_trimmedSpan (first.start + parts.preamble.size) parts.content
    have contentEnds := trimmedSpan_le_stop (first.start + parts.preamble.size) parts.content
    refine ⟨⟨⟨?_, boundaries.1, boundaries.2⟩, content.trimmed.fits, ?_, ?_, ?_⟩, begins, ends⟩
    · dsimp only
      omega
    · dsimp only
      omega
    · dsimp only
      omega
    · rintro merge ⟨⟩
      refine ⟨placed, rfl, ?_⟩
      simp only [MergeText.place]
      omega
  · obtain ⟨firstIn, lastIn, begins, ordered, ends⟩ :=
      chain.ends_of_isInfix isPart isFirst isLast
    have positive := (sound first firstIn).start_lt_stop
    have fits : Span.Fits document ⟨first.start, last.stop⟩ := by
      refine ⟨?_, boundaries.1, boundaries.2⟩
      dsimp only
      omega
    exact ⟨⟨fits, fits, Nat.le_refl _, Nat.le_refl _, by simp⟩, begins, ends⟩
  · refine ⟨Cell.placed_blank boundaries.1, ?_⟩
    cases found : (rulesOf lexemes).getLast? with
    | none => exact ⟨Nat.le_refl _, total⟩
    | some rule =>
        have ruleIn := (List.mem_filter.mp (List.mem_of_mem_getLast? found)).1
        have bounds := chain.bounds ruleIn
        have positive := (sound rule ruleIn).start_lt_stop
        simp only [Option.map_some, Option.getD_some, Cell.blank, Span.point]
        omega

end Body
end LatexTabular
