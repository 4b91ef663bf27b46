import LatexTabular.Proofs.Body.Origin

/-!
# How the parts of a body lie to each other

Lexemes of a body do not overlap, so a rule stands apart from every cell or strictly
inside it (`Cell.MadeOf.rule_apart_or_inside`).  The text of a cell stands where its content span says
(`Cell.MadeOf.spells`), and the arguments of a merge follow one another within it
(`Cell.MadeOf.nested`).
-/

namespace LatexTabular

open Body

/-- Two spans that share no byte. -/
def Span.Apart (first second : Span) : Prop :=
  first.stop ≤ second.start ∨ second.stop ≤ first.start

/-- A span that reaches neither end of another one around it. -/
def Span.Inside (inner outer : Span) : Prop :=
  outer.start < inner.start ∧ inner.stop < outer.stop

/-- The parts of a merge follow one another around its content. -/
structure Merge.Nested (merge : Merge) (content : Span) : Prop where
  preamble_start : merge.preamble.start = merge.span.start
  start_lt_number : merge.span.start < merge.number.start
  number_lt_specifier : merge.number.stop < merge.specifier.start
  specifier_lt_preamble : merge.specifier.stop < merge.preamble.stop
  preamble_le_content : merge.preamble.stop ≤ content.start
  content_le_postamble : content.stop ≤ merge.postamble.start
  postamble_stop : merge.postamble.stop = merge.postamble.start + 1
  span_stop : merge.span.stop = merge.postamble.stop

namespace Body

variable {document : Text} {start stop : Nat} {lexemes : List Lexeme} {rule : Lexeme}

theorem MergeText.nested_place (start : Nat) (parts : MergeText) :
    (parts.place start).Nested
      (Text.trimmedSpan (start + parts.preamble.size) parts.content) := by
  have brace : '{'.utf8Size = 1 ∧ '}'.utf8Size = 1 ∧ '\\'.utf8Size = 1 := by decide
  have preambleSize : parts.preamble.size = 1 + name.size + parts.numberGap.size + 1
      + parts.number.size + 1 + parts.specifierGap.size + 1 + parts.specifier.size + 1
      + parts.contentGap.size + 1 := by
    simp only [preamble, Text.size_append, Text.size_cons, Text.size_nil, List.cons_append, brace]
    omega
  have numberBegins := Text.start_le_trimmedSpan
    (start + 1 + name.size + parts.numberGap.size + 1) parts.number
  have numberEnds := Text.trimmedSpan_le_stop
    (start + 1 + name.size + parts.numberGap.size + 1) parts.number
  have contentBegins := Text.start_le_trimmedSpan (start + parts.preamble.size) parts.content
  have contentEnds := Text.trimmedSpan_le_stop (start + parts.preamble.size) parts.content
  constructor <;> simp only [place] <;> omega

/-- A rule that is neither the first nor the last of consecutive lexemes stands apart
from them or inside. -/
theorem Chain.apart_or_inside (chain : Chain start lexemes stop)
    (sound : ∀ lexeme ∈ lexemes, lexeme.Sound document) {first last : Lexeme}
    (firstIn : first ∈ lexemes) (lastIn : last ∈ lexemes) (ruleIn : rule ∈ lexemes)
    (notFirst : rule ≠ first) (notLast : rule ≠ last) :
    rule.span.Apart ⟨first.start, last.stop⟩ ∨ rule.span.Inside ⟨first.start, last.stop⟩ := by
  have firstNonempty := (sound first firstIn).start_lt_stop
  have lastNonempty := (sound last lastIn).start_lt_stop
  rcases chain.apart ruleIn firstIn notFirst with inFront | behindFirst
  · exact Or.inl (Or.inl inFront)
  rcases chain.apart ruleIn lastIn notLast with beforeLast | behind
  · refine Or.inr ⟨?_, ?_⟩
    · exact Nat.lt_of_lt_of_le firstNonempty behindFirst
    · exact Nat.lt_of_le_of_lt beforeLast lastNonempty
  · exact Or.inl (Or.inr behind)

/-- A body is cut nowhere inside a lexeme. -/
theorem IsCut.apart {offset : Nat} (isCut : IsCut start lexemes offset)
    (chain : Chain start lexemes stop) (ruleIn : rule ∈ lexemes) :
    rule.span.Apart (.point offset) := by
  rcases isCut with rfl | ⟨lexeme, member, rfl⟩
  · exact Or.inr (chain.bounds ruleIn).1
  · by_cases same : rule = lexeme
    · exact Or.inl (Nat.le_of_eq (congrArg Lexeme.stop same))
    · have extent : lexeme.start ≤ lexeme.stop := Nat.le_add_right _ _
      rcases chain.apart ruleIn member same with inFront | behind
      · exact Or.inl (Nat.le_trans inFront extent)
      · exact Or.inr behind

theorem IsCut.isBoundary {offset : Nat} (isCut : IsCut start lexemes offset)
    (sound : ∀ lexeme ∈ lexemes, lexeme.Sound document)
    (boundary : document.isBoundary start = true) : document.isBoundary offset = true := by
  rcases isCut with rfl | ⟨lexeme, member, rfl⟩
  · exact boundary
  · exact (sound lexeme member).fits.stopBoundary

end Body

namespace Cell.MadeOf

variable {document : Text} {start stop : Nat} {lexemes : List Lexeme} {rule : Lexeme} {cell : Cell}

/-- What a cell says stands where its content span says. -/
theorem spells (madeOf : cell.MadeOf start lexemes) (chain : Chain start lexemes stop)
    (sound : ∀ lexeme ∈ lexemes, lexeme.Sound document)
    (boundary : document.isBoundary start = true) :
    document.Spells cell.contentSpan cell.content := by
  cases madeOf with
  | blank isCut => exact Text.spells_point (isCut.isBoundary sound boundary)
  | @plain part first last isPart isFirst isLast =>
      have inPart := chain.of_isInfix isPart isFirst isLast
      have firstIn := isPart.subset (List.mem_of_mem_head? isFirst)
      exact inPart.spells (fun lexeme member => sound lexeme (isPart.subset member))
        (sound first firstIn).fits.startBoundary
  | @merged part first last parts isPart isFirst isLast isMerge =>
      have firstIn := isPart.subset (List.mem_of_mem_head? isFirst)
      have spells := (sound first firstIn).spells
      rw [Lexeme.span, Lexeme.stop, (sound first firstIn).ofMerge parts isMerge] at spells
      exact (parts.placed_place spells).2.trimmed

/-- A rule of a body stands apart from a cell or strictly inside it, and so it does to
what the cell says. -/
theorem rule_apart_or_inside (madeOf : cell.MadeOf start lexemes) (chain : Chain start lexemes stop)
    (sound : ∀ lexeme ∈ lexemes, lexeme.Sound document) (ruleIn : rule ∈ lexemes)
    (isRule : rule.kind = .rule) :
    (rule.span.Apart cell.extent ∨ rule.span.Inside cell.extent) ∧
      (rule.span.Apart cell.contentSpan ∨ rule.span.Inside cell.contentSpan) := by
  have different {lexeme : Lexeme} (fills : lexeme.kind.fillsCell = true) : rule ≠ lexeme := by
    rintro rfl
    simp [isRule, Kind.fillsCell] at fills
  cases madeOf with
  | blank isCut =>
      have apart := isCut.apart chain ruleIn
      exact ⟨Or.inl apart, Or.inl apart⟩
  | @plain part first last isPart isFirst isLast fillsFirst fillsLast =>
      have outside := chain.apart_or_inside sound
        (isPart.subset (List.mem_of_mem_head? isFirst))
        (isPart.subset (List.mem_of_mem_getLast? isLast)) ruleIn (different fillsFirst)
        (different fillsLast)
      exact ⟨outside, outside⟩
  | @merged part first last parts isPart isFirst isLast isMerge fillsLast =>
      have firstIn := isPart.subset (List.mem_of_mem_head? isFirst)
      have notFirst : rule ≠ first := different (by rw [isMerge]; rfl)
      refine ⟨chain.apart_or_inside sound firstIn
        (isPart.subset (List.mem_of_mem_getLast? isLast)) ruleIn notFirst
        (different fillsLast), Or.inl ?_⟩
      -- The content stands within the merge, which is one lexeme.
      have begins := Text.start_le_trimmedSpan (first.start + parts.preamble.size) parts.content
      have ends := Text.trimmedSpan_le_stop (first.start + parts.preamble.size) parts.content
      have stopEq : first.stop = first.start + (parts.preamble.size + parts.content.size + 1) := by
        rw [Lexeme.stop, (sound first firstIn).ofMerge parts isMerge]
        simp only [MergeText.text, Text.size_append]
        rfl
      simp only [Span.Apart, Lexeme.span]
      have apart := chain.apart ruleIn firstIn notFirst
      omega

/-- The arguments of a merge follow one another within its cell. -/
theorem nested (madeOf : cell.MadeOf start lexemes) {merge : Merge}
    (merged : cell.merge = some merge) : merge.Nested cell.contentSpan := by
  cases madeOf with
  | blank => simp [Cell.blank] at merged
  | plain => simp at merged
  | @merged part first last parts =>
      obtain rfl := Option.some.inj merged
      exact parts.nested_place first.start

end Cell.MadeOf

end LatexTabular
