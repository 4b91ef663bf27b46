import LatexTabular.Proofs.Body.Coverage
import LatexTabular.Proofs.Table.Layout

/-!
# What a table accounts for

Reading a tabular drops nothing: every byte of its body stands in a cell, a separator,
a terminator or a rule of some row, or is white space or part of a comment
(`Table.HasBody.covers`).  A body without rows is the one exception, since the
rules in it have no row to belong to.
-/

namespace LatexTabular

open Markup Body

/-- Whether a row accounts for an offset. -/
def Row.Covers (row : Row) (offset : Nat) : Prop :=
  (∃ cell ∈ row.cells, cell.extent.covers offset = true) ∨
    (∃ separator ∈ row.separators, separator.covers offset = true) ∨
    (∃ terminator, row.terminator = some terminator ∧ terminator.covers offset = true) ∨
    ∃ rule ∈ row.rules, rule.covers offset = true

theorem Span.covers_of_contains {outer inner : Span} {offset : Nat}
    (contains : outer.contains inner = true) (covers : inner.covers offset = true) :
    outer.covers offset = true := by
  simp only [Span.contains, Span.covers, Bool.and_eq_true, decide_eq_true_eq] at *
  omega

/-- A row that accounts for a span accounts for what the span covers. -/
theorem Row.Holds.covers {row : Row} {span : Span} {offset : Nat} (holds : row.Holds span)
    (covers : span.covers offset = true) : row.Covers offset := by
  rcases holds with ⟨cell, isCell, contains⟩ | isSeparator | isTerminator | isRule
  · exact Or.inl ⟨cell, isCell, Span.covers_of_contains contains covers⟩
  · exact Or.inr (Or.inl ⟨span, isSeparator, covers⟩)
  · exact Or.inr (Or.inr (Or.inl ⟨span, isTerminator, covers⟩))
  · exact Or.inr (Or.inr (Or.inr ⟨span, isRule, covers⟩))

theorem utf8Size_of_isSpace {space : Char} (isSpaceRead : isSpace space = true) :
    space.utf8Size = 1 := by
  simp only [isSpace, Bool.or_eq_true, beq_iff_eq, or_assoc] at isSpaceRead
  rcases isSpaceRead with rfl | rfl | rfl | rfl | rfl <;> decide

/-- A comment that a body skips: from a percent sign to the end of its line, or to the
end of the body at `bodyStop`. -/
structure Body.Lexeme.IsComment (document : Text) (bodyStop : Nat) (lexeme : Lexeme) : Prop where
  kind : lexeme.kind = .comment
  spells : document.Spells lexeme.span lexeme.text
  line : ∃ line, lexeme.text = '%' :: line ∧ '\n' ∉ line
  ends : lexeme.stop = bodyStop ∨ document.Spells ⟨lexeme.stop, lexeme.stop + 1⟩ ['\n']

namespace Table

namespace HasBody

variable {table : Table} {tabular : Environment} {lexemes : List Lexeme} {lexeme : Lexeme}

theorem isComment (hasBody : table.HasBody tabular lexemes) (member : lexeme ∈ lexemes)
    (kindEq : lexeme.kind = .comment) :
    lexeme.IsComment table.document tabular.closing.start := by
  have spells := (hasBody.sound lexeme member).spells
  obtain ⟨body, bodySpells, rfl⟩ := hasBody.lexed
  obtain ⟨front, line, back, bodyEq, startEq, textEq, unbroken, next⟩ :=
    comment_of_mem_lex member kindEq
  have stopEq : lexeme.stop = table.specifierSpan.stop + 1 + (front ++ lexeme.text).size := by
    rw [Lexeme.stop, startEq, Text.size_append, Nat.add_assoc]
  refine ⟨kindEq, spells, ⟨line, textEq, unbroken⟩, ?_⟩
  cases back with
  | nil =>
      left
      have bodyStop := bodySpells.stop_eq
      rw [bodyEq, List.append_nil] at bodyStop
      exact stopEq.trans bodyStop.symm
  | cons head rest =>
      right
      obtain rfl : head = '\n' := next head rfl
      have parts : body = (front ++ lexeme.text) ++ ['\n'] ++ rest := by simp [bodyEq]
      have newline := bodySpells.middle parts
      rw [← stopEq] at newline
      exact newline

/-- The rows of a table account for every marked lexeme of its body. -/
theorem holds (hasBody : table.HasBody tabular lexemes) (member : lexeme ∈ lexemes)
    (isMarked : lexeme.kind.isMarked = true) :
    (∃ row ∈ table.rows, row.Holds lexeme.span) ∨ (table.rows = [] ∧ lexeme.kind = .rule) := by
  rw [hasBody.rows]
  rcases rowsOf_holds hasBody.chain member isMarked with ⟨row, isRow, holds⟩ | ⟨noRows, isRule⟩
  · exact Or.inl ⟨_, List.mem_map_of_mem isRow, holds.padded _⟩
  · exact Or.inr ⟨by rw [noRows]; rfl, isRule⟩

/-- Every byte of a body is accounted for, is white space or stands in a comment. -/
theorem covers (hasBody : table.HasBody tabular lexemes) {offset : Nat}
    (behind : table.specifierSpan.stop < offset) (before : offset < tabular.closing.start) :
    (∃ row ∈ table.rows, row.Covers offset) ∨
      (∃ space, isSpace space = true ∧ table.document.Spells ⟨offset, offset + 1⟩ [space]) ∨
      (∃ comment ∈ lexemes, comment.IsComment table.document tabular.closing.start ∧
        comment.span.covers offset = true) ∨
      (table.rows = [] ∧ ∃ rule ∈ lexemes, rule.kind = .rule ∧ rule.span.covers offset = true) := by
  obtain ⟨lexeme, member, covers⟩ := hasBody.chain.exists_covering behind before
  cases kindEq : lexeme.kind with
  | comment =>
      exact Or.inr (Or.inr (Or.inl ⟨lexeme, member, hasBody.isComment member kindEq, covers⟩))
  | space =>
      refine Or.inr (Or.inl ?_)
      obtain ⟨body, -, lexemesEq⟩ := hasBody.lexed
      obtain ⟨space, isSpaceRead, textEq⟩ := space_of_mem_lex (lexemesEq ▸ member) kindEq
      have spells := (hasBody.sound lexeme member).spells
      have stopEq : lexeme.stop = lexeme.start + 1 := by
        rw [Lexeme.stop, textEq, Text.size_cons, utf8Size_of_isSpace isSpaceRead]
        rfl
      obtain rfl : lexeme.start = offset := by
        simp only [Span.covers, Lexeme.span, stopEq, Bool.and_eq_true, decide_eq_true_eq] at covers
        omega
      rw [textEq, Lexeme.span, stopEq] at spells
      exact ⟨space, isSpaceRead, spells⟩
  | separator | terminator | rule | merge | content =>
      rcases hasBody.holds member (by simp [kindEq, Kind.isMarked]) with
        ⟨row, isRow, holds⟩ | ⟨noRows, isRule⟩
      · exact Or.inl ⟨row, isRow, holds.covers covers⟩
      · exact Or.inr (Or.inr (Or.inr ⟨noRows, lexeme, member, isRule, covers⟩))

end HasBody

/-- Reading a tabular drops nothing of its body: what no row accounts for is white space
or stands in a comment that the body skips.  Only a body without rows may hold more, the
rules that would belong to them. -/
theorem body_covered {document : Text} {tabular : Environment} {table : Table}
    (member : tabular ∈ tabulars (environments document))
    (found : ofTabular document (environments document) tabular = .ok table) :
    ∃ body, lexemes document (environments document) tabular = .ok body ∧
      ∀ offset, table.specifierSpan.stop < offset → offset < tabular.closing.start →
        (∃ row ∈ table.rows, row.Covers offset) ∨
        (∃ space, isSpace space = true ∧ document.Spells ⟨offset, offset + 1⟩ [space]) ∨
        (∃ comment ∈ body, comment.IsComment document tabular.closing.start ∧
          comment.span.covers offset = true) ∨
        (table.rows = [] ∧ ∃ rule ∈ body, rule.kind = .rule ∧ rule.span.covers offset = true) := by
  obtain ⟨rfl, -, body, cut, hasBody⟩ := exists_body_of_ofTabular (List.mem_filter.mp member).1 found
  exact ⟨body, cut, fun offset behind before => hasBody.covers behind before⟩

/-- A tabular with a comment behind a rule, a cell of two lines and an unterminated row. -/
def commented : Text :=
  "\\begin\x7btabular\x7d\x7bll\x7d\n\\hline % &\na% b\nc & d \\\\\n & é\n\\end\x7btabular\x7d".toList

theorem body_covered_commented :
    ∃ tabular ∈ tabulars (environments commented), ∃ table,
      ofTabular commented (environments commented) tabular = .ok table ∧ table.rowCount = 2 ∧
      ∃ body, lexemes commented (environments commented) tabular = .ok body ∧
        ∀ offset, table.specifierSpan.stop < offset → offset < tabular.closing.start →
          (∃ row ∈ table.rows, row.Covers offset) ∨
          (∃ space, isSpace space = true ∧ commented.Spells ⟨offset, offset + 1⟩ [space]) ∨
          (∃ comment ∈ body, comment.IsComment commented tabular.closing.start ∧
            comment.span.covers offset = true) := by
  have all : tabulars (environments commented) = [⟨"tabular".toList, ⟨0, 15⟩, ⟨51, 64⟩⟩] := by
    decide +kernel
  have isTabular : ⟨"tabular".toList, ⟨0, 15⟩, ⟨51, 64⟩⟩ ∈ tabulars (environments commented) := by
    rw [all]
    exact List.mem_singleton_self _
  have rows : (ofTabular commented (environments commented)
      ⟨"tabular".toList, ⟨0, 15⟩, ⟨51, 64⟩⟩).map rowCount = .ok 2 := by decide +kernel
  obtain ⟨table, found, rowCount⟩ := exists_eq_ok_of_map rows
  obtain ⟨body, cut, covered⟩ := body_covered isTabular found
  refine ⟨_, isTabular, table, found, rowCount, body, cut, fun offset behind before => ?_⟩
  rcases covered offset behind before with inRow | isSpace | inComment | ⟨noRows, -⟩
  · exact Or.inl inRow
  · exact Or.inr (Or.inl isSpace)
  · exact Or.inr (Or.inr inComment)
  · simp [Table.rowCount, noRows] at rowCount

end Table

end LatexTabular
