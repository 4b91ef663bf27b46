import LatexTabular.Proofs.Body.Commands
import LatexTabular.Proofs.Table.Consistency
import LatexTabular.Proofs.Table.Coverage

/-!
# What terminators and rules take of the text behind them

The terminators of a table and its rules without required arguments take nothing but groups in
brackets exactly where no closed parenthesis directly follows, and a parenthesis that stands
directly behind them then begins or continues a cell (`Table.marks_bracketed_iff`).
-/

namespace LatexTabular

open Markup Body

/-- The end of a covered text reaches as far as the whole. -/
theorem Text.Spells.behind {document front rest : Text} {span : Span}
    (spells : document.Spells span (front ++ rest)) :
    document.Spells ⟨span.start + front.size, span.stop⟩ rest := by
  have spelled := spells.middle (show front ++ rest = front ++ rest ++ [] by simp)
  rwa [show span.start + front.size + rest.size = span.stop by
    rw [spells.stop_eq, Text.size_append, Nat.add_assoc]] at spelled

namespace Body.Chain

variable {start stop : Nat} {lexemes : List Lexeme} {lexeme other : Lexeme}

/-- Lexemes of a chain that begin at one offset are the same. -/
theorem eq_of_start_eq (chain : Chain start lexemes stop) (member : lexeme ∈ lexemes)
    (otherIn : other ∈ lexemes) (nonempty : ∀ lexeme ∈ lexemes, lexeme.start < lexeme.stop)
    (startEq : lexeme.start = other.start) : lexeme = other := by
  by_contra different
  have first := nonempty lexeme member
  have second := nonempty other otherIn
  rcases chain.apart member otherIn different with ordered | ordered <;> omega

/-- Behind a lexeme that does not end a chain stands another one. -/
theorem exists_next (chain : Chain start lexemes stop) (member : lexeme ∈ lexemes)
    (nonempty : lexeme.start < lexeme.stop) (before : lexeme.stop < stop) :
    ∃ next ∈ lexemes, next.start = lexeme.stop := by
  have behind : start ≤ lexeme.stop := Nat.le_trans (chain.bounds member).1 (Nat.le_of_lt nonempty)
  obtain ⟨next, isNext, covers⟩ := chain.exists_covering behind before
  simp only [Span.covers, Bool.and_eq_true, decide_eq_true_eq] at covers
  have begins : next.start ≤ lexeme.stop := covers.1
  have ends : lexeme.stop < next.stop := covers.2
  have different : lexeme ≠ next := by
    rintro rfl
    omega
  rcases chain.apart member isNext different with ordered | ordered
  · exact ⟨next, isNext, by omega⟩
  · omega

end Body.Chain

/-- A parenthesis is read as content. -/
theorem Body.kind_eq_content_of_parenthesis {lexeme : Lexeme} {nested : List Span} {offset : Nat}
    {context : Context} {body rest : Text} (member : lexeme ∈ lex nested offset context body)
    (textEq : lexeme.text = '(' :: rest) : lexeme.kind = .content := by
  obtain ⟨front, head, rest', context', taken, -, -, textEq', reads⟩ :=
    exists_readsAs_of_mem_lex member
  obtain ⟨rfl, -⟩ := List.cons.inj (textEq'.symm.trans textEq)
  generalize lexeme.kind = kind at reads ⊢
  cases reads with
  | content => rfl
  | comment isPercent => exact absurd isPercent (by decide)
  | environment isBackslash => exact absurd isBackslash (by decide)
  | control isBackslash => exact absurd isBackslash (by decide)
  | separator isAmpersand => exact absurd isAmpersand (by decide)
  | space isBlank => exact absurd isBlank (by decide)

namespace Table

namespace HasBody

variable {table : Table} {tabular : Environment} {lexemes : List Lexeme} {lexeme : Lexeme}

/-- A lexeme that fills a cell stands within one. -/
theorem exists_cell (hasBody : table.HasBody tabular lexemes) (member : lexeme ∈ lexemes)
    (fills : lexeme.kind.fillsCell = true) :
    ∃ row ∈ table.rows, ∃ cell ∈ row.cells, cell.extent.contains lexeme.span = true := by
  have nonempty := fun lexeme member => (hasBody.sound lexeme member).start_lt_stop
  have other {kind : Kind} (empty : kind.fillsCell = false)
      (isOther : ∃ other ∈ lexemes, other.kind = kind ∧ lexeme.span = other.span) : False := by
    obtain ⟨other, otherIn, rfl, spanEq⟩ := isOther
    obtain rfl := hasBody.chain.eq_of_start_eq member otherIn nonempty
      (congrArg Span.start spanEq)
    exact absurd fills (by simp [empty])
  have isMarked : lexeme.kind.isMarked = true := by
    cases kindEq : lexeme.kind <;> simp_all [Kind.isMarked, Kind.fillsCell]
  rcases hasBody.holds member isMarked with ⟨row, isRow, holds⟩ | ⟨-, isRule⟩
  · have madeOf := hasBody.madeOf isRow
    rcases holds with inCell | isSeparator | isTerminator | isRule
    · exact ⟨row, isRow, inCell⟩
    · exact (other rfl (madeOf.separators _ isSeparator)).elim
    · exact (other rfl (madeOf.terminator _ isTerminator).2).elim
    · exact (other rfl (madeOf.rules _ isRule)).elim
  · exact absurd fills (by simp [isRule, Kind.fillsCell])

/-- A parenthesis that stands directly behind a lexeme stands in a cell. -/
theorem exists_cell_of_parenthesis (hasBody : table.HasBody tabular lexemes)
    (member : lexeme ∈ lexemes)
    (closing : table.document.Spells ⟨tabular.closing.start, tabular.closing.start + 1⟩ ['\\'])
    (opens : table.document.Spells ⟨lexeme.stop, lexeme.stop + 1⟩ ['(']) :
    ∃ row ∈ table.rows, ∃ cell ∈ row.cells,
      cell.extent.start ≤ lexeme.stop ∧ lexeme.stop < cell.extent.stop := by
  have nonempty := (hasBody.sound lexeme member).start_lt_stop
  have notLast : lexeme.stop ≠ tabular.closing.start := by
    intro isLast
    exact absurd (opens.head_eq closing isLast) (by decide)
  have ends := (hasBody.chain.bounds member).2
  obtain ⟨next, isNext, startEq⟩ := hasBody.chain.exists_next member nonempty (by omega)
  have nextSound := hasBody.sound next isNext
  have nextEnds := nextSound.start_lt_stop
  have isContent : next.kind = .content := by
    obtain ⟨body, -, lexed⟩ := hasBody.lexed
    cases textEq : next.text with
    | nil =>
        have spells := nextSound.spells.stop_eq
        simp only [Lexeme.span, textEq, Text.size_nil] at spells
        omega
    | cons head rest =>
        have spells := nextSound.spells
        rw [textEq] at spells
        obtain rfl := spells.head_eq opens startEq
        exact kind_eq_content_of_parenthesis (lexed ▸ isNext) textEq
  obtain ⟨row, isRow, cell, isCell, contains⟩ :=
    hasBody.exists_cell isNext (by simp [isContent, Kind.fillsCell])
  simp only [Span.contains, Bool.and_eq_true, decide_eq_true_eq] at contains
  exact ⟨row, isRow, cell, isCell, startEq ▸ contains.1,
    startEq ▸ Nat.lt_of_lt_of_le nextEnds contains.2⟩

/-- What a terminator takes of the text behind it. -/
theorem terminator_bracketed_iff (hasBody : table.HasBody tabular lexemes) {terminator : Span}
    (isTerminator : terminator ∈ table.terminators) :
    ∃ behind, table.document.Spells ⟨terminator.start, tabular.closing.start⟩
        ('\\' :: '\\' :: behind) ∧
      (IsTerminator (table.document.slice terminator) ↔ ¬ OpensParenthesis behind) := by
  obtain ⟨row, isRow, isTerminator⟩ := List.mem_filterMap.mp isTerminator
  obtain ⟨-, lexeme, member, kindEq, rfl⟩ := (hasBody.madeOf isRow).terminator _ isTerminator
  obtain ⟨body, bodySpells, lexed⟩ := hasBody.lexed
  obtain ⟨front, behind, rfl, startEq, textEq⟩ := terminator_of_mem_lex (lexed ▸ member) kindEq
  have spells : table.document.Spells ⟨lexeme.start, tabular.closing.start⟩
      ('\\' :: '\\' :: behind) := by
    rw [startEq]
    exact bodySpells.behind
  refine ⟨behind, spells, ?_⟩
  rw [(hasBody.sound lexeme member).spells.slice_eq, textEq]
  exact isTerminator_optionalGroup?_iff

/-- What a rule takes of the text behind its name. -/
theorem rule_bracketed_iff (hasBody : table.HasBody tabular lexemes) {rule : Span}
    (isRule : rule ∈ table.rows.flatMap (·.rules)) :
    ∃ name required behind, (name, required) ∈ ruleCommands ∧
      table.document.Spells ⟨rule.start, tabular.closing.start⟩ ('\\' :: (name ++ behind)) ∧
      (∀ next ∈ behind.head?, Text.isLetter next = false) ∧
      (required = 0 →
        (IsPlainRule name (table.document.slice rule) ↔ ¬ ReachesParenthesis behind)) := by
  obtain ⟨row, isRow, isRule⟩ := List.mem_flatMap.mp isRule
  obtain ⟨lexeme, member, kindEq, rfl⟩ := (hasBody.madeOf isRow).rules rule isRule
  obtain ⟨body, bodySpells, lexed⟩ := hasBody.lexed
  obtain ⟨front, behind, name, required, isCommand, rfl, ends, startEq, textEq⟩ :=
    rule_of_mem_lex (lexed ▸ member) kindEq
  have spells : table.document.Spells ⟨lexeme.start, tabular.closing.start⟩
      ('\\' :: (name ++ behind)) := by
    rw [startEq]
    exact bodySpells.behind
  refine ⟨name, required, behind, isCommand, spells, ends, ?_⟩
  rintro rfl
  rw [(hasBody.sound lexeme member).spells.slice_eq, textEq]
  exact isPlainRule_arguments_iff

/-- A parenthesis directly behind a terminator begins a cell of the next row. -/
theorem parenthesis_behind_terminator (hasBody : table.HasBody tabular lexemes)
    (closing : table.document.Spells ⟨tabular.closing.start, tabular.closing.start + 1⟩ ['\\'])
    {terminator : Span} (isTerminator : terminator ∈ table.terminators)
    (opens : table.document.Spells ⟨terminator.stop, terminator.stop + 1⟩ ['(']) :
    ∃ row ∈ table.rows, row.span.start = terminator.stop ∧
      ∃ cell ∈ row.cells, cell.extent.start = terminator.stop ∧
        terminator.stop < cell.extent.stop := by
  obtain ⟨row, isRow, ended⟩ := List.mem_filterMap.mp isTerminator
  obtain ⟨stopEq, lexeme, member, -, rfl⟩ := (hasBody.madeOf isRow).terminator _ ended
  obtain ⟨below, isBelow, cell, isCell, begins, ends⟩ :=
    hasBody.exists_cell_of_parenthesis member closing opens
  have rows := hasBody.laidOut.rows
  have laidOut := (rows.of_mem isRow).1
  have belowLaidOut := (rows.of_mem isBelow).1
  have within := (belowLaidOut.cells.of_mem isCell).2
  have terminated : lexeme.stop = row.span.stop := stopEq
  have nonempty := (hasBody.sound lexeme member).start_lt_stop
  have different : row ≠ below := by
    rintro rfl
    have inFront : cell.extent.stop ≤ lexeme.start := laidOut.terminator _ ended cell isCell
    omega
  have symmetric : Std.Symm fun first second : Row =>
      first.span.stop ≤ second.span.start ∨ second.span.stop ≤ first.span.start :=
    ⟨fun _ _ => Or.symm⟩
  have apart : table.rows.Pairwise fun first second =>
      first.span.stop ≤ second.span.start ∨ second.span.stop ≤ first.span.start :=
    rows.pairwise.imp fun ordered => Or.inl ordered
  have ordered := laidOut.span.ordered
  have startEq : below.span.start = lexeme.stop := by
    rcases apart.forall isRow isBelow different with inFront | behind <;> omega
  have firstIn : lexeme.stop ≤ cell.extent.start := startEq ▸ within.1
  exact ⟨below, isBelow, startEq, cell, isCell, Nat.le_antisymm begins firstIn, ends⟩

/-- A parenthesis directly behind a rule begins a cell, or stands with the rule inside one. -/
theorem parenthesis_behind_rule (hasBody : table.HasBody tabular lexemes)
    (closing : table.document.Spells ⟨tabular.closing.start, tabular.closing.start + 1⟩ ['\\'])
    {rule : Span} (isRule : rule ∈ table.rows.flatMap (·.rules))
    (opens : table.document.Spells ⟨rule.stop, rule.stop + 1⟩ ['(']) :
    ∃ cell ∈ table.rows.flatMap (·.cells), rule.stop < cell.extent.stop ∧
      (cell.extent.start = rule.stop ∨ rule.Inside cell.extent) := by
  have apart := (hasBody.rules isRule).2.2
  obtain ⟨row, isRow, inRow⟩ := List.mem_flatMap.mp isRule
  obtain ⟨lexeme, member, -, rfl⟩ := (hasBody.madeOf isRow).rules rule inRow
  have nonempty := (hasBody.sound lexeme member).start_lt_stop
  obtain ⟨row', isRow', cell, isCell, begins, ends⟩ :=
    hasBody.exists_cell_of_parenthesis member closing opens
  have isCell := List.mem_flatMap.mpr ⟨row', isRow', isCell⟩
  refine ⟨cell, isCell, ends, ?_⟩
  rcases (apart cell isCell).1 with (inFront | behind) | inside
  · exact Or.inl (Nat.le_antisymm begins inFront)
  · have : cell.extent.stop ≤ lexeme.start := behind
    omega
  · exact Or.inr inside

end HasBody

/-- Terminators and rules without required arguments take nothing but groups in brackets exactly
where no parenthesis that is closed before the end of the tabular directly follows: a terminator
looks for one behind its two backslashes, a rule behind the groups in brackets that follow its
name.  A parenthesis that stands directly behind what they take belongs to a cell. -/
theorem marks_bracketed_iff {document : Text} {tabular : Environment} {table : Table}
    (member : tabular ∈ tabulars (environments document))
    (found : ofTabular document (environments document) tabular = .ok table) :
    (∀ terminator ∈ table.terminators,
      (∃ behind, document.Spells ⟨terminator.start, tabular.closing.start⟩
          ('\\' :: '\\' :: behind) ∧
        (IsTerminator (document.slice terminator) ↔ ¬ OpensParenthesis behind)) ∧
      (document.Spells ⟨terminator.stop, terminator.stop + 1⟩ ['('] →
        ∃ row ∈ table.rows, row.span.start = terminator.stop ∧
          ∃ cell ∈ row.cells, cell.extent.start = terminator.stop ∧
            terminator.stop < cell.extent.stop)) ∧
    ∀ rule ∈ table.rows.flatMap (·.rules),
      (∃ name required behind, (name, required) ∈ ruleCommands ∧
        document.Spells ⟨rule.start, tabular.closing.start⟩ ('\\' :: (name ++ behind)) ∧
        (∀ next ∈ behind.head?, Text.isLetter next = false) ∧
        (required = 0 →
          (IsPlainRule name (document.slice rule) ↔ ¬ ReachesParenthesis behind))) ∧
      (document.Spells ⟨rule.stop, rule.stop + 1⟩ ['('] →
        ∃ cell ∈ table.rows.flatMap (·.cells), rule.stop < cell.extent.stop ∧
          (cell.extent.start = rule.stop ∨ rule.Inside cell.extent)) := by
  have isEnvironment := (List.mem_filter.mp member).1
  obtain ⟨_, _, closing, -, closingBegins, -, -, closingSpells⟩ :=
    exists_spells_of_mem_environments isEnvironment
  obtain ⟨rest, rfl⟩ := List.head?_eq_some_iff.mp closingBegins
  have backslash := closingSpells.middle (show '\\' :: rest = [] ++ ['\\'] ++ rest from rfl)
  obtain ⟨rfl, -, body, -, hasBody⟩ := exists_body_of_ofTabular isEnvironment found
  exact ⟨fun terminator isTerminator => ⟨hasBody.terminator_bracketed_iff isTerminator,
      hasBody.parenthesis_behind_terminator backslash isTerminator⟩,
    fun rule isRule => ⟨hasBody.rule_bracketed_iff isRule,
      hasBody.parenthesis_behind_rule backslash isRule⟩⟩

/-- A tabular written without spaces behind its marks: a cell `(c)` is read as an argument of the
terminator in front of it, a cell `(e)` behind an argument in brackets is not. -/
def crowded : Text :=
  "\\begin\x7btabular\x7d\x7bll\x7d\n\\hline\na & b \\\\(c) & d \\\\[2pt](e) \\\\\n\\end\x7btabular\x7d".toList

theorem marks_bracketed_iff_crowded :
    ∃ tabular ∈ tabulars (environments crowded), ∃ table,
      ofTabular crowded (environments crowded) tabular = .ok table ∧
      table.terminators.map crowded.slice
        = ["\\\\(c)".toList, "\\\\[2pt]".toList, "\\\\".toList] ∧
      (∀ terminator ∈ table.terminators, ∃ behind,
        crowded.Spells ⟨terminator.start, tabular.closing.start⟩ ('\\' :: '\\' :: behind) ∧
          (IsTerminator (crowded.slice terminator) ↔ ¬ OpensParenthesis behind)) ∧
      ∃ row ∈ table.rows, row.span.start = 50 ∧
        ∃ cell ∈ row.cells, cell.extent.start = 50 ∧ 50 < cell.extent.stop := by
  have isTabular : ⟨"tabular".toList, ⟨0, 15⟩, ⟨57, 70⟩⟩ ∈ tabulars (environments crowded) := by
    decide +kernel
  have marks : (ofTabular crowded (environments crowded)
      ⟨"tabular".toList, ⟨0, 15⟩, ⟨57, 70⟩⟩).map terminators
      = .ok [⟨33, 38⟩, ⟨43, 50⟩, ⟨54, 56⟩] := by decide +kernel
  obtain ⟨table, found, terminatorsEq⟩ := exists_eq_ok_of_map marks
  obtain ⟨terminators, -⟩ := marks_bracketed_iff isTabular found
  have spaced : (⟨43, 50⟩ : Span) ∈ table.terminators := by simp [terminatorsEq]
  have opens : crowded.Spells ⟨50, 51⟩ ['('] :=
    ⟨crowded.take 50, crowded.drop 51, by decide +kernel, by decide +kernel⟩
  refine ⟨_, isTabular, table, found, ?_, fun terminator isTerminator =>
    (terminators terminator isTerminator).1, (terminators _ spaced).2 opens⟩
  rw [terminatorsEq]
  decide +kernel

end Table

end LatexTabular
