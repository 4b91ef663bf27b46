import LatexTabular.Proofs.Body.Geometry
import LatexTabular.Proofs.Body.Reading
import LatexTabular.Proofs.Table.Float
import LatexTabular.Proofs.Table.Layout

/-!
# The geometry of a table that was read

Whatever a document holds, reading it cuts it between characters only
(`Table.CutFrom`), and the places that a table reports fit together: rows follow the
column specifier without a gap, cells and separators alternate, rules stand apart from
separators and from cells or inside them, and merges are nested within their cells
(`Table.Consistent`).  `Table.consistent_of_read` says so for every way of reading.
-/

namespace LatexTabular

open Markup Body

def Merge.spans (merge : Merge) : List Span :=
  [merge.span, merge.number, merge.specifier, merge.preamble, merge.postamble]

def Cell.spans (cell : Cell) : List Span :=
  cell.extent :: cell.contentSpan :: cell.merge.toList.flatMap Merge.spans

def Row.spans (row : Row) : List Span :=
  row.span :: row.rules ++ row.separators ++ row.terminator.toList ++ row.cells.flatMap Cell.spans

namespace Table

/-- Every place that a table reports. -/
def spans (table : Table) : List Span :=
  table.span :: table.specifierSpan :: table.rows.flatMap Row.spans
    ++ table.caption.toList ++ table.label.toList

/-- The terminators of the rows, in their order. -/
def terminators (table : Table) : List Span := table.rows.filterMap (·.terminator)

end Table

/-- What a cell says stands within it, and so does its merge. -/
structure Cell.Consistent (document : Text) (cell : Cell) : Prop where
  content : document.Spells cell.contentSpan cell.content
  start_le_content : cell.extent.start ≤ cell.contentSpan.start
  content_le_stop : cell.contentSpan.stop ≤ cell.extent.stop
  merge : ∀ merge ∈ cell.merge, merge.Nested cell.contentSpan ∧
    merge.span.start = cell.extent.start ∧ merge.span.stop ≤ cell.extent.stop

/-- Written cells and separators alternate within a row, in front of its terminator, and
blank cells behind the last written one stand at its end. -/
structure Row.Consistent (document : Text) (row : Row) : Prop where
  written : row.separators.length < row.cells.length
  within : ∀ cell ∈ row.cells,
    row.span.start ≤ cell.extent.start ∧ cell.extent.stop ≤ row.span.stop
  separators : ∀ (index : Nat) (separator : Span), row.separators[index]? = some separator →
    document.Spells separator ['&'] ∧
      ∀ (position : Nat) (cell : Cell), row.cells[position]? = some cell →
        (position ≤ index → cell.extent.stop ≤ separator.start) ∧
        (index < position → separator.stop ≤ cell.extent.start)
  filling : ∀ (index : Nat) (cell : Cell), row.separators.length < index →
    row.cells[index]? = some cell →
    ∃ final, row.cells[row.separators.length]? = some final ∧ cell = .blank final.extent.stop
  terminator : ∀ terminator ∈ row.terminator, terminator.stop = row.span.stop ∧
    ∀ cell ∈ row.cells, cell.extent.stop ≤ terminator.start
  cells : ∀ cell ∈ row.cells, cell.Consistent document

/-- How the places of a table fit together. -/
structure Table.Consistent (document : Text) (table : Table) : Prop where
  fits : ∀ span ∈ table.spans, span.Fits document ∧ span.stop ≤ document.size
  specifier_within : table.span.contains table.specifierSpan = true
  row_within : ∀ row ∈ table.rows, table.span.contains row.span = true
  first_row : ∀ row ∈ table.rows.head?, row.span.start = table.specifierSpan.stop + 1
  next_row : ∀ (index : Nat) (row below : Row), table.rows[index]? = some row →
    table.rows[index + 1]? = some below → below.span.start = row.span.stop
  count_terminators : table.terminators.length = table.rows.length ∨
    table.terminators.length + 1 = table.rows.length
  terminators : ∀ (index : Nat) (terminator : Span), table.terminators[index]? = some terminator →
    ∃ row : Row, table.rows[index]? = some row ∧ row.terminator = some terminator
  rows : ∀ row ∈ table.rows, row.Consistent document
  rules_ordered : (table.rows.flatMap (·.rules)).Pairwise fun first second =>
    first.stop ≤ second.start
  rules : ∀ rule ∈ table.rows.flatMap (·.rules), rule.start < rule.stop ∧
    (∀ separator ∈ table.rows.flatMap (·.separators) ++ table.terminators,
      rule.Apart separator) ∧
    ∀ cell ∈ table.rows.flatMap (·.cells),
      (rule.Apart cell.extent ∨ rule.Inside cell.extent) ∧
      (rule.Apart cell.contentSpan ∨ rule.Inside cell.contentSpan)

/-- How a document is cut when a tabular of it is read: the interiors of environments and
the lexemes of the body are parts of the document, the lexemes follow one another from
the column specifier to the closing delimiter, and an environment among them is taken
as a whole. -/
structure Table.CutFrom (document : Text) (tabular : Environment) (lexemes : List Lexeme)
    (table : Table) : Prop where
  span : table.span = tabular.span
  interior : ∀ environment ∈ environments document, environment.interior.Fits document
  specifier : document.Spells table.specifierSpan table.specifier
  chain : Chain (table.specifierSpan.stop + 1) lexemes tabular.closing.start
  lexeme : ∀ lexeme ∈ lexemes, lexeme.start < lexeme.stop ∧
    document.Spells lexeme.span lexeme.text
  environment : ∀ lexeme ∈ lexemes,
    (∃ environment ∈ environments document, environment.span.start = lexeme.start ∧
      environment.span.stop ≤ tabular.closing.start) →
    ∃ environment ∈ environments document, environment.span = lexeme.span

namespace Table.HasBody

variable {table : Table} {tabular : Environment} {lexemes : List Lexeme}

theorem madeOf (hasBody : table.HasBody tabular lexemes) {row : Row} (isRow : row ∈ table.rows) :
    row.MadeOf (table.specifierSpan.stop + 1) lexemes := by
  have laid := rowsLaid_rowsOf hasBody.chain hasBody.sound hasBody.boundary
  rw [hasBody.rows] at isRow
  obtain ⟨written, isWritten, rfl⟩ := List.mem_map.mp isRow
  exact (madeOf_rowsOf isWritten).padded (laid.of_mem isWritten).1.cells.ne_nil _

theorem rowConsistent (hasBody : table.HasBody tabular lexemes) {row : Row}
    (isRow : row ∈ table.rows) : row.Consistent table.document := by
  have madeOf := hasBody.madeOf isRow
  have laidOut := (hasBody.laidOut.rows.of_mem isRow).1
  refine ⟨laidOut.cells.length_separators_lt, fun cell isCell => (laidOut.cells.of_mem isCell).2,
    ?_, fun index cell behind found => laidOut.cells.eq_blank_of_lt behind found, ?_, ?_⟩
  · intro index separator found
    obtain ⟨lexeme, member, isSeparator, rfl⟩ :=
      madeOf.separators separator (List.mem_of_getElem? found)
    obtain ⟨body, -, lexemesEq⟩ := hasBody.lexed
    have spells := (hasBody.sound lexeme member).spells
    rw [separator_of_mem_lex (lexemesEq ▸ member) isSeparator] at spells
    exact ⟨spells, (laidOut.cells.of_separator found).2.2.2⟩
  · intro terminator isTerminator
    exact ⟨(madeOf.terminator terminator isTerminator).1,
      laidOut.terminator terminator isTerminator⟩
  · intro cell isCell
    have placed := (laidOut.cells.of_mem isCell).1
    have cellMadeOf := madeOf.cells cell isCell
    refine ⟨cellMadeOf.spells hasBody.chain hasBody.sound hasBody.boundary,
      placed.start_le_content, placed.content_le_stop, fun merge merged => ?_⟩
    obtain ⟨-, begins, ends⟩ := placed.merge merge merged
    exact ⟨cellMadeOf.nested merged, begins, ends⟩

theorem map_terminator (hasBody : table.HasBody tabular lexemes) :
    ∃ unterminated, (unterminated = [] ∨ unterminated = [none]) ∧
      table.rows.map (·.terminator) = table.terminators.map some ++ unterminated := by
  obtain ⟨unterminated, few, rowsEq⟩ := map_terminator_rowsFrom (table.specifierSpan.stop + 1)
    (segments (·.kind == .terminator) lexemes).1 (segments (·.kind == .terminator) lexemes).2
  have tableEq : table.rows.map (·.terminator)
      = (rowsOf (table.specifierSpan.stop + 1) lexemes).map (·.terminator) := by
    rw [hasBody.rows, List.map_map]
    rfl
  have split : table.rows.map (·.terminator)
      = ((segments (·.kind == .terminator) lexemes).1.map (·.2.span)).map some
        ++ unterminated := by
    rw [tableEq, List.map_map]
    exact rowsEq
  have spansEq : table.terminators
      = (segments (·.kind == .terminator) lexemes).1.map (·.2.span) := by
    have gathered : table.terminators = (table.rows.map (·.terminator)).filterMap id := by
      simp [Table.terminators, List.filterMap_map]
    rw [gathered, split]
    rcases few with rfl | rfl <;> simp [List.filterMap_append, List.filterMap_map]
  exact ⟨unterminated, few, by rw [spansEq, split]⟩

/-- The terminators are those of the rows, one for one. -/
theorem terminators (hasBody : table.HasBody tabular lexemes) :
    (table.terminators.length = table.rows.length ∨
      table.terminators.length + 1 = table.rows.length) ∧
    ∀ (index : Nat) (terminator : Span), table.terminators[index]? = some terminator →
      ∃ row : Row, table.rows[index]? = some row ∧ row.terminator = some terminator := by
  obtain ⟨unterminated, few, rowsEq⟩ := hasBody.map_terminator
  constructor
  · have lengths := congrArg List.length rowsEq
    simp only [List.length_map, List.length_append] at lengths
    rcases few with rfl | rfl <;> simp only [List.length_nil, List.length_singleton] at lengths
    · exact Or.inl (by omega)
    · exact Or.inr (by omega)
  · intro index terminator found
    have inRows : (table.rows.map (·.terminator))[index]? = some (some terminator) := by
      rw [rowsEq, List.getElem?_append_left]
      · simp [found]
      · simpa using (List.getElem?_eq_some_iff.mp found).1
    rw [List.getElem?_map] at inRows
    exact Option.map_eq_some_iff.mp inRows

/-- The rules of a table are lexemes, so that they overlap no others. -/
theorem rules (hasBody : table.HasBody tabular lexemes) {rule : Span}
    (isRule : rule ∈ table.rows.flatMap (·.rules)) :
    rule.start < rule.stop ∧
      (∀ separator ∈ table.rows.flatMap (·.separators) ++ table.terminators,
        rule.Apart separator) ∧
      ∀ cell ∈ table.rows.flatMap (·.cells),
        (rule.Apart cell.extent ∨ rule.Inside cell.extent) ∧
        (rule.Apart cell.contentSpan ∨ rule.Inside cell.contentSpan) := by
  obtain ⟨row, isRow, isRule⟩ := List.mem_flatMap.mp isRule
  obtain ⟨lexeme, member, kindEq, rfl⟩ := (hasBody.madeOf isRow).rules rule isRule
  have apart {other : Lexeme} (otherIn : other ∈ lexemes) (different : other.kind ≠ .rule) :
      lexeme.span.Apart other.span := by
    refine hasBody.chain.apart member otherIn ?_
    rintro rfl
    exact different kindEq
  refine ⟨(hasBody.sound lexeme member).start_lt_stop, ?_, ?_⟩
  · intro separator isSeparator
    rcases List.mem_append.mp isSeparator with ofCells | ofRow
    · obtain ⟨row, isRow, isSeparator⟩ := List.mem_flatMap.mp ofCells
      obtain ⟨other, otherIn, otherKind, rfl⟩ :=
        (hasBody.madeOf isRow).separators separator isSeparator
      exact apart otherIn (by simp [otherKind])
    · obtain ⟨row, isRow, isTerminator⟩ := List.mem_filterMap.mp ofRow
      obtain ⟨-, other, otherIn, otherKind, rfl⟩ :=
        (hasBody.madeOf isRow).terminator separator isTerminator
      exact apart otherIn (by simp [otherKind])
  · intro cell isCell
    obtain ⟨row, isRow, isCell⟩ := List.mem_flatMap.mp isCell
    exact ((hasBody.madeOf isRow).cells cell isCell).rule_apart_or_inside hasBody.chain
      hasBody.sound member kindEq

/-- Every place of a row fits the document. -/
theorem fits_of_mem_spans (hasBody : table.HasBody tabular lexemes) {row : Row}
    (isRow : row ∈ table.rows) {span : Span} (member : span ∈ row.spans) :
    span.Fits table.document := by
  have madeOf := hasBody.madeOf isRow
  have laidOut := (hasBody.laidOut.rows.of_mem isRow).1
  have ofLexeme {lexeme : Lexeme} (inBody : lexeme ∈ lexemes) : lexeme.span.Fits table.document :=
    (hasBody.sound lexeme inBody).fits
  simp only [Row.spans, Cell.spans, Merge.spans, List.mem_append, List.mem_cons, List.mem_flatMap,
    Option.mem_toList, List.not_mem_nil, or_false] at member
  rcases member with (((rfl | isRule) | isSeparator) | isTerminator) | ⟨cell, isCell, inCell⟩
  · exact laidOut.span
  · obtain ⟨lexeme, inBody, -, rfl⟩ := madeOf.rules span isRule
    exact ofLexeme inBody
  · obtain ⟨lexeme, inBody, -, rfl⟩ := madeOf.separators span isSeparator
    exact ofLexeme inBody
  · obtain ⟨-, lexeme, inBody, -, rfl⟩ := madeOf.terminator span isTerminator
    exact ofLexeme inBody
  · have placed := (laidOut.cells.of_mem isCell).1
    rcases inCell with rfl | rfl | ⟨merge, merged, inMerge⟩
    · exact placed.extent
    · exact placed.content
    · have mergePlaced := (placed.merge merge merged).1
      rcases inMerge with rfl | rfl | rfl | rfl | rfl
      · exact mergePlaced.span
      · exact mergePlaced.number
      · exact mergePlaced.specifier
      · exact mergePlaced.preamble
      · exact mergePlaced.postamble

end Table.HasBody

namespace Table

/-- Reading a tabular cuts its document between characters. -/
theorem HasBody.cutFrom {table : Table} {tabular : Environment} {lexemes : List Lexeme}
    (hasBody : table.HasBody tabular lexemes) :
    table.CutFrom table.document tabular lexemes := by
  refine ⟨hasBody.span, ?_, hasBody.specifier.spells_slice, hasBody.chain, fun lexeme inBody =>
    ⟨(hasBody.sound lexeme inBody).start_lt_stop, (hasBody.sound lexeme inBody).spells⟩, ?_⟩
  · intro environment isEnvironment
    obtain ⟨_, interior, _, -, -, -, spells, -⟩ := exists_spells_of_mem_environments isEnvironment
    exact spells.fits
  rintro lexeme inBody ⟨environment, isEnvironment, begins, ends⟩
  obtain ⟨body, bodySpells, lexemesEq⟩ := hasBody.lexed
  have isNested : environment.span ∈ table.nested tabular.closing.start := by
    have behind := (hasBody.chain.bounds inBody).1
    rw [← begins] at behind
    exact List.mem_filter.mpr
      ⟨List.mem_map_of_mem isEnvironment, by simp [behind, ends]⟩
  have nestedFits : ∀ span ∈ table.nested tabular.closing.start,
      span.stop ≤ tabular.closing.start ∧ table.document.isBoundary span.stop = true ∧
        span.start < span.stop ∧ table.document.Spells ⟨span.start, span.start + 1⟩ ['\\'] := by
    intro span isNested
    obtain ⟨isSpan, within⟩ := List.mem_filter.mp isNested
    obtain ⟨other, isOther, rfl⟩ := List.mem_map.mp isSpan
    obtain ⟨fits, nonempty, backslash⟩ := span_of_mem_environments isOther
    simp only [Bool.and_eq_true, decide_eq_true_eq] at within
    exact ⟨within.2, fits.stopBoundary, nonempty, backslash⟩
  have spanIn := span_of_mem_lex bodySpells nestedFits (lexemesEq ▸ inBody) ⟨_, isNested, begins⟩
  exact List.mem_map.mp (List.mem_filter.mp spanIn).1

/-- Every place that a table reports fits its document. -/
theorem HasBody.fits {table : Table} {tabular : Environment} {lexemes : List Lexeme}
    (hasBody : table.HasBody tabular lexemes)
    (floatEq : table.float
      = Captioning.ofTabular? table.document (environments table.document) tabular.span)
    {span : Span} (member : span ∈ table.spans) : span.Fits table.document := by
  simp only [spans, List.mem_append, List.mem_cons, List.mem_flatMap, Option.mem_toList] at member
  have ofFloat (isCommand : table.caption = some span ∨ table.label = some span) :
      span.Fits table.document := by
    cases captioned : table.float with
    | none => simp [caption, label, captioned] at isCommand
    | some captioning =>
        rw [captioned] at floatEq
        obtain ⟨float, -, commands⟩ := Captioning.exists_float_of_ofTabular? floatEq.symm
        exact (commands span (by simpa [caption, label, captioned] using isCommand)).1
  rcases member with ((rfl | rfl | ⟨row, isRow, inRow⟩) | isCaption) | isLabel
  · exact hasBody.span_fits
  · exact hasBody.specifier
  · exact hasBody.fits_of_mem_spans isRow inRow
  · exact ofFloat (Or.inl isCaption)
  · exact ofFloat (Or.inr isLabel)

/-- A table of a document is consistent, and reading it cuts no character. -/
theorem consistent_of_ofTabular {document : Text} {tabular : Environment} {table : Table}
    (member : tabular ∈ tabulars (environments document))
    (found : ofTabular document (environments document) tabular = .ok table) :
    table.Consistent document ∧
      ∃ tabular ∈ tabulars (environments document), ∃ body,
        lexemes document (environments document) tabular = .ok body ∧
          table.CutFrom document tabular body := by
  have isEnvironment := (List.mem_filter.mp member).1
  obtain ⟨rfl, floatEq, body, cut, hasBody⟩ := exists_body_of_ofTabular isEnvironment found
  have laidOut := hasBody.laidOut
  have specifierOrdered := hasBody.specifier.ordered
  have begins := hasBody.start_lt_specifier
  have ends := hasBody.closing_lt_stop
  have reaches := hasBody.chain.start_le_stop
  obtain ⟨count, terminators⟩ := hasBody.terminators
  refine ⟨⟨?_, ?_, ?_, ?_, ?_, count, terminators, fun row isRow => hasBody.rowConsistent isRow,
    laidOut.rules, fun rule isRule => hasBody.rules isRule⟩, tabular, member, body, cut,
    hasBody.cutFrom⟩
  · intro span isSpan
    have fits := hasBody.fits floatEq isSpan
    exact ⟨fits, fits.stop_le_size⟩
  · simp only [Span.contains, Bool.and_eq_true, decide_eq_true_eq]
    omega
  · intro row isRow
    obtain ⟨-, rowBegins, rowEnds⟩ := laidOut.rows.of_mem isRow
    simp only [Span.contains, Bool.and_eq_true, decide_eq_true_eq]
    omega
  · exact fun row isFirst => laidOut.rows.start_of_head? isFirst
  · exact fun index row below found next => laidOut.rows.start_of_succ found next

/-- However a table is read from a document, what it reports of it is consistent. -/
theorem consistent_of_read {document : Text} {table : Table}
    (found : readFirst document = .ok table ∨ (∃ offset, readAt document offset = .ok table) ∨
      ∃ tables, readAll document = .ok tables ∧ table ∈ tables) :
    table.Consistent document ∧
      ∃ tabular ∈ tabulars (environments document), ∃ body,
        lexemes document (environments document) tabular = .ok body ∧
          table.CutFrom document tabular body := by
  obtain ⟨tabular, isTabular, read⟩ := exists_tabular_of_read found
  exact consistent_of_ofTabular isTabular read

/-- A merge with a rule behind it in its cell, and an unterminated row. -/
def crossed : Text :=
  "\\begin\x7btabular\x7d\x7bl\x7d\\multicolumn\x7b1\x7d\x7bc\x7d\x7b é\x7d\\hline x\\\\&".toList
    ++ "\\end\x7btabular\x7d".toList

theorem consistent_of_read_crossed :
    ∃ table, readFirst crossed = .ok table ∧ table.rowCount = 2 ∧ table.Consistent crossed ∧
      ∃ tabular ∈ tabulars (environments crossed), ∃ body,
        lexemes crossed (environments crossed) tabular = .ok body ∧
          table.CutFrom crossed tabular body := by
  have rows : (readFirst crossed).map rowCount = .ok 2 := by decide +kernel
  obtain ⟨table, found, count⟩ := exists_eq_ok_of_map rows
  exact ⟨table, found, count, consistent_of_read (Or.inl found)⟩

end Table

end LatexTabular
