import LatexTabular.Proofs.Sheet.Cells

/-!
# Rows of a sheet

The lexemes of the body of a sheet make up its rows (`rowsOf_lex_body`), provided
that every rule and every terminator ends where it is written: what follows must
not be read as part of it.
-/

namespace LatexTabular

open Markup Body

/-- A text that starts with white space or with a token, if it is not empty. -/
def Text.IsClear (text : Text) : Prop :=
  ∀ character ∈ text.head?, isSpace character = true ∨ character = '&' ∨ character = '\\'

namespace Text.IsClear

variable {text : Text}

theorem optionalGroup?_eq_none (clear : text.IsClear) : optionalGroup? text = none := by
  cases text with
  | nil => rfl
  | cons head rest =>
      have headClear := clear head rfl
      unfold optionalGroup?
      split
      next matched =>
        obtain ⟨rfl, -⟩ := List.cons.inj matched
        exact absurd headClear (by decide)
      next matched =>
        obtain ⟨rfl, -⟩ := List.cons.inj matched
        exact absurd headClear (by decide)
      next => rfl

theorem endsRule (clear : text.IsClear) : EndsRule text := by
  refine ⟨?_, clear.optionalGroup?_eq_none⟩
  intro character isHead
  rcases clear character isHead with space | rfl | rfl
  · by_contra letter
    simp only [isSpace, Bool.or_eq_true, beq_iff_eq] at space
    rcases space with (((rfl | rfl) | rfl) | rfl) | rfl <;> exact letter (by decide)
  · decide
  · decide

/-- White space may stand in front of a clear text. -/
theorem append {spaces : Text} (white : spaces.IsSpace) (clear : text.IsClear) :
    Text.IsClear (spaces ++ text) := by
  cases spaces with
  | nil => exact clear
  | cons head rest =>
      rintro character ⟨⟩
      exact Or.inl (white head List.mem_cons_self)

theorem backslash (rest : Text) : Text.IsClear ('\\' :: rest) := by
  rintro character ⟨⟩
  exact Or.inr (Or.inr rfl)

end Text.IsClear

/-- The lexemes of rules at an offset. -/
def ruleLexemes (start : Nat) : List Text → List Lexeme
  | [] => []
  | gap :: rest =>
      charLexemes start gap ++ ⟨start + gap.size, .rule, "\\hline".toList⟩
        :: ruleLexemes (start + gap.size + 6) rest

theorem rulesText_cons (gap : Text) (rest : List Text) :
    rulesText (gap :: rest) = gap ++ ("\\hline".toList ++ rulesText rest) := by
  simp [rulesText]

theorem size_rulesText_cons (gap : Text) (rest : List Text) :
    (rulesText (gap :: rest)).size = gap.size + 6 + (rulesText rest).size := by
  have size : Text.size "\\hline".toList = 6 := by decide
  rw [rulesText_cons, Text.size_append, Text.size_append, size, Nat.add_assoc]

/-- Rules end where the next one begins. -/
theorem isClear_rulesText_append {gaps : List Text} {rest : Text}
    (spaces : ∀ gap ∈ gaps, gap.IsSpace) (nonempty : gaps ≠ []) :
    Text.IsClear (rulesText gaps ++ rest) := by
  cases gaps with
  | nil => exact absurd rfl nonempty
  | cons gap others =>
      rw [rulesText_cons, List.append_assoc]
      exact .append (spaces gap List.mem_cons_self) (.backslash _)

/-- Rules in front of a clear text are clear. -/
theorem isClear_rulesText_append_of_isClear {gaps : List Text} {rest : Text}
    (spaces : ∀ gap ∈ gaps, gap.IsSpace) (clear : rest.IsClear) :
    Text.IsClear (rulesText gaps ++ rest) := by
  cases gaps with
  | nil => exact clear
  | cons gap others => exact isClear_rulesText_append spaces (List.cons_ne_nil _ _)

theorem lex_rulesText {start : Nat} {blank : Bool} {gaps : List Text} {rest : Text}
    (spaces : ∀ gap ∈ gaps, gap.IsSpace) (ends : gaps ≠ [] → EndsRule rest) :
    lex [] start ⟨0, blank⟩ (rulesText gaps ++ rest)
      = ruleLexemes start gaps ++ lex [] (start + (rulesText gaps).size) ⟨0, blank⟩ rest := by
  induction gaps generalizing start with
  | nil => rfl
  | cons gap others ih =>
      have gapSpaces := spaces gap List.mem_cons_self
      obtain ⟨context, -, unchanged, lexes⟩ := exists_lexes_charLexemes start ⟨0, blank⟩
        fun character member => isOrdinary_of_isSpace (gapSpaces character member)
      rw [unchanged gapSpaces] at lexes
      have ruleEnds : EndsRule (rulesText others ++ rest) := by
        cases others with
        | nil => exact ends (List.cons_ne_nil _ _)
        | cons next more =>
            exact (isClear_rulesText_append
              (fun gap member => spaces gap (List.mem_cons_of_mem _ member))
              (List.cons_ne_nil _ _)).endsRule
      have behind := @ih (start + gap.size + 6)
        (fun other member => spaces other (List.mem_cons_of_mem _ member))
        (fun _ => ends (List.cons_ne_nil _ _))
      rw [rulesText_cons, List.append_assoc, List.append_assoc, lexes, lex_rule ruleEnds, behind,
        ← rulesText_cons, size_rulesText_cons, ruleLexemes]
      simp [Nat.add_assoc]

theorem kind_of_mem_ruleLexemes {start : Nat} {gaps : List Text}
    (spaces : ∀ gap ∈ gaps, gap.IsSpace) {lexeme : Lexeme}
    (member : lexeme ∈ ruleLexemes start gaps) :
    lexeme.kind = .space ∨ lexeme.kind = .rule := by
  induction gaps generalizing start with
  | nil => simp [ruleLexemes] at member
  | cons gap others ih =>
      rcases List.mem_append.mp member with inGap | member
      · exact Or.inl (kind_of_mem_charLexemes_of_isSpace (spaces gap List.mem_cons_self) inGap)
      · rcases List.mem_cons.mp member with rfl | inOthers
        · exact Or.inr rfl
        · exact ih (fun other member => spaces other (List.mem_cons_of_mem _ member)) inOthers

theorem rulesOf_ruleLexemes_cons {start : Nat} {gap : Text} (others : List Text)
    (space : gap.IsSpace) :
    rulesOf (ruleLexemes start (gap :: others))
      = ⟨start + gap.size, .rule, "\\hline".toList⟩
        :: rulesOf (ruleLexemes (start + gap.size + 6) others) := by
  have none : (charLexemes start gap).filter (·.kind == .rule) = [] := by
    rw [List.filter_eq_nil_iff]
    intro lexeme member
    simp [kind_of_mem_charLexemes_of_isSpace space member]
  simp [ruleLexemes, rulesOf, none]

theorem map_span_rulesOf_ruleLexemes {start : Nat} {gaps : List Text}
    (spaces : ∀ gap ∈ gaps, gap.IsSpace) :
    (rulesOf (ruleLexemes start gaps)).map Lexeme.span = layRules start gaps := by
  induction gaps generalizing start with
  | nil => rfl
  | cons gap others ih =>
      rw [rulesOf_ruleLexemes_cons others (spaces gap List.mem_cons_self), List.map_cons,
        ih fun other member => spaces other (List.mem_cons_of_mem _ member)]
      rfl

/-- Cells start where the last rule in front of them ends. -/
theorem anchor_ruleLexemes {start : Nat} {gaps : List Text}
    (spaces : ∀ gap ∈ gaps, gap.IsSpace) :
    ((rulesOf (ruleLexemes start gaps)).getLast?.map Lexeme.stop).getD start
      = start + (rulesText gaps).size := by
  induction gaps generalizing start with
  | nil => rfl
  | cons gap others ih =>
      have behind := @ih (start + gap.size + 6)
        fun other member => spaces other (List.mem_cons_of_mem _ member)
      rw [rulesOf_ruleLexemes_cons others (spaces gap List.mem_cons_self), List.getLast?_cons,
        size_rulesText_cons, ← Nat.add_assoc, ← Nat.add_assoc, ← behind]
      cases (rulesOf (ruleLexemes (start + gap.size + 6) others)).getLast? with
      | none => rfl
      | some last => rfl

namespace WrittenRow

/-- A row that is read as it is written. -/
structure WellFormed (row : WrittenRow) : Prop where
  ruleGaps : ∀ gap ∈ row.ruleGaps, gap.IsSpace
  nonempty : row.cells ≠ []
  cells : ∀ cell ∈ row.cells, cell.WellFormed

/-- The lexemes of a row at an offset, without its terminator. -/
def lexemes (start : Nat) (row : WrittenRow) : List Lexeme :=
  ruleLexemes start row.ruleGaps ++ cellLexemes (row.cellsStart start) row.cells

/-- The terminator of a row that starts at an offset. -/
def terminatorLexeme (start : Nat) (row : WrittenRow) : Lexeme :=
  ⟨row.cellsStart start + (cellsText row.cells).size, .terminator, "\\\\".toList⟩

theorem stop_terminatorLexeme (start : Nat) (row : WrittenRow) :
    (row.terminatorLexeme start).stop = start + row.text.size := by
  simp only [terminatorLexeme, Lexeme.stop, cellsStart, text, Text.size_append, Nat.add_assoc]

theorem kind_of_mem_lexemes {start : Nat} {row : WrittenRow} (wellFormed : row.WellFormed)
    {lexeme : Lexeme} (member : lexeme ∈ row.lexemes start) : lexeme.kind ≠ .terminator := by
  rcases List.mem_append.mp member with inRules | inCells
  · rcases kind_of_mem_ruleLexemes wellFormed.ruleGaps inRules with kindEq | kindEq <;>
      simp [kindEq]
  · exact (kind_of_mem_cellLexemes wellFormed.cells inCells).1

/-- What may follow the parts of a row, so that each of them ends where it is
written. -/
theorem lex_text {start : Nat} {row : WrittenRow} {rest : Text} (wellFormed : row.WellFormed)
    (ruleEnds : row.ruleGaps ≠ [] → EndsRule (cellsText row.cells ++ ("\\\\".toList ++ rest)))
    (rowEnds : optionalGroup? rest = none) :
    lex [] start ⟨0, true⟩ (row.text ++ rest)
      = row.lexemes start ++ row.terminatorLexeme start
        :: lex [] (start + row.text.size) ⟨0, true⟩ rest := by
  obtain ⟨blank, cells⟩ := @lexes_cellLexemes (row.cellsStart start) row.cells wellFormed.cells
  have textEq : row.text ++ rest = rulesText row.ruleGaps
      ++ (cellsText row.cells ++ ("\\\\".toList ++ rest)) := by
    simp [text]
  have size : start + row.text.size
      = row.cellsStart start + (cellsText row.cells).size + 2 := by
    have two : Text.size "\\\\".toList = 2 := by decide
    simp only [text, cellsStart, Text.size_append, two, Nat.add_assoc]
  have behind := @lex_rulesText start true _ _ wellFormed.ruleGaps ruleEnds
  rw [textEq, behind, show start + (rulesText row.ruleGaps).size = row.cellsStart start from rfl,
    cells, lex_terminator rowEnds, size, lexemes, terminatorLexeme, List.append_assoc]

/-- The lexemes of a row make up the row. -/
theorem rowOf_lexemes (start : Nat) {row : WrittenRow} (wellFormed : row.WellFormed) :
    rowOf start (row.lexemes start) (some (row.terminatorLexeme start)) = row.laid start := by
  have rules : (rulesOf (row.lexemes start)).map Lexeme.span = layRules start row.ruleGaps := by
    have none : (cellLexemes (row.cellsStart start) row.cells).filter (·.kind == .rule) = [] := by
      rw [List.filter_eq_nil_iff]
      intro lexeme member
      simpa using (kind_of_mem_cellLexemes wellFormed.cells member).2
    rw [lexemes, rulesOf, List.filter_append, none, List.append_nil]
    exact map_span_rulesOf_ruleLexemes wellFormed.ruleGaps
  obtain ⟨cells, separators⟩ := @cellsOf_cellLexemes start (row.cellsStart start) _ _
    wellFormed.nonempty wellFormed.cells (fun lexeme => kind_of_mem_ruleLexemes wellFormed.ruleGaps)
    (anchor_ruleLexemes wellFormed.ruleGaps)
  have stop := row.stop_terminatorLexeme start
  simp only [rowOf, rules, stop, laid, Row.mk.injEq]
  refine ⟨trivial, trivial, cells, separators, ?_⟩
  rw [Option.map_some, Lexeme.span, stop]
  rfl

end WrittenRow

theorem Sheet.rowsText_cons (row : WrittenRow) (rest : List WrittenRow) :
    rowsText (row :: rest) = row.text ++ rowsText rest := rfl

/-- Whether rules and terminators of rows end where they are written, in front of
the rest of a body. -/
def Guarded (closing : Text) : List WrittenRow → Prop
  | [] => True
  | row :: rest =>
      (row.ruleGaps ≠ [] → EndsRule (cellsText row.cells
        ++ ("\\\\".toList ++ (Sheet.rowsText rest ++ closing)))) ∧
      optionalGroup? (Sheet.rowsText rest ++ closing) = none ∧ Guarded closing rest

theorem makesRow_eq_false {lexemes : List Lexeme}
    (kinds : ∀ lexeme ∈ lexemes, lexeme.kind = .space ∨ lexeme.kind = .rule) :
    makesRow lexemes = false := by
  rw [makesRow, List.any_eq_false]
  intro lexeme member
  rcases kinds lexeme member with kindEq | kindEq <;> simp [kindEq, Kind.fillsCell]

/-- The lexemes behind the last row. -/
def closingLexemes (start : Nat) (gaps : List Text) (gap : Text) : List Lexeme :=
  ruleLexemes start gaps ++ charLexemes (start + (rulesText gaps).size) gap

theorem isClear_of_isSpace {text : Text} (space : text.IsSpace) : text.IsClear :=
  fun character isHead => Or.inl (space character (List.mem_of_mem_head? isHead))

/-- Rules and white space in front of a clear text. -/
theorem lex_closingText_append {start : Nat} {blank : Bool} {gaps : List Text} {gap rest : Text}
    (gapsSpace : ∀ other ∈ gaps, other.IsSpace) (gapSpace : gap.IsSpace) (clear : rest.IsClear) :
    lex [] start ⟨0, blank⟩ (rulesText gaps ++ (gap ++ rest))
      = closingLexemes start gaps gap
        ++ lex [] (start + (rulesText gaps).size + gap.size) ⟨0, blank⟩ rest := by
  obtain ⟨context, -, unchanged, lexes⟩ := exists_lexes_charLexemes
    (start + (rulesText gaps).size) ⟨0, blank⟩
    fun character member => isOrdinary_of_isSpace (gapSpace character member)
  rw [unchanged gapSpace] at lexes
  rw [lex_rulesText gapsSpace fun _ => (Text.IsClear.append gapSpace clear).endsRule, lexes,
    closingLexemes, List.append_assoc]

theorem lex_closingText {start : Nat} {blank : Bool} {gaps : List Text} {gap : Text}
    (gapsSpace : ∀ other ∈ gaps, other.IsSpace) (gapSpace : gap.IsSpace) :
    lex [] start ⟨0, blank⟩ (rulesText gaps ++ gap) = closingLexemes start gaps gap := by
  have whole := @lex_closingText_append start blank _ _ _ gapsSpace gapSpace
    (isClear_of_isSpace fun character member => absurd member List.not_mem_nil)
  simpa using whole

theorem map_span_rulesOf_closingLexemes {start : Nat} {gaps : List Text} {gap : Text}
    (gapsSpace : ∀ other ∈ gaps, other.IsSpace) (gapSpace : gap.IsSpace) :
    (rulesOf (closingLexemes start gaps gap)).map Lexeme.span = layRules start gaps := by
  have none : (charLexemes (start + (rulesText gaps).size) gap).filter (·.kind == .rule) = [] := by
    rw [List.filter_eq_nil_iff]
    intro lexeme member
    simp [kind_of_mem_charLexemes_of_isSpace gapSpace member]
  rw [closingLexemes, rulesOf, List.filter_append, none, List.append_nil]
  exact map_span_rulesOf_ruleLexemes gapsSpace

theorem kind_of_mem_closingLexemes {start : Nat} {gaps : List Text} {gap : Text}
    (gapsSpace : ∀ other ∈ gaps, other.IsSpace) (gapSpace : gap.IsSpace) {lexeme : Lexeme}
    (member : lexeme ∈ closingLexemes start gaps gap) :
    lexeme.kind = .space ∨ lexeme.kind = .rule := by
  rcases List.mem_append.mp member with inRules | inGap
  · exact kind_of_mem_ruleLexemes gapsSpace inRules
  · exact Or.inl (kind_of_mem_charLexemes_of_isSpace gapSpace inGap)

/-- Rules and white space end no row and make none. -/
theorem segments_closingLexemes {start : Nat} {gaps : List Text} {gap : Text}
    (gapsSpace : ∀ other ∈ gaps, other.IsSpace) (gapSpace : gap.IsSpace) :
    segments (·.kind == .terminator) (closingLexemes start gaps gap)
        = ([], closingLexemes start gaps gap) ∧
      makesRow (closingLexemes start gaps gap) = false := by
  have kinds (lexeme : Lexeme) (member : lexeme ∈ closingLexemes start gaps gap) :=
    kind_of_mem_closingLexemes gapsSpace gapSpace member
  refine ⟨segments_of_forall_not fun lexeme member => ?_, makesRow_eq_false kinds⟩
  rcases kinds lexeme member with kindEq | kindEq <;> simp [kindEq]

section Body

variable {start : Nat} {gaps : List Text} {gap : Text} {rows : List WrittenRow}

/-- The first row of a body is parted from the others. -/
theorem segments_lex_cons {row : WrittenRow} {closing : Text} (wellFormed : row.WellFormed)
    (guarded : Guarded closing (row :: rows)) :
    let parts := segments (·.kind == .terminator)
      (lex [] (start + row.text.size) ⟨0, true⟩ (Sheet.rowsText rows ++ closing))
    segments (·.kind == .terminator)
        (lex [] start ⟨0, true⟩ (Sheet.rowsText (row :: rows) ++ closing))
      = ((row.lexemes start, row.terminatorLexeme start) :: parts.1, parts.2) := by
  obtain ⟨ruleEnds, rowEnds, -⟩ := guarded
  have inside : ∀ lexeme ∈ row.lexemes start, (lexeme.kind == .terminator) = false := by
    intro lexeme member
    simpa using WrittenRow.kind_of_mem_lexemes wellFormed member
  dsimp only
  rw [Sheet.rowsText_cons, List.append_assoc,
    WrittenRow.lex_text wellFormed ruleEnds rowEnds]
  exact segments_append_cons inside rfl _

/-- A body is read as its rows. -/
theorem rowsOf_lex_body (nonempty : rows ≠ []) (wellFormed : ∀ row ∈ rows, row.WellFormed)
    (gapsSpace : ∀ other ∈ gaps, other.IsSpace) (gapSpace : gap.IsSpace)
    (guarded : Guarded (rulesText gaps ++ gap) rows) :
    rowsOf start
        (lex [] start ⟨0, true⟩ (Sheet.rowsText rows ++ (rulesText gaps ++ gap)))
      = layRows start (layRules (start + (Sheet.rowsText rows).size) gaps) rows := by
  induction rows generalizing start with
  | nil => exact absurd rfl nonempty
  | cons row rest ih =>
      have rowWellFormed := wellFormed row List.mem_cons_self
      have stop := row.stop_terminatorLexeme start
      have parts := @segments_lex_cons start rest row _ rowWellFormed guarded
      simp only [rowsOf] at ih ⊢
      rw [parts]
      cases rest with
      | nil =>
          obtain ⟨unclosed, noRow⟩ :=
            @segments_closingLexemes (start + row.text.size) _ _ gapsSpace gapSpace
          have empty : Sheet.rowsText [] ++ (rulesText gaps ++ gap) = rulesText gaps ++ gap := rfl
          have single : Sheet.rowsText [row] = row.text := List.append_nil _
          rw [empty, lex_closingText gapsSpace gapSpace, unclosed, single]
          simp only [rowsFrom, noRow, Bool.false_eq_true, if_false,
            WrittenRow.rowOf_lexemes start rowWellFormed,
            map_span_rulesOf_closingLexemes gapsSpace gapSpace, layRows]
          rfl
      | cons next rest =>
          have others := @ih (start + row.text.size) (List.cons_ne_nil _ _)
            (fun other member => wellFormed other (List.mem_cons_of_mem _ member)) guarded.2.2
          have parts' := @segments_lex_cons (start + row.text.size) rest next _
            (wellFormed next (by simp)) guarded.2.2
          rw [parts'] at others ⊢
          simp only [rowsFrom, WrittenRow.rowOf_lexemes start rowWellFormed, stop]
          rw [others, Sheet.rowsText_cons row, Text.size_append, ← Nat.add_assoc]
          rfl

end Body

end LatexTabular
