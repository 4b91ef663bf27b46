import LatexTabular.Proofs.Body.Contents
import LatexTabular.Proofs.Sheet.Regular

/-!
# What unguarded sheets lose

A rule or a terminator that does not end where it is written takes a part of a cell: it
becomes another command or swallows a bracket.  Neither can be made up for elsewhere,
so that a sheet which is read as its own rows is guarded (`Sheet.guarded_of_rows`).
-/

namespace LatexTabular

open Markup Body

/-- The brackets that open an optional group. -/
def Text.isBracket (character : Char) : Bool := character == '[' || character == '('

namespace Markup

theorem countP_isBracket_of_optionalGroup? {text group : Text}
    (found : optionalGroup? text = some group) : 0 < group.countP Text.isBracket := by
  have isBracket : Text.isBracket '[' = true ∧ Text.isBracket '(' = true := by decide
  unfold optionalGroup? at found
  split at found
  · obtain ⟨inner, -, rfl⟩ := Option.map_eq_some_iff.mp found
    rw [List.countP_cons_of_pos isBracket.1]
    exact Nat.succ_pos _
  · obtain ⟨inner, -, rfl⟩ := Option.map_eq_some_iff.mp found
    rw [List.countP_cons_of_pos isBracket.2]
    exact Nat.succ_pos _
  · simp at found

/-- A letter makes the command of a rule another one. -/
theorem readControl_rule_letter {blank : Bool} {head : Char} (rest : Text)
    (letter : Text.isLetter head = true) :
    (readControl ⟨0, blank⟩ ("hline".toList ++ head :: rest)).1 = .content := by
  obtain ⟨name, named⟩ : ∃ name, controlName ("hline".toList ++ head :: rest)
      = "hline".toList ++ head :: name := by
    have letters : "hline".toList.all Text.isLetter = true := by decide
    refine ⟨rest.takeWhile Text.isLetter, ?_⟩
    rw [controlName, List.takeWhile_append_of_pos (List.all_eq_true.mp letters),
      List.takeWhile_cons_of_pos letter]
    rfl
  -- No name that counts goes on behind `hline`.
  have longer {other : Text} (ends : other.take 5 = "hline".toList → other.length = 5) :
      "hline".toList ++ head :: name ≠ other := by
    rintro rfl
    have tooShort := ends (List.take_left' rfl)
    rw [List.length_append, List.length_cons] at tooShort
    have five : "hline".toList.length = 5 := rfl
    omega
  have noRule : ruleCommands.lookup ("hline".toList ++ head :: name) = none := by
    have ends : ∀ command ∈ ruleCommands,
        command.1.take 5 = "hline".toList → command.1.length = 5 := by decide
    rw [List.lookup_eq_none_iff]
    intro command member
    exact bne_iff_ne.mpr (longer (ends command member))
  have notBackslash : "hline".toList ++ head :: name ≠ ['\\'] := longer (by decide)
  have noMerge : "hline".toList ++ head :: name ≠ MergeText.name := longer (by decide)
  rw [readControl_eq_iff.mpr ⟨[], ?_, rfl⟩]
  rw [named]
  exact .plain notBackslash noRule fun isMerge => absurd isMerge noMerge

/-- A rule takes the optional group behind it. -/
theorem readControl_rule_group {blank : Bool} {rest group : Text}
    (notLetter : ∀ character ∈ rest.head?, Text.isLetter character = false)
    (found : optionalGroup? rest = some group) :
    ∃ others, readControl ⟨0, blank⟩ ("hline".toList ++ rest)
      = (.rule, "hline".toList ++ (group ++ others)) := by
  have named : controlName ("hline".toList ++ rest) = "hline".toList :=
    controlName_of_letters (by decide) (by decide) notLetter
  have isRule : ruleCommands.lookup "hline".toList = some 0 := by decide
  have groups : optionalGroups rest = group ++ optionalGroups (rest.drop group.length) := by
    rw [optionalGroups.eq_def]
    split
    next other isGroup =>
      obtain rfl := Option.some.inj (found.symm.trans isGroup)
      rfl
    next none => simp [found] at none
  refine ⟨optionalGroups (rest.drop group.length), ?_⟩
  have takes : Takes ⟨0, blank⟩ "hline".toList rest .rule _ := .rule rfl isRule
  rw [arguments, requiredGroups, List.append_nil, groups] at takes
  exact takes.readControl named

/-- A terminator takes the optional group behind it. -/
theorem readControl_terminator_group {blank : Bool} {rest group : Text}
    (found : optionalGroup? rest = some group) :
    readControl ⟨0, blank⟩ ('\\' :: rest) = (.terminator, '\\' :: group) := by
  have notLetter : Text.isLetter '\\' = false := by decide
  have named : controlName ('\\' :: rest) = ['\\'] := by simp [controlName, notLetter]
  have takes : Takes ⟨0, blank⟩ ['\\'] rest .terminator _ := .terminator rfl rfl
  rw [found] at takes
  exact takes.readControl named

end Markup

/-- The first lexeme of a command. -/
theorem Body.exists_lex_backslash (start : Nat) (context : Context) (rest : Text) :
    ∃ offset after remaining, lex [] start context ('\\' :: rest)
      = ⟨start, (readControl context rest).1, '\\' :: (readControl context rest).2⟩
        :: lex [] offset after remaining := by
  have part : readPart [] start context '\\' rest = readControl context rest :=
    readPart_eq_iff.mpr (.control rfl rfl rfl)
  rw [lex_cons]
  simp only [part]
  exact ⟨_, _, _, rfl⟩

/-- Whether lexemes lose something of a body: a backslash gets into a content or a bracket
into none. -/
def Body.Loses (lexemes : List Lexeme) : Prop :=
  '\\' ∈ bodyContents lexemes ∨
    (bodyContents lexemes).countP Text.isBracket
      < (lexemes.flatMap Lexeme.text).countP Text.isBracket

namespace Body.Loses

theorem of_front {front lexemes : List Lexeme}
    (kinds : ∀ lexeme ∈ front, lexeme.kind = .space ∨ lexeme.kind = .rule)
    (loses : Loses lexemes) : Loses (front ++ lexemes) := by
  rw [Loses, bodyContents_append kinds, List.flatMap_append, List.countP_append]
  rcases loses with backslash | fewer
  · exact Or.inl backslash
  · exact Or.inr (by omega)

theorem of_content {first : Lexeme} (isContent : first.kind = .content)
    (backslash : '\\' ∈ first.text) (rest : List Lexeme) : Loses (first :: rest) :=
  Or.inl (mem_bodyContents_cons isContent backslash rest)

/-- A rule with a bracket in it. -/
theorem of_rule {first : Lexeme} {rest : List Lexeme} (isRule : first.kind = .rule)
    (bracket : 0 < first.text.countP Text.isBracket) (keeps : ∀ lexeme ∈ rest, KeepsMerge lexeme) :
    Loses (first :: rest) := by
  have skipped : bodyContents ([first] ++ rest) = bodyContents rest := by
    refine bodyContents_append ?_ rest
    intro lexeme member
    obtain rfl := List.mem_singleton.mp member
    exact Or.inr isRule
  have behind := countP_bodyContents_le Text.isBracket rest keeps
  refine Or.inr ?_
  rw [← List.singleton_append, skipped, List.flatMap_append, List.countP_append]
  simp only [List.flatMap_cons, List.flatMap_nil, List.append_nil]
  omega

/-- A terminator with a bracket in it, behind some cells. -/
theorem of_terminator {part rest : List Lexeme} {close : Lexeme}
    (inside : ∀ lexeme ∈ part, lexeme.kind ≠ .terminator) (closes : close.kind = .terminator)
    (bracket : 0 < close.text.countP Text.isBracket)
    (keeps : ∀ lexeme ∈ part ++ close :: rest, KeepsMerge lexeme) :
    Loses (part ++ close :: rest) := by
  have front := countP_rowContents_le Text.isBracket part
    fun lexeme member => keeps lexeme (List.mem_append_left _ member)
  have behind := countP_bodyContents_le Text.isBracket rest
    fun lexeme member => keeps lexeme (List.mem_append_right _ (List.mem_cons_of_mem _ member))
  refine Or.inr ?_
  rw [bodyContents_append_cons inside closes, List.flatMap_append, List.flatMap_cons]
  simp only [List.countP_append]
  omega

/-- What the rows behind a terminator lose, the whole loses. -/
theorem of_behind {part rest : List Lexeme} {close : Lexeme}
    (inside : ∀ lexeme ∈ part, lexeme.kind ≠ .terminator) (closes : close.kind = .terminator)
    (keeps : ∀ lexeme ∈ part ++ close :: rest, KeepsMerge lexeme) (loses : Loses rest) :
    Loses (part ++ close :: rest) := by
  have front := countP_rowContents_le Text.isBracket part
    fun lexeme member => keeps lexeme (List.mem_append_left _ member)
  rw [Loses, bodyContents_append_cons inside closes, List.flatMap_append, List.flatMap_cons]
  rcases loses with backslash | fewer
  · exact Or.inl (List.mem_append_right _ backslash)
  · refine Or.inr ?_
    simp only [List.countP_append]
    omega

end Body.Loses

section Rows

variable {start : Nat} {blank : Bool} {rest : Text}

/-- A rule that does not end where it is written loses something. -/
theorem loses_lex_rule (unended : ¬ EndsRule rest) :
    Body.Loses (lex [] start ⟨0, true⟩ ("\\hline".toList ++ rest)) := by
  have textEq : "\\hline".toList ++ rest = '\\' :: ("hline".toList ++ rest) := rfl
  obtain ⟨offset, after, remaining, lexed⟩ :=
    Body.exists_lex_backslash start ⟨0, true⟩ ("hline".toList ++ rest)
  rw [textEq, lexed]
  by_cases letter : ∃ head ∈ rest.head?, Text.isLetter head = true
  · obtain ⟨head, isHead, isLetter⟩ := letter
    obtain ⟨others, rfl⟩ := List.head?_eq_some_iff.mp isHead
    exact .of_content (readControl_rule_letter others isLetter) List.mem_cons_self _
  · have notLetter : ∀ character ∈ rest.head?, Text.isLetter character = false := by
      intro character isHead
      by_contra isLetter
      exact letter ⟨character, isHead, by simpa using isLetter⟩
    cases found : optionalGroup? rest with
    | none => exact absurd ⟨notLetter, found⟩ unended
    | some group =>
        obtain ⟨others, control⟩ := @readControl_rule_group true _ _ notLetter found
        have bracket := countP_isBracket_of_optionalGroup? found
        rw [control]
        refine .of_rule rfl ?_ keepsMerge_of_mem_lex
        simp only [List.countP_cons, List.countP_append]
        omega

/-- The last rule of a row loses something if it does not end where it is written. -/
theorem loses_lex_rulesText {gaps : List Text} (spaces : ∀ gap ∈ gaps, gap.IsSpace)
    (nonempty : gaps ≠ []) (unended : ¬ EndsRule rest) :
    Body.Loses (lex [] start ⟨0, true⟩ (rulesText gaps ++ rest)) := by
  obtain ⟨front, gap, rfl⟩ := (List.eq_nil_or_concat' gaps).resolve_left nonempty
  have gapSpace := spaces gap (by simp)
  have frontSpaces : ∀ other ∈ front, other.IsSpace :=
    fun other member => spaces other (List.mem_append_left _ member)
  have textEq : rulesText (front ++ [gap]) ++ rest
      = rulesText front ++ (gap ++ ("\\hline".toList ++ rest)) := by
    simp [rulesText]
  have clear : Text.IsClear (gap ++ ("\\hline".toList ++ rest)) :=
    .append gapSpace (.backslash _)
  obtain ⟨context, -, unchanged, lexes⟩ :=
    exists_lexes_charLexemes (start + (rulesText front).size) ⟨0, true⟩
      fun character member => isOrdinary_of_isSpace (gapSpace character member)
  rw [unchanged gapSpace] at lexes
  rw [textEq, lex_rulesText frontSpaces fun _ => clear.endsRule, lexes]
  refine .of_front (fun lexeme => kind_of_mem_ruleLexemes frontSpaces) (.of_front ?_ ?_)
  · exact fun lexeme member => Or.inl (kind_of_mem_charLexemes_of_isSpace gapSpace member)
  · exact loses_lex_rule unended

/-- A terminator that does not end where it is written loses something. -/
theorem loses_lex_terminator {row : WrittenRow} {group : Text} (wellFormed : row.WellFormed)
    (ruleEnds : row.ruleGaps ≠ [] → EndsRule (cellsText row.cells ++ ("\\\\".toList ++ rest)))
    (found : optionalGroup? rest = some group) :
    Body.Loses (lex [] start ⟨0, true⟩ (row.text ++ rest)) := by
  obtain ⟨blank, cells⟩ := @lexes_cellLexemes (row.cellsStart start) row.cells wellFormed.cells
  have textEq : row.text ++ rest = rulesText row.ruleGaps
      ++ (cellsText row.cells ++ ('\\' :: '\\' :: rest)) := by
    simp [WrittenRow.text]
  have terminator : "\\\\".toList ++ rest = '\\' :: '\\' :: rest := rfl
  rw [terminator] at ruleEnds
  have control := @readControl_terminator_group blank _ _ found
  obtain ⟨offset, after, remaining, lexed⟩ := Body.exists_lex_backslash
    (row.cellsStart start + (cellsText row.cells).size) ⟨0, blank⟩ ('\\' :: rest)
  have whole : lex [] start ⟨0, true⟩ (row.text ++ rest) = row.lexemes start
      ++ ⟨row.cellsStart start + (cellsText row.cells).size, .terminator, '\\' :: '\\' :: group⟩
        :: lex [] offset after remaining := by
    rw [textEq, lex_rulesText wellFormed.ruleGaps ruleEnds,
      show start + (rulesText row.ruleGaps).size = row.cellsStart start from rfl, cells, lexed,
      control, WrittenRow.lexemes, List.append_assoc]
  have keeps := @keepsMerge_of_mem_lex start ⟨0, true⟩ (row.text ++ rest)
  have bracket := countP_isBracket_of_optionalGroup? found
  rw [whole] at keeps ⊢
  refine .of_terminator (fun lexeme => WrittenRow.kind_of_mem_lexemes wellFormed) rfl ?_ keeps
  simp only [List.countP_cons]
  omega

/-- Rows that are not guarded lose something. -/
theorem loses_lex_rowsText {closing : Text} {rows : List WrittenRow}
    (wellFormed : ∀ row ∈ rows, row.WellFormed) (unguarded : ¬ Guarded closing rows) :
    Body.Loses (lex [] start ⟨0, true⟩ (Sheet.rowsText rows ++ closing)) := by
  induction rows generalizing start with
  | nil => exact absurd trivial unguarded
  | cons row rest ih =>
      have rowWellFormed := wellFormed row List.mem_cons_self
      have behind := @ih (start + row.text.size)
        fun other member => wellFormed other (List.mem_cons_of_mem _ member)
      by_cases ruleEnds : row.ruleGaps ≠ [] → EndsRule (cellsText row.cells
        ++ ("\\\\".toList ++ (Sheet.rowsText rest ++ closing)))
      · rw [Sheet.rowsText_cons, List.append_assoc]
        cases found : optionalGroup? (Sheet.rowsText rest ++ closing) with
        | some group => exact loses_lex_terminator rowWellFormed ruleEnds found
        | none =>
            have unguardedRest : ¬ Guarded closing rest :=
              fun guarded => unguarded ⟨ruleEnds, found, guarded⟩
            have keeps := @keepsMerge_of_mem_lex start ⟨0, true⟩
              (row.text ++ (Sheet.rowsText rest ++ closing))
            rw [WrittenRow.lex_text rowWellFormed ruleEnds found] at keeps ⊢
            exact .of_behind (fun lexeme => WrittenRow.kind_of_mem_lexemes rowWellFormed) rfl keeps
              (behind unguardedRest)
      · have textEq : Sheet.rowsText (row :: rest) ++ closing = rulesText row.ruleGaps
            ++ (cellsText row.cells ++ ("\\\\".toList ++ (Sheet.rowsText rest ++ closing))) := by
          simp [Sheet.rowsText_cons, WrittenRow.text]
        rw [textEq]
        simp only [Classical.not_imp] at ruleEnds
        exact loses_lex_rulesText rowWellFormed.ruleGaps ruleEnds.1 ruleEnds.2

end Rows

section GroupMarks

/-- The characters around an optional group. -/
def Text.IsGroupMark (character : Char) : Prop :=
  character = '[' ∨ character = ']' ∨ character = '(' ∨ character = ')'

variable {test : Char → Bool}

theorem Text.countP_eq_zero_of_only {text : Text} {allowed : Char → Prop}
    (marks : ∀ character, test character = true → Text.IsGroupMark character)
    (only : ∀ character ∈ text, allowed character)
    (none : ¬ allowed '[' ∧ ¬ allowed ']' ∧ ¬ allowed '(' ∧ ¬ allowed ')') :
    text.countP test = 0 := by
  rw [List.countP_eq_zero]
  intro character member passes
  rcases marks character passes with rfl | rfl | rfl | rfl
  · exact none.1 (only _ member)
  · exact none.2.1 (only _ member)
  · exact none.2.2.1 (only _ member)
  · exact none.2.2.2 (only _ member)

theorem Text.countP_eq_zero_of_notMem {text : Text}
    (marks : ∀ character, test character = true → Text.IsGroupMark character)
    (none : '[' ∉ text ∧ ']' ∉ text ∧ '(' ∉ text ∧ ')' ∉ text) : text.countP test = 0 :=
  countP_eq_zero_of_only marks (fun _ member => member) none

variable (marks : ∀ character, test character = true → Text.IsGroupMark character)
include marks

theorem Text.IsSpace.countP_eq_zero {text : Text} (space : text.IsSpace) :
    text.countP test = 0 :=
  Text.countP_eq_zero_of_only marks space (by decide)

/-- The group marks of an entry stand in its content. -/
theorem Entry.countP_text {entry : Entry} (wellFormed : entry.WellFormed) :
    entry.text.countP test = entry.content.countP test := by
  cases entry with
  | plain content => rfl
  | merged number specifier content =>
      obtain ⟨⟨-, digits⟩, -, -, barred, -⟩ := wellFormed
      have inNumber := Text.countP_eq_zero_of_only marks digits (by decide)
      have inSpecifier := Text.countP_eq_zero_of_only marks barred (by decide)
      have parts : (merged number specifier content).text
          = ('\\' :: MergeText.name ++ ['{']) ++ (number ++ (['}', '{'] ++ (specifier
            ++ (['}', '{'] ++ (content ++ ['}']))))) := by
        simp [text, MergeText.text, MergeText.preamble, mergeText]
      have front : ('\\' :: MergeText.name ++ ['{']).countP test = 0 :=
        Text.countP_eq_zero_of_notMem marks (by decide)
      have between : ['}', '{'].countP test = 0 :=
        Text.countP_eq_zero_of_notMem marks (by decide)
      have back : ['}'].countP test = 0 :=
        Text.countP_eq_zero_of_notMem marks (by decide)
      rw [parts]
      simp only [List.countP_append, front, inNumber, between, inSpecifier, back]
      simp [Entry.content]

theorem WrittenCell.countP_text {cell : WrittenCell} (wellFormed : cell.WellFormed) :
    cell.text.countP test = cell.entry.content.countP test := by
  simp [WrittenCell.text, wellFormed.before.countP_eq_zero marks,
    wellFormed.after.countP_eq_zero marks, Entry.countP_text marks wellFormed.entry]

theorem countP_cellsText {cells : List WrittenCell}
    (wellFormed : ∀ cell ∈ cells, cell.WellFormed) :
    (cellsText cells).countP test = (cells.flatMap (·.entry.content)).countP test := by
  have separator : ['&'].countP test = 0 :=
    Text.countP_eq_zero_of_notMem marks (by decide)
  induction cells with
  | nil => rfl
  | cons cell rest ih =>
      have first := WrittenCell.countP_text marks (wellFormed cell List.mem_cons_self)
      have others := ih fun other member => wellFormed other (List.mem_cons_of_mem _ member)
      cases rest with
      | nil => simpa [cellsText] using first
      | cons next rest =>
          have parts : (cell :: next :: rest).flatMap (·.entry.content)
              = cell.entry.content ++ (next :: rest).flatMap (·.entry.content) := rfl
          have textEq : cellsText (cell :: next :: rest)
              = cell.text ++ (['&'] ++ cellsText (next :: rest)) := rfl
          rw [textEq, List.countP_append, List.countP_append, separator, Nat.zero_add, others,
            first, parts, List.countP_append]

theorem countP_rulesText {gaps : List Text} (spaces : ∀ gap ∈ gaps, gap.IsSpace) :
    (rulesText gaps).countP test = 0 := by
  induction gaps with
  | nil => rfl
  | cons gap rest ih =>
      have name : "\\hline".toList.countP test = 0 :=
        Text.countP_eq_zero_of_notMem marks (by decide)
      rw [rulesText_cons, List.countP_append, List.countP_append, name,
        (spaces gap List.mem_cons_self).countP_eq_zero marks,
        ih fun other member => spaces other (List.mem_cons_of_mem _ member)]

omit marks in
/-- The contents of the entries of rows, one after the other. -/
def entryContents (rows : List WrittenRow) : Text :=
  rows.flatMap fun row => row.cells.flatMap (·.entry.content)

theorem countP_rowsText {rows : List WrittenRow} (wellFormed : ∀ row ∈ rows, row.WellFormed) :
    (Sheet.rowsText rows).countP test = (entryContents rows).countP test := by
  have terminator : "\\\\".toList.countP test = 0 :=
    Text.countP_eq_zero_of_notMem marks (by decide)
  induction rows with
  | nil => rfl
  | cons row rest ih =>
      have rowWellFormed := wellFormed row List.mem_cons_self
      have others := ih fun other member => wellFormed other (List.mem_cons_of_mem _ member)
      have parts : entryContents (row :: rest)
          = row.cells.flatMap (·.entry.content) ++ entryContents rest := rfl
      rw [Sheet.rowsText_cons, List.countP_append, others, parts, List.countP_append,
        WrittenRow.text, List.countP_append, List.countP_append, terminator,
        countP_rulesText marks rowWellFormed.ruleGaps,
        countP_cellsText marks rowWellFormed.cells, Nat.zero_add, Nat.add_zero]

/-- The group marks of a body stand in the contents of its entries. -/
theorem Sheet.countP_body {sheet : Sheet} (wellFormed : sheet.WellFormed) :
    sheet.body.countP test = (entryContents sheet.rows).countP test := by
  rw [Sheet.body, List.countP_append, countP_rowsText marks wellFormed.rows, closingText,
    List.countP_append, countP_rulesText marks wellFormed.closingGaps,
    wellFormed.closingGap.countP_eq_zero marks, Nat.add_zero]

omit marks in
theorem notMem_entryContents {rows : List WrittenRow} (wellFormed : ∀ row ∈ rows, row.WellFormed) :
    '\\' ∉ entryContents rows := by
  intro member
  obtain ⟨row, isRow, inRow⟩ := List.mem_flatMap.mp member
  obtain ⟨cell, isCell, inContent⟩ := List.mem_flatMap.mp inRow
  have entry := ((wellFormed row isRow).cells cell isCell).entry
  have plain : cell.entry.content.IsPlain := by
    cases cellEq : cell.entry with
    | plain content =>
        rw [cellEq] at entry
        exact entry
    | merged number specifier content =>
        rw [cellEq] at entry
        exact entry.2.2.2.2
  exact absurd (plain.ordinary _ inContent) (by decide)

end GroupMarks

namespace Sheet

variable {heading : Heading} {sheet : Sheet}

/-- What the rows of an outline contain. -/
theorem contents_outline (heading : Heading) (sheet : Sheet) :
    ((sheet.outline heading).rows.flatMap fun row => row.cells.flatMap Outline.Cell.content)
      = entryContents sheet.rows := by
  have blanks (count : Nat) :
      (List.replicate count Outline.Cell.blank).flatMap Outline.Cell.content = [] := by
    rw [List.flatMap_eq_nil_iff]
    intro cell member
    obtain rfl := List.eq_of_mem_replicate member
    rfl
  simp only [outline, entryContents, List.flatMap_map, WrittenRow.outline, List.flatMap_append,
    blanks, List.append_nil, Entry.content_outline]

theorem contentsOf_readTable (sheet : Sheet) :
    ((sheet.readTable.rows.map sheet.readTable.outlineRow).flatMap
        fun row => row.cells.flatMap Outline.Cell.content)
      = bodyContents (lex [] sheet.bodyStart .start sheet.body) := by
  have contents := contentsOf_rowsOf sheet.bodyStart (lex [] sheet.bodyStart .start sheet.body)
  have padded := contentsOf_map_padded sheet.columnCount sheet.readRows
  rw [← contents, ← readRows, ← padded]
  simp only [contentsOf, readTable, List.flatMap_map, Table.outlineRow, Table.outlineCell]

/-- A sheet that is read as its own rows is guarded. -/
theorem guarded_of_rows (wellFormed : sheet.WellFormed)
    (rows : sheet.readTable.rows.map sheet.readTable.outlineRow = (sheet.outline heading).rows) :
    sheet.Guarded := by
  by_contra unguarded
  have loses := @loses_lex_rowsText sheet.bodyStart _ _ wellFormed.rows unguarded
  have contents := contentsOf_readTable sheet
  rw [rows, contents_outline] at contents
  have marks : ∀ character, Text.isBracket character = true → Text.IsGroupMark character := by
    intro character bracket
    simp only [Text.isBracket, Bool.or_eq_true, beq_iff_eq] at bracket
    exact bracket.imp_right fun isRound => Or.inr (Or.inl isRound)
  have body := countP_body marks wellFormed
  have whole := flatMap_text_lex [] sheet.bodyStart .start sheet.body
  rcases loses with backslash | fewer
  · rw [← Sheet.body, show (⟨0, true⟩ : Context) = .start from rfl, ← contents] at backslash
    exact notMem_entryContents wellFormed.rows backslash
  · rw [← Sheet.body, show (⟨0, true⟩ : Context) = .start from rfl, ← contents, whole, body]
      at fewer
    exact Nat.lt_irrefl _ fewer

end Sheet

end LatexTabular
