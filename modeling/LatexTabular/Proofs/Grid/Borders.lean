import LatexTabular.Proofs.Border.Chain
import LatexTabular.Proofs.Grid.Layout

/-!
# Borders of grids

An open grid is a grid whose last row may lack its terminator.  The borders of a theme are a
normal form of such documents: setting them succeeds, keeps what the cells say and leaves
nothing to do for the same theme, also after any chain of themes (`OpenGrid.themes_settle`).
-/

namespace LatexTabular

open Text

namespace Grid.Row

/-- A row without its terminator. -/
def stem (row : Row) : Text :=
  '\n' :: ruleLines row.rules ++ " & ".toList.intercalate (row.entries.map Entry.text)

/-- A terminated row with its rules, filled up to a number of columns. -/
def frame (columnCount : Nat) (row : Row) : Frame.Row where
  leading := row.rules
  trailing := 0
  rules := row.rules
  cells := (row.outline columnCount).cells
  separators := row.entries.length - 1
  terminated := true

end Grid.Row

/-- A document with one tabular in its plainest layout, whose last row may lack its
terminator. -/
structure OpenGrid where
  lead : Text
  specifier : Text
  /-- The rows in front of the last one. -/
  rows : List Grid.Row
  last : Grid.Row
  /-- Whether the last row has its terminator. -/
  terminated : Bool
  /-- The number of rules behind the last row. -/
  closingRules : Nat
  trail : Text
  deriving DecidableEq, Repr

namespace OpenGrid

def body (grid : OpenGrid) : Text :=
  grid.rows.flatMap Grid.Row.text ++ (grid.last.stem
    ++ ((if grid.terminated then " \\\\".toList else []) ++ '\n' :: Grid.ruleLines grid.closingRules))

def text (grid : OpenGrid) : Text :=
  grid.lead ++ "\\begin\x7btabular\x7d\x7b".toList ++ grid.specifier ++ "\x7d".toList
    ++ grid.body ++ "\\end\x7btabular\x7d".toList ++ grid.trail

/-- The number of columns that the specifier of a grid declares. -/
def columnCount (grid : OpenGrid) : Nat := grid.specifier.countP isLetter

structure WellFormed (grid : OpenGrid) : Prop where
  lead : '\\' ∉ grid.lead ∧ '%' ∉ grid.lead
  specifier : grid.specifier.IsBarred
  columns : grid.columnCount ≠ 0
  rows : ∀ row ∈ grid.rows, row.WellFormed grid.columnCount
  last : grid.last.WellFormed grid.columnCount
  /-- Without a terminator the last row has a separator or a cell that is not blank. -/
  stands : grid.terminated = false → grid.last.entries ≠ [.blank]
  trail : '\\' ∉ grid.trail ∧ '%' ∉ grid.trail
  /-- The offsets of a document in memory fit a word. -/
  size : grid.text.size < wordLimit

instance {grid : OpenGrid} : Decidable grid.WellFormed :=
  decidable_of_iff (('\\' ∉ grid.lead ∧ '%' ∉ grid.lead) ∧ grid.specifier.IsBarred
      ∧ grid.columnCount ≠ 0 ∧ (∀ row ∈ grid.rows, row.WellFormed grid.columnCount)
      ∧ grid.last.WellFormed grid.columnCount
      ∧ (grid.terminated = false → grid.last.entries ≠ [.blank])
      ∧ ('\\' ∉ grid.trail ∧ '%' ∉ grid.trail) ∧ grid.text.size < wordLimit)
    ⟨fun ⟨lead, specifier, columns, rows, last, stands, trail, size⟩ =>
        ⟨lead, specifier, columns, rows, last, stands, trail, size⟩,
      fun wellFormed => ⟨wellFormed.lead, wellFormed.specifier, wellFormed.columns,
        wellFormed.rows, wellFormed.last, wellFormed.stands, wellFormed.trail,
        wellFormed.size⟩⟩

/-- Whether an offset lies in the tabular of a grid or at either end of it. -/
def Touches (grid : OpenGrid) (offset : Nat) : Prop :=
  grid.lead.size ≤ offset ∧ offset + grid.trail.size ≤ grid.text.size

instance {grid : OpenGrid} {offset : Nat} : Decidable (grid.Touches offset) :=
  inferInstanceAs (Decidable (grid.lead.size ≤ offset
    ∧ offset + grid.trail.size ≤ grid.text.size))

/-- What a grid says, with its rules.  Without a terminator the rules behind the last row stand
in its last cell: in front of it, if that is blank. -/
def frame (grid : OpenGrid) : Frame where
  specifier := grid.specifier
  rows := grid.rows.map (Grid.Row.frame grid.columnCount)
    ++ [{ grid.last.frame grid.columnCount with
      trailing := if !grid.terminated && grid.last.entries.getLast? == some .blank then 0
        else grid.closingRules
      rules := grid.last.rules + grid.closingRules
      terminated := grid.terminated }]

end OpenGrid

/-! ## The layout of a last row without a terminator -/

/-- Entries with blanks between them.  The white space around an empty last one belongs to
what follows. -/
def openCells (lead : Text) : List Entry → List WrittenCell
  | [] => []
  | [entry] => [if entry = .blank then ⟨[], .blank, []⟩ else ⟨lead, entry, []⟩]
  | entry :: rest => .spaced lead entry :: openCells [' '] rest

/-- The white space in front of an empty last entry. -/
def openGap (lead : Text) : List Entry → Text
  | [] => []
  | [entry] => if entry = .blank then lead else []
  | _ :: rest => openGap [' '] rest

theorem cellsText_openCells {entries : List Entry} (nonempty : entries ≠ []) (lead : Text) :
    cellsText (openCells lead entries) ++ openGap lead entries
      = lead ++ " & ".toList.intercalate (entries.map Entry.text) := by
  induction entries generalizing lead with
  | nil => exact absurd rfl nonempty
  | cons entry rest ih =>
      cases rest with
      | nil =>
          by_cases isBlank : entry = .blank
          · subst isBlank
            simp [openCells, openGap, cellsText, WrittenCell.text, Entry.blank, Entry.text]
          · simp [openCells, openGap, isBlank, cellsText, WrittenCell.text]
      | cons next rest =>
          have others := ih (List.cons_ne_nil _ _) [' ']
          obtain ⟨first, behind, cellsEq⟩ : ∃ first behind,
              openCells [' '] (next :: rest) = first :: behind := by
            cases rest <;> exact ⟨_, _, rfl⟩
          have cells : openCells lead (entry :: next :: rest)
              = .spaced lead entry :: first :: behind := by rw [← cellsEq]; rfl
          have gap : openGap lead (entry :: next :: rest) = openGap [' '] (next :: rest) := rfl
          rw [cellsEq] at others
          rw [cells, gap, cellsText_cons_cons, WrittenCell.text_spaced, List.map_cons,
            List.map_cons, List.intercalate_cons_cons, ← List.map_cons, List.append_assoc,
            List.cons_append, others]
          simp

theorem map_entry_openCells (lead : Text) (entries : List Entry) :
    (openCells lead entries).map WrittenCell.entry = entries := by
  induction entries generalizing lead with
  | nil => rfl
  | cons entry rest ih =>
      cases rest with
      | nil =>
          unfold openCells
          split
          next isBlank => rw [isBlank]; rfl
          next => rfl
      | cons next rest =>
          have cells : openCells lead (entry :: next :: rest)
              = .spaced lead entry :: openCells [' '] (next :: rest) := rfl
          rw [cells, List.map_cons, ih, WrittenCell.entry_spaced]

theorem wellFormed_of_mem_openCells {lead : Text} {entries : List Entry} (space : lead.IsSpace)
    (wellFormed : ∀ entry ∈ entries, entry.WellFormed) :
    ∀ cell ∈ openCells lead entries, cell.WellFormed := by
  induction entries generalizing lead with
  | nil => exact fun cell member => absurd member List.not_mem_nil
  | cons entry rest ih =>
      have first := wellFormed entry List.mem_cons_self
      cases rest with
      | nil =>
          intro cell member
          rw [openCells, List.mem_singleton] at member
          rw [member]
          split
          next => exact ⟨isSpace_nil, Entry.wellFormed_blank, isSpace_nil, fun _ => rfl⟩
          next filled =>
            exact ⟨space, first, isSpace_nil, fun empty =>
              absurd (Entry.eq_blank_of_text_eq_nil empty) filled⟩
      | cons next rest =>
          exact List.forall_mem_cons.mpr ⟨WrittenCell.wellFormed_spaced space first,
            ih isSpace_blank fun other member => wellFormed other (List.mem_cons_of_mem _ member)⟩

theorem detached_of_mem_openCells {lead : Text} (nonempty : lead ≠ []) (entries : List Entry) :
    ∀ cell ∈ (openCells lead entries).head?, cell.Detached := by
  cases entries with
  | nil => exact fun cell isFirst => absurd isFirst (Option.not_mem_none cell)
  | cons entry rest =>
      cases rest with
      | cons next rest =>
          rintro _ ⟨⟩
          exact WrittenCell.detached_spaced entry nonempty
      | nil =>
          rintro _ ⟨⟩
          split
          next =>
            refine Or.inr ?_
            rintro content ⟨⟩
            rfl
          next => exact Or.inl nonempty

theorem after_of_mem_openCells (lead : Text) (entries : List Entry) :
    ∀ cell ∈ (openCells lead entries).getLast?, cell.after = [] := by
  induction entries generalizing lead with
  | nil => exact fun cell isLast => absurd isLast (Option.not_mem_none cell)
  | cons entry rest ih =>
      cases rest with
      | nil =>
          rintro _ ⟨⟩
          split <;> rfl
      | cons next rest =>
          have cells : openCells lead (entry :: next :: rest)
              = .spaced lead entry :: openCells [' '] (next :: rest) := rfl
          have some : openCells [' '] (next :: rest) ≠ [] := by
            cases rest <;> exact List.cons_ne_nil _ _
          rw [cells, List.getLast?_cons_of_ne_nil some]
          exact ih [' ']

theorem isSpace_openGap {lead : Text} (space : lead.IsSpace) (entries : List Entry) :
    (openGap lead entries).IsSpace := by
  induction entries generalizing lead with
  | nil => exact isSpace_nil
  | cons entry rest ih =>
      cases rest with
      | nil =>
          unfold openGap
          split
          · exact space
          · exact isSpace_nil
      | cons next rest => exact ih isSpace_blank

/-- Rules at the starts of lines, the first of them behind other white space, and the white
space behind them. -/
def gapsBehind (space : Text) : (rules : Nat) → List Text × Text
  | 0 => ([], space ++ ['\n'])
  | rules + 1 => ((space ++ ['\n']) :: List.replicate rules ['\n'], ['\n'])

theorem rulesText_gapsBehind (space : Text) (rules : Nat) :
    rulesText (gapsBehind space rules).1 ++ (gapsBehind space rules).2
      = space ++ '\n' :: Grid.ruleLines rules := by
  cases rules with
  | zero => rfl
  | succ rules =>
      have lines := Grid.rulesText_replicate_append (rules + 1) []
      rw [List.replicate_succ, rulesText_cons] at lines
      rw [gapsBehind, rulesText_cons]
      simpa using lines

theorem isSpace_gapsBehind {space : Text} (white : space.IsSpace) (rules : Nat) :
    (∀ gap ∈ (gapsBehind space rules).1, gap.IsSpace) ∧ (gapsBehind space rules).2.IsSpace := by
  have newline : IsSpace ['\n'] := by
    intro character member
    obtain rfl := List.mem_singleton.mp member
    decide
  cases rules with
  | zero => exact ⟨fun gap member => absurd member List.not_mem_nil, white.append newline⟩
  | succ rules =>
      refine ⟨List.forall_mem_cons.mpr ⟨white.append newline, fun gap member => ?_⟩, newline⟩
      rw [List.eq_of_mem_replicate member]
      exact newline

theorem length_gapsBehind (space : Text) (rules : Nat) :
    (gapsBehind space rules).1.length = rules := by
  cases rules <;> simp [gapsBehind]

namespace OpenGrid

/-- The last row of a grid with what follows it. -/
def ending (grid : OpenGrid) : Ending :=
  if grid.terminated then
    { row := grid.last.written
      gaps := []
      gap := []
      closing := some ⟨List.replicate grid.closingRules ['\n'], ['\n']⟩ }
  else
    let behind := gapsBehind (openGap ['\n'] grid.last.entries) grid.closingRules
    { row := ⟨List.replicate grid.last.rules ['\n'], openCells ['\n'] grid.last.entries⟩
      gaps := behind.1
      gap := behind.2
      closing := none }

/-- A grid with the white space around its tokens. -/
def sheet (grid : OpenGrid) : OpenSheet where
  lead := grid.lead
  specifier := grid.specifier
  rows := grid.rows.map Grid.Row.written
  ending := grid.ending
  trail := grid.trail

variable {grid : OpenGrid}

theorem text_ending (nonempty : grid.last.entries ≠ []) :
    grid.ending.text = grid.last.stem ++ ((if grid.terminated then " \\\\".toList else [])
      ++ '\n' :: Grid.ruleLines grid.closingRules) := by
  cases terminated : grid.terminated with
  | true =>
      have row : grid.last.written.opened ++ "\\\\".toList = grid.last.stem ++ " \\\\".toList :=
        Grid.Row.text_written nonempty
      have closing := Grid.rulesText_replicate_append grid.closingRules []
      have text : grid.ending.text = grid.last.written.opened ++ ("\\\\".toList
          ++ (rulesText (List.replicate grid.closingRules ['\n']) ++ ['\n'])) := by
        rw [ending, terminated]
        rfl
      rw [text, ← List.append_assoc, row, closing, List.append_nil, if_pos rfl, List.append_assoc]
  | false =>
      have cells := cellsText_openCells nonempty ['\n']
      have behind := rulesText_gapsBehind (openGap ['\n'] grid.last.entries) grid.closingRules
      have front := Grid.rulesText_replicate_append grid.last.rules
        (" & ".toList.intercalate (grid.last.entries.map Entry.text)
          ++ '\n' :: Grid.ruleLines grid.closingRules)
      have text : grid.ending.text = rulesText (List.replicate grid.last.rules ['\n'])
          ++ ((cellsText (openCells ['\n'] grid.last.entries)
            ++ openGap ['\n'] grid.last.entries) ++ '\n' :: Grid.ruleLines grid.closingRules) := by
        rw [List.append_assoc, ← behind]
        simp [ending, terminated, Ending.text, Ending.closingText, WrittenRow.opened]
      rw [text, cells, Grid.Row.stem]
      simpa using front

theorem text_sheet (wellFormed : grid.WellFormed) : grid.sheet.text = grid.text := by
  have rows : Sheet.rowsText (grid.rows.map Grid.Row.written) = grid.rows.flatMap Grid.Row.text := by
    rw [Sheet.rowsText, List.flatMap_map]
    exact List.flatMap_congr fun row member =>
      Grid.Row.text_written (wellFormed.rows row member).nonempty
  have body : grid.sheet.body = grid.body := by
    have ending := text_ending wellFormed.last.nonempty
    rw [OpenSheet.body, OpenGrid.body, ← ending, ← rows]
    rfl
  have opened : Sheet.opening ++ ['{'] = "\\begin\x7btabular\x7d\x7b".toList := by decide
  have front : grid.lead ++ Sheet.opening ++ ['{']
      = grid.lead ++ "\\begin\x7btabular\x7d\x7b".toList := by rw [List.append_assoc, opened]
  have closed : "\x7d".toList = ['}'] := by decide
  have ended : "\\end\x7btabular\x7d".toList = Sheet.closing := rfl
  have lead : grid.sheet.lead = grid.lead := rfl
  have specifier : grid.sheet.specifier = grid.specifier := rfl
  have trail : grid.sheet.trail = grid.trail := rfl
  rw [OpenSheet.text_eq, body, lead, specifier, trail, text, ← front, closed, ended]
  simp only [List.append_assoc, List.cons_append, List.nil_append]

/-- A document is longer than its specifier has letters. -/
theorem WellFormed.columnCount_lt (wellFormed : grid.WellFormed) : grid.columnCount < wordLimit := by
  have letters : grid.columnCount ≤ grid.specifier.length := List.countP_le_length
  have bytes : grid.specifier.length ≤ grid.specifier.size := Text.length_le_size _
  have whole : grid.specifier.size ≤ grid.text.size := by
    rw [text, List.append_assoc, List.append_assoc, List.append_assoc, List.append_assoc,
      Text.size_append, Text.size_append _ (_ ++ _)]
    exact Nat.le_add_left_of_le (Nat.le_add_right _ _)
  exact Nat.lt_of_le_of_lt (letters.trans (bytes.trans whole)) wellFormed.size

theorem WellFormed.ending (wellFormed : grid.WellFormed) : grid.ending.WellFormed := by
  have limit := wellFormed.columnCount_lt
  have newline : IsSpace ['\n'] := by
    intro character member
    obtain rfl := List.mem_singleton.mp member
    decide
  have newlines (rules : Nat) : ∀ gap ∈ List.replicate rules ['\n'], IsSpace gap := by
    intro gap member
    rw [List.eq_of_mem_replicate member]
    exact newline
  unfold OpenGrid.ending
  split
  next =>
    refine ⟨wellFormed.last.written limit, ?_, fun gap member => absurd member List.not_mem_nil,
      isSpace_nil, ?_, ?_, nofun, ?_⟩
    · exact fun cell isFirst =>
        Grid.Row.detached_of_mem_written (List.mem_of_mem_head? isFirst)
    · rintro _ ⟨⟩
      exact newlines _
    · rintro _ ⟨⟩
      exact newline
    · rintro (⟨⟨⟩⟩ | some)
      exact absurd rfl some
  next open' =>
    have entries : ∀ entry ∈ grid.last.entries, entry.WellFormed := fun entry member =>
      (wellFormed.last.entries entry member).wellFormed (wellFormed.last.width_lt limit member)
    have white := isSpace_openGap newline grid.last.entries
    obtain ⟨gaps, gap⟩ := isSpace_gapsBehind white grid.closingRules
    have written := map_entry_openCells ['\n'] grid.last.entries
    refine ⟨⟨newlines _, ?_, wellFormed_of_mem_openCells newline entries⟩,
      detached_of_mem_openCells (List.cons_ne_nil _ _) _, gaps, gap,
      nofun, nofun, fun _ => after_of_mem_openCells _ _, fun _ single => ?_⟩
    · intro empty
      dsimp only at empty
      rw [empty] at written
      exact wellFormed.last.nonempty written.symm
    · have texts : grid.last.entries.map Entry.text = [[]] := by
        rw [← written, List.map_map]
        exact single
      obtain ⟨entry, only, empty⟩ := List.map_eq_singleton_iff.mp texts
      rw [Entry.eq_blank_of_text_eq_nil empty] at only
      exact wellFormed.stands (by simpa using open') only

theorem WellFormed.sheet (wellFormed : grid.WellFormed) : grid.sheet.WellFormed where
  lead := wellFormed.lead
  specifier := wellFormed.specifier
  rows := List.forall_mem_map.mpr fun row member =>
    (wellFormed.rows row member).written wellFormed.columnCount_lt
  detached := List.forall_mem_map.mpr fun _ _ _ isFirst =>
    Grid.Row.detached_of_mem_written (List.mem_of_mem_head? isFirst)
  ending := wellFormed.ending
  trail := wellFormed.trail

/-- A row that is written with the entries of a grid has their frame. -/
theorem frame_written {row : Grid.Row} {written : WrittenRow} (columnCount : Nat)
    (rules : written.ruleGaps.length = row.rules)
    (entries : written.cells.map WrittenCell.entry = row.entries) :
    written.frame columnCount = row.frame columnCount := by
  have length : written.cells.length = row.entries.length := by
    rw [← entries, List.length_map]
  simp only [WrittenRow.frame, Grid.Row.frame, rules, length, WrittenRow.cells_outline, entries]
  rfl

theorem frame_ending (grid : OpenGrid) (columnCount : Nat) :
    grid.ending.frame columnCount = { grid.last.frame columnCount with
      trailing := if !grid.terminated && grid.last.entries.getLast? == some .blank then 0
        else grid.closingRules
      rules := grid.last.rules + grid.closingRules
      terminated := grid.terminated } := by
  cases terminated : grid.terminated with
  | true =>
      have row := @frame_written grid.last grid.last.written columnCount List.length_replicate
        (map_entry_spacedCells _)
      have trailing : grid.ending.trailing = grid.closingRules := by
        simp [Ending.trailing, Ending.closingCount, ending, terminated]
      have rowEq : grid.ending.row = grid.last.written := by rw [ending, if_pos terminated]
      rw [Ending.frame, trailing, rowEq, row]
      simp [ending, terminated, Ending.closingCount, Grid.Row.written]
  | false =>
      have entries := map_entry_openCells ['\n'] grid.last.entries
      have row := @frame_written grid.last
        ⟨List.replicate grid.last.rules ['\n'], openCells ['\n'] grid.last.entries⟩ columnCount
        List.length_replicate entries
      have blank : grid.ending.row.EndsBlank ↔ grid.last.entries.getLast? = some .blank := by
        have texts : grid.ending.row.cells.map (·.entry.text)
            = grid.last.entries.map Entry.text := by
          rw [← entries, List.map_map, ending, terminated]
          rfl
        rw [WrittenRow.EndsBlank, ← List.getLast?_map, texts, List.getLast?_map]
        cases grid.last.entries.getLast? with
        | none => simp
        | some entry =>
            simp only [Option.map_some, Option.some.injEq]
            exact ⟨Entry.eq_blank_of_text_eq_nil, fun isBlank => by rw [isBlank]; rfl⟩
      have trailing : grid.ending.trailing
          = if grid.last.entries.getLast? = some .blank then 0 else grid.closingRules := by
        simp only [Ending.trailing, blank]
        simp [Ending.closingCount, ending, terminated, length_gapsBehind]
      rw [Ending.frame, trailing]
      simp [ending, terminated, row, Ending.closingCount, length_gapsBehind]

theorem frame_sheet (grid : OpenGrid) : grid.sheet.frame = grid.frame := by
  have rows (columnCount : Nat) : (grid.rows.map Grid.Row.written).map (WrittenRow.frame columnCount)
      = grid.rows.map (Grid.Row.frame columnCount) := by
    rw [List.map_map]
    exact List.map_congr_left fun row _ =>
      frame_written columnCount List.length_replicate (map_entry_spacedCells _)
  rw [OpenSheet.frame, frame, ← frame_ending, ← rows]
  rfl

/-- Setting the borders of a theme succeeds on a grid wherever in its tabular it is asked for.
The table is read again with the same contents and spans, with rewritten specifiers and with
the rules of the theme, and nothing is left to do for the theme.  Themes can be set one after
another; the cells keep what they say, and the last theme decides about the borders.  On a
table whose borders were removed, full borders are written once. -/
theorem themes_settle (wellFormed : grid.WellFormed) {offset : Nat} (touches : grid.Touches offset)
    (selection : Option Selection) :
    ∃ table, Table.readAll grid.text = .ok [table] ∧ Table.readAt grid.text offset = .ok table ∧
      table.frame = grid.frame ∧
      (∀ theme, ∃ applied table',
        (Command.setBorders theme).apply grid.text offset selection {} = .ok applied ∧
          Table.readAll applied.document = .ok [table'] ∧ table.HasBorders theme table') ∧
      (∀ themes theme, ∃ document table' document' table'',
        setThemes grid.lead.size grid.text themes = .ok document ∧
          Table.readAll document = .ok [table'] ∧ table'.contents = table.contents ∧
          setThemes grid.lead.size grid.text (themes ++ [theme]) = .ok document' ∧
          Table.readAll document' = .ok [table''] ∧ table'.HasBorders theme table'') ∧
      ∀ themes, ∃ document table',
        setThemes grid.lead.size grid.text (themes ++ [.noBorders, .fullyBordered]) = .ok document ∧
          Table.readAll document = .ok [table'] ∧ table'.frame.HasSingleRules := by
  have sheetWellFormed := wellFormed.sheet
  have textEq := text_sheet wellFormed
  have begins : grid.sheet.lead.size ≤ offset := touches.1
  have ends : offset + grid.sheet.trail.size ≤ grid.sheet.text.size := by
    rw [textEq]
    exact touches.2
  rw [← textEq]
  have chain (themes : List BorderTheme) : setThemes grid.lead.size grid.sheet.text themes
      = .ok (themes.foldl (fun sheet theme => sheet.themed theme) grid.sheet).text :=
    OpenSheet.setThemes_eq sheetWellFormed themes
  have chained := OpenSheet.WellFormed.foldl_themed sheetWellFormed
  refine ⟨grid.sheet.table, OpenSheet.readAll_text sheetWellFormed,
    OpenSheet.readAt_text sheetWellFormed begins ends,
    (OpenSheet.frame_table sheetWellFormed).trans grid.frame_sheet, fun theme => ?_,
    fun themes theme => ?_, fun themes => ?_⟩
  · exact ⟨_, _, OpenSheet.apply_themed sheetWellFormed begins ends selection theme,
      OpenSheet.readAll_text (sheetWellFormed.themed theme),
      OpenSheet.hasBorders_themed sheetWellFormed theme⟩
  · refine ⟨_, _, _, _, chain themes, OpenSheet.readAll_text (chained themes),
      OpenSheet.contents_foldl_themed sheetWellFormed themes, chain _,
      OpenSheet.readAll_text (chained _), ?_⟩
    rw [List.foldl_concat]
    exact OpenSheet.hasBorders_themed (chained themes) theme
  · have bare := (chained themes).themed .noBorders
    refine ⟨_, _, chain _, OpenSheet.readAll_text (chained _), ?_⟩
    rw [List.foldl_append, List.foldl_cons, List.foldl_cons, List.foldl_nil,
      OpenSheet.frame_table (bare.themed .fullyBordered), OpenSheet.frame_themed bare,
      OpenSheet.frame_themed (chained themes)]
    exact Frame.hasSingleRules_withTheme _

/-- A grid with a merged cell, whose last row ends with a blank cell and a rule in it. -/
def openSample : OpenGrid where
  lead := "x".toList
  specifier := "|lc".toList
  rows := [⟨1, [.merged "2".toList "c|".toList "a".toList]⟩]
  last := ⟨0, [.plain "b".toList, .blank]⟩
  terminated := false
  closingRules := 1
  trail := "y".toList

/-- The rule in the blank last cell stands in front of it, so the last row gets its terminator
and another rule. -/
theorem themes_settle_openSample :
    openSample.WellFormed ∧ openSample.Touches 9 ∧ ∃ applied table',
      (Command.setBorders .fullyBordered).apply openSample.text 9 none {} = .ok applied ∧
        Table.readAll applied.document = .ok [table'] ∧
        table'.frame.rows.map (fun row => (row.leading, row.trailing, row.rules, row.terminated))
          = [(1, 0, 1, true), (1, 1, 3, true)] ∧
        Plan.setBorders table' .fullyBordered {} = [] := by
  have wellFormed : openSample.WellFormed := by decide +kernel
  have touches : openSample.Touches 9 := by decide +kernel
  have rules : (openSample.frame.withTheme .fullyBordered).rows.map
      (fun row => (row.leading, row.trailing, row.rules, row.terminated))
        = [(1, 0, 1, true), (1, 1, 3, true)] := by decide +kernel
  obtain ⟨table, -, -, framed, settles, -⟩ := themes_settle wellFormed touches none
  obtain ⟨applied, table', ofCommand, read, borders⟩ := settles .fullyBordered
  refine ⟨wellFormed, touches, applied, table', ofCommand, read, ?_, borders.settled⟩
  rw [borders.frame, framed]
  exact rules

end OpenGrid

end LatexTabular
