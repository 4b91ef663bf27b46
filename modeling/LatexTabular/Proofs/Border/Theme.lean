import LatexTabular.Proofs.Border.Rows

/-!
# Open sheets with the borders of a theme

`OpenSheet.themed` is an open sheet with the borders of a theme: rules that go leave their
white space to what follows, new rules bring their own.  It is well-formed again
(`OpenSheet.WellFormed.themed`), and its frame has the borders of the theme
(`OpenSheet.frame_themed`).
-/

namespace LatexTabular

open Text

/-- An entry with another specifier, if it is merged. -/
def Entry.respecified (rewrite : Text → Text) : Entry → Entry
  | plain content => plain content
  | merged number specifier content => merged number (rewrite specifier) content

def WrittenCell.respecified (rewrite : Text → Text) (cell : WrittenCell) : WrittenCell :=
  { cell with entry := cell.entry.respecified rewrite }

/-- Cells with white space put in front of the first one. -/
def indentedCells (gap : Text) : List WrittenCell → List WrittenCell
  | [] => []
  | cell :: rest => cell.indented gap :: rest

namespace WrittenRow

def respecified (rewrite : Text → Text) (row : WrittenRow) : WrittenRow :=
  { row with cells := row.cells.map (WrittenCell.respecified rewrite) }

/-- A row with other rules, and with white space put behind them. -/
def regapped (ruleGaps : List Text) (gap : Text) (row : WrittenRow) : WrittenRow :=
  ⟨ruleGaps, indentedCells gap row.cells⟩

/-- A row without its rules. -/
def bare (row : WrittenRow) : WrittenRow := row.regapped [] row.ruleGaps.flatten

/-- A row with a rule in front of its cells. -/
def withLeading (row : WrittenRow) : WrittenRow :=
  if row.ruleGaps = [] then row.regapped [[' ']] [' '] else row

/-- A row with the borders of a theme in front of its cells. -/
def themed (theme : BorderTheme) (row : WrittenRow) : WrittenRow :=
  let row := row.respecified theme.rewrite
  match theme with
  | .noBorders => row.bare
  | .fullyBordered => row.withLeading

end WrittenRow

namespace Ending

/-- An ending without the rules behind its cells. -/
def bare (ending : Ending) : Ending :=
  { ending with
    gaps := []
    gap := ending.gaps.flatten ++ ending.gap
    closing := ending.closing.map fun closing => ⟨[], closing.gaps.flatten ++ closing.gap⟩ }

/-- An ending with a rule behind its cells.  It stands behind a terminator, which is put
there if it is missing. -/
def withTrailing (ending : Ending) : Ending :=
  if ending.trailing = 0 then
    match ending.closing with
    | none => { ending with gap := [' '], closing := some ⟨[[' ']], ending.gap⟩ }
    | some closing => { ending with closing := some ⟨[[' ']], closing.gap⟩ }
  else ending

/-- An ending with the borders of a theme. -/
def themed (theme : BorderTheme) (ending : Ending) : Ending :=
  let ending := { ending with row := ending.row.themed theme }
  match theme with
  | .noBorders => ending.bare
  | .fullyBordered => ending.withTrailing

end Ending

/-- An open sheet with the borders of a theme. -/
def OpenSheet.themed (theme : BorderTheme) (sheet : OpenSheet) : OpenSheet :=
  { sheet with
    specifier := theme.rewrite sheet.specifier
    rows := sheet.rows.map (WrittenRow.themed theme)
    ending := sheet.ending.themed theme }

namespace Entry

variable {entry : Entry}

theorem outline_respecified (rewrite : Text → Text) (entry : Entry) :
    (entry.respecified rewrite).outline = entry.outline.respecified rewrite := by
  cases entry <;> rfl

theorem width_respecified (rewrite : Text → Text) (entry : Entry) :
    (entry.respecified rewrite).width = entry.width := by
  cases entry <;> rfl

/-- Another specifier leaves an entry empty or not. -/
theorem text_respecified_eq_nil_iff (rewrite : Text → Text) (entry : Entry) :
    (entry.respecified rewrite).text = [] ↔ entry.text = [] := by
  cases entry with
  | plain content => exact Iff.rfl
  | merged number specifier content =>
      simp [respecified, text, Body.MergeText.text, Body.MergeText.preamble]

theorem WellFormed.respecified (wellFormed : entry.WellFormed) (theme : BorderTheme) :
    (entry.respecified theme.rewrite).WellFormed := by
  cases entry with
  | plain content => exact wellFormed
  | merged number specifier content =>
      obtain ⟨numeral, positive, fits, barred, plain⟩ := wellFormed
      exact ⟨numeral, positive, fits, (theme.isBarred_rewrite barred).1, plain⟩

end Entry

namespace WrittenCell

variable {cell : WrittenCell}

theorem WellFormed.respecified (wellFormed : cell.WellFormed) (theme : BorderTheme) :
    (cell.respecified theme.rewrite).WellFormed :=
  ⟨wellFormed.before, wellFormed.entry.respecified theme, wellFormed.after, fun empty =>
    wellFormed.anchored ((cell.entry.text_respecified_eq_nil_iff _).mp empty)⟩

theorem Detached.respecified (detached : cell.Detached) (rewrite : Text → Text) :
    (cell.respecified rewrite).Detached := by
  refine detached.imp_right fun empty content isPlain => ?_
  obtain ⟨before, entry, after⟩ := cell
  cases entry with
  | plain text => exact empty content isPlain
  | merged number specifier text => exact Entry.noConfusion isPlain

end WrittenCell

section Cells

variable {gap : Text} {cells : List WrittenCell}

theorem cellsText_indentedCells (wellFormed : ∀ cell ∈ cells, cell.WellFormed)
    (nonempty : cells ≠ []) (gap : Text) :
    cellsText (indentedCells gap cells) = gap ++ cellsText cells := by
  cases cells with
  | nil => exact absurd rfl nonempty
  | cons cell rest =>
      rw [indentedCells, cellsText_cons, cellsText_cons,
        WrittenCell.text_indented (wellFormed cell List.mem_cons_self).anchored, List.append_assoc]

theorem map_entry_indentedCells (gap : Text) (cells : List WrittenCell) :
    (indentedCells gap cells).map WrittenCell.entry = cells.map WrittenCell.entry := by
  cases cells with
  | nil => rfl
  | cons cell rest => simp [indentedCells, WrittenCell.entry_indented]

theorem wellFormed_of_mem_indentedCells (wellFormed : ∀ cell ∈ cells, cell.WellFormed)
    (space : gap.IsSpace) : ∀ cell ∈ indentedCells gap cells, cell.WellFormed := by
  cases cells with
  | nil => exact wellFormed
  | cons cell rest =>
      exact List.forall_mem_cons.mpr ⟨(wellFormed cell List.mem_cons_self).indented space,
        fun other member => wellFormed other (List.mem_cons_of_mem _ member)⟩

theorem detached_of_mem_indentedCells (detached : ∀ cell ∈ cells.head?, cell.Detached)
    (gap : Text) : ∀ cell ∈ (indentedCells gap cells).head?, cell.Detached := by
  cases cells with
  | nil => exact detached
  | cons cell rest =>
      rintro _ ⟨⟩
      exact (detached cell rfl).indented gap

/-- White space in front of the first cell stays in front of its text, if it has one. -/
theorem after_of_mem_indentedCells (fills : cells.map (·.entry.text) ≠ [[]])
    (flush : ∀ cell ∈ cells.getLast?, cell.after = []) (gap : Text) :
    ∀ cell ∈ (indentedCells gap cells).getLast?, cell.after = [] := by
  cases cells with
  | nil => exact flush
  | cons cell rest =>
      cases rest with
      | cons next rest => simpa [indentedCells] using flush
      | nil =>
          have filled : cell.entry.text ≠ [] := by simpa using fills
          rintro _ ⟨⟩
          rw [WrittenCell.indented, if_neg filled]
          exact flush cell rfl

end Cells

theorem isSpace_flatten {gaps : List Text} (spaces : ∀ gap ∈ gaps, gap.IsSpace) :
    IsSpace gaps.flatten := by
  intro character member
  obtain ⟨gap, isGap, inGap⟩ := List.mem_flatten.mp member
  exact spaces gap isGap character inGap

namespace WrittenRow

variable {row : WrittenRow}

section Respecified

variable (theme : BorderTheme)

theorem WellFormed.respecified (wellFormed : row.WellFormed) :
    (row.respecified theme.rewrite).WellFormed := by
  refine ⟨wellFormed.ruleGaps, by simpa [WrittenRow.respecified] using wellFormed.nonempty, ?_⟩
  intro cell member
  obtain ⟨other, isCell, rfl⟩ := List.mem_map.mp member
  exact (wellFormed.cells other isCell).respecified theme

theorem Detached.respecified (detached : row.Detached) :
    (row.respecified theme.rewrite).Detached := by
  intro cell isFirst
  rw [WrittenRow.respecified, List.head?_map] at isFirst
  obtain ⟨other, isOther, rfl⟩ := Option.map_eq_some_iff.mp isFirst
  exact (detached other isOther).respecified theme.rewrite

end Respecified

section Regapped

variable {ruleGaps : List Text} {gap : Text}

theorem WellFormed.regapped (wellFormed : row.WellFormed) (gaps : ∀ other ∈ ruleGaps, other.IsSpace)
    (space : gap.IsSpace) : (row.regapped ruleGaps gap).WellFormed := by
  refine ⟨gaps, ?_, wellFormed_of_mem_indentedCells wellFormed.cells space⟩
  obtain ⟨_, cells⟩ := row
  cases cells with
  | nil => exact wellFormed.nonempty
  | cons cell rest => exact List.cons_ne_nil _ _

theorem Detached.regapped (detached : row.Detached) : (row.regapped ruleGaps gap).Detached :=
  detached_of_mem_indentedCells detached gap

end Regapped

/-- A row with the borders of a theme has other specifiers and may have other rules. -/
theorem themed_cases {motive : WrittenRow → Prop} (theme : BorderTheme)
    (wellFormed : row.WellFormed) (kept : motive (row.respecified theme.rewrite))
    (regapped : ∀ (ruleGaps : List Text) (gap : Text), (∀ other ∈ ruleGaps, other.IsSpace) →
      gap.IsSpace → motive ((row.respecified theme.rewrite).regapped ruleGaps gap)) :
    motive (row.themed theme) := by
  cases theme with
  | noBorders =>
      exact regapped _ _ (fun _ member => absurd member List.not_mem_nil)
        (isSpace_flatten wellFormed.ruleGaps)
  | fullyBordered =>
      simp only [themed, withLeading]
      split
      · refine regapped _ _ (fun other member => ?_) isSpace_blank
        obtain rfl := List.mem_singleton.mp member
        exact isSpace_blank
      · exact kept

theorem WellFormed.themed (wellFormed : row.WellFormed) (theme : BorderTheme) :
    (row.themed theme).WellFormed :=
  themed_cases theme wellFormed (wellFormed.respecified theme)
    fun _ _ => (wellFormed.respecified theme).regapped

theorem Detached.themed (detached : row.Detached) (wellFormed : row.WellFormed)
    (theme : BorderTheme) : (row.themed theme).Detached :=
  themed_cases theme wellFormed (detached.respecified theme)
    fun _ _ _ _ => (detached.respecified theme).regapped

theorem map_entry_respecified (rewrite : Text → Text) (row : WrittenRow) :
    (row.respecified rewrite).cells.map WrittenCell.entry
      = (row.cells.map WrittenCell.entry).map (Entry.respecified rewrite) := by
  rw [respecified, List.map_map, List.map_map]
  rfl

/-- A theme changes nothing in the entries but the specifiers. -/
theorem map_entry_themed (wellFormed : row.WellFormed) (theme : BorderTheme) :
    (row.themed theme).cells.map WrittenCell.entry
      = (row.cells.map WrittenCell.entry).map (Entry.respecified theme.rewrite) := by
  rw [← map_entry_respecified]
  exact @themed_cases row (fun other => other.cells.map WrittenCell.entry
      = (row.respecified theme.rewrite).cells.map WrittenCell.entry) theme wellFormed rfl
    fun _ gap _ _ => map_entry_indentedCells gap _

/-- So it leaves the last cell empty or not. -/
theorem endsBlank_themed (wellFormed : row.WellFormed) (theme : BorderTheme) :
    (row.themed theme).EndsBlank ↔ row.EndsBlank := by
  have last (row : WrittenRow) : row.EndsBlank
      ↔ ((row.cells.map WrittenCell.entry).getLast?.map Entry.text) = some [] := by
    rw [EndsBlank, List.getLast?_map, Option.map_map]
    rfl
  rw [last, last, map_entry_themed wellFormed, List.getLast?_map, Option.map_map]
  cases (row.cells.map WrittenCell.entry).getLast? with
  | none => simp
  | some entry => simp [Entry.text_respecified_eq_nil_iff]

/-- Other specifiers leave a row one empty cell or not. -/
theorem map_text_ne_of_map_entry {rewrite : Text → Text} {cells cells' : List WrittenCell}
    (entries : cells'.map WrittenCell.entry
      = (cells.map WrittenCell.entry).map (Entry.respecified rewrite))
    (fills : cells.map (·.entry.text) ≠ [[]]) : cells'.map (·.entry.text) ≠ [[]] := by
  have texts (cells : List WrittenCell) : cells.map (fun cell : WrittenCell => cell.entry.text)
      = (cells.map WrittenCell.entry).map Entry.text := by
    rw [List.map_map]
    rfl
  rw [texts] at fills ⊢
  rw [entries]
  intro single
  rw [List.map_map, List.map_eq_singleton_iff] at single
  obtain ⟨entry, only, empty⟩ := single
  rw [only] at fills
  exact fills (by simpa using (entry.text_respecified_eq_nil_iff rewrite).mp empty)

theorem after_themed (wellFormed : row.WellFormed) (theme : BorderTheme)
    (fills : row.cells.map (·.entry.text) ≠ [[]])
    (flush : ∀ cell ∈ row.cells.getLast?, cell.after = []) :
    ∀ cell ∈ (row.themed theme).cells.getLast?, cell.after = [] := by
  have respecified : ∀ cell ∈ (row.respecified theme.rewrite).cells.getLast?,
      cell.after = [] := by
    intro cell isLast
    rw [WrittenRow.respecified, List.getLast?_map] at isLast
    obtain ⟨other, isOther, rfl⟩ := Option.map_eq_some_iff.mp isLast
    exact flush other isOther
  have filled := map_text_ne_of_map_entry (row.map_entry_respecified theme.rewrite) fills
  exact @themed_cases row (fun other => ∀ cell ∈ other.cells.getLast?, cell.after = []) theme
    wellFormed respecified fun _ gap _ _ => after_of_mem_indentedCells filled respecified gap

end WrittenRow

namespace Ending

variable {ending : Ending}

theorem WellFormed.withRow (wellFormed : ending.WellFormed) (theme : BorderTheme) :
    ({ ending with row := ending.row.themed theme } : Ending).WellFormed where
  row := wellFormed.row.themed theme
  detached := wellFormed.detached.themed wellFormed.row theme
  gaps := wellFormed.gaps
  gap := wellFormed.gap
  closingGaps := wellFormed.closingGaps
  closingGap := wellFormed.closingGap
  flush unclosed := WrittenRow.after_themed wellFormed.row theme
    (wellFormed.fills (Or.inl unclosed)) (wellFormed.flush unclosed)
  fills open' := WrittenRow.map_text_ne_of_map_entry
    (WrittenRow.map_entry_themed wellFormed.row theme) (wellFormed.fills open')

theorem WellFormed.bare (wellFormed : ending.WellFormed) : ending.bare.WellFormed := by
  refine ⟨wellFormed.row, wellFormed.detached, fun gap member => absurd member List.not_mem_nil,
    (isSpace_flatten wellFormed.gaps).append wellFormed.gap, ?_, ?_, fun unclosed => ?_,
    fun open' => ?_⟩
  · intro closing isClosing gap member
    obtain ⟨other, -, rfl⟩ := Option.map_eq_some_iff.mp isClosing
    exact absurd member List.not_mem_nil
  · intro closing isClosing
    obtain ⟨other, isOther, rfl⟩ := Option.map_eq_some_iff.mp isClosing
    exact (isSpace_flatten (wellFormed.closingGaps other isOther)).append
      (wellFormed.closingGap other isOther)
  · exact wellFormed.flush (Option.map_eq_none_iff.mp unclosed)
  · refine wellFormed.fills (open'.imp_left Option.map_eq_none_iff.mp |>.resolve_right ?_ |> Or.inl)
    exact fun nonempty => nonempty rfl

theorem WellFormed.withTrailing (wellFormed : ending.WellFormed) :
    ending.withTrailing.WellFormed := by
  have single : ∀ gap ∈ [[' ']], IsSpace gap := by
    intro gap member
    obtain rfl := List.mem_singleton.mp member
    exact isSpace_blank
  unfold Ending.withTrailing
  split
  next =>
    cases closed : ending.closing with
    | none =>
        refine ⟨wellFormed.row, wellFormed.detached, wellFormed.gaps, isSpace_blank, ?_, ?_, nofun,
          fun _ => wellFormed.fills (Or.inl closed)⟩
        · rintro _ ⟨⟩
          exact single
        · rintro _ ⟨⟩
          exact wellFormed.gap
    | some closing =>
        refine ⟨wellFormed.row, wellFormed.detached, wellFormed.gaps, wellFormed.gap, ?_, ?_, nofun,
          fun open' => wellFormed.fills (Or.inr (open'.resolve_left nofun))⟩
        · rintro _ ⟨⟩
          exact single
        · rintro _ ⟨⟩
          exact wellFormed.closingGap closing closed
  next => exact wellFormed

theorem WellFormed.themed (wellFormed : ending.WellFormed) (theme : BorderTheme) :
    (ending.themed theme).WellFormed := by
  have themed := wellFormed.withRow theme
  cases theme with
  | noBorders => exact themed.bare
  | fullyBordered => exact themed.withTrailing

end Ending

/-- An open sheet with the borders of a theme is well-formed, too. -/
theorem OpenSheet.WellFormed.themed {sheet : OpenSheet} (wellFormed : sheet.WellFormed)
    (theme : BorderTheme) : (sheet.themed theme).WellFormed where
  lead := wellFormed.lead
  specifier := (theme.isBarred_rewrite wellFormed.specifier).1
  rows := List.forall_mem_map.mpr fun row member => (wellFormed.rows row member).themed theme
  detached := List.forall_mem_map.mpr fun row member =>
    (wellFormed.detached row member).themed (wellFormed.rows row member) theme
  ending := wellFormed.ending.themed theme
  trail := wellFormed.trail

/-! ## Frames -/

/-- What a theme makes of the rules in front of a row. -/
def Frame.Row.themed (theme : BorderTheme) (row : Frame.Row) : Frame.Row :=
  match theme with
  | .noBorders => (row.respecified theme.rewrite).bare
  | .fullyBordered => (row.respecified theme.rewrite).withLeading

namespace WrittenRow

variable {row : WrittenRow}

theorem cells_outline (columnCount : Nat) (row : WrittenRow) :
    (row.outline columnCount).cells = (row.cells.map WrittenCell.entry).map Entry.outline
      ++ List.replicate (columnCount - ((row.cells.map WrittenCell.entry).map Entry.width).sum)
        Outline.Cell.blank := by
  rw [outline, width, List.map_map, List.map_map]
  rfl

/-- Rows of which the entries differ in their specifiers have frames that do. -/
theorem frame_eq_respecified {row' : WrittenRow} {rewrite : Text → Text} (columnCount : Nat)
    (entries : row'.cells.map WrittenCell.entry
      = (row.cells.map WrittenCell.entry).map (Entry.respecified rewrite)) :
    row'.frame columnCount = { (row.frame columnCount).respecified rewrite with
      leading := row'.ruleGaps.length, rules := row'.ruleGaps.length } := by
  have blank : Outline.Cell.blank.respecified rewrite = Outline.Cell.blank := rfl
  have cells : (row'.outline columnCount).cells
      = (row.outline columnCount).cells.map (Outline.Cell.respecified rewrite) := by
    have outlines : Entry.outline ∘ Entry.respecified rewrite
        = Outline.Cell.respecified rewrite ∘ Entry.outline :=
      funext fun entry => entry.outline_respecified rewrite
    have widths : Entry.width ∘ Entry.respecified rewrite = Entry.width :=
      funext fun entry => entry.width_respecified rewrite
    rw [cells_outline, cells_outline, entries, List.map_append, List.map_replicate, blank,
      List.map_map (g := Entry.outline), outlines, List.map_map (g := Entry.width), widths,
      ← List.map_map]
  have length : row'.cells.length = row.cells.length := by
    simpa using congrArg List.length entries
  simp only [frame, Frame.Row.respecified, cells, length]

theorem frame_themed (wellFormed : row.WellFormed) (theme : BorderTheme) (columnCount : Nat) :
    (row.themed theme).frame columnCount = (row.frame columnCount).themed theme := by
  rw [frame_eq_respecified columnCount (map_entry_themed wellFormed theme)]
  cases theme with
  | noBorders => rfl
  | fullyBordered =>
      cases gaps : row.ruleGaps with
      | nil =>
          simp [Frame.Row.themed, Frame.Row.withLeading, Frame.Row.respecified, frame, themed,
            withLeading, respecified, regapped, gaps]
      | cons gap others =>
          simp [Frame.Row.themed, Frame.Row.withLeading, Frame.Row.respecified, frame, themed,
            withLeading, respecified, gaps]

end WrittenRow

namespace Ending

variable {ending : Ending}

/-- The rules behind the last cell are those that stand there, whatever stands in front. -/
theorem trailing_withRow (wellFormed : ending.WellFormed) (theme : BorderTheme) :
    ({ ending with row := ending.row.themed theme } : Ending).trailing = ending.trailing := by
  simp only [trailing, WrittenRow.endsBlank_themed wellFormed.row]
  rfl

theorem themed_fullyBordered (wellFormed : ending.WellFormed) :
    ending.themed .fullyBordered
      = { ending.withTrailing with row := ending.row.themed .fullyBordered } := by
  rw [themed, withTrailing, trailing_withRow wellFormed, withTrailing]
  split
  · cases ending.closing <;> rfl
  · rfl

theorem frame_withRow (wellFormed : ending.WellFormed) (columnCount : Nat) :
    ({ ending with row := ending.row.themed .fullyBordered } : Ending).frame columnCount
      = (ending.frame columnCount).themed .fullyBordered := by
  rw [frame, trailing_withRow wellFormed, WrittenRow.frame_themed wellFormed.row]
  cases gaps : ending.row.ruleGaps with
  | nil =>
      simp [Frame.Row.themed, Frame.Row.withLeading, Frame.Row.respecified, frame, closingCount,
        WrittenRow.frame, WrittenRow.themed, WrittenRow.withLeading, WrittenRow.respecified,
        WrittenRow.regapped, gaps, Nat.add_comm]
  | cons gap others =>
      simp [Frame.Row.themed, Frame.Row.withLeading, Frame.Row.respecified, frame, closingCount,
        WrittenRow.frame, WrittenRow.themed, WrittenRow.withLeading, WrittenRow.respecified, gaps]

theorem frame_bare (columnCount : Nat) (ending : Ending) :
    ending.bare.frame columnCount = { ending.row.frame columnCount with
      rules := ending.row.ruleGaps.length, terminated := ending.closing.isSome } := by
  have none : ending.bare.closingCount = 0 := by
    simp only [closingCount, bare]
    cases ending.closing <;> rfl
  have trailing : ending.bare.trailing = 0 := by
    rw [Ending.trailing, none]
    exact ite_self (0 : Nat)
  rw [frame, trailing, none, bare, Option.isSome_map]
  rfl

/-- A new rule behind the cells trails and stands behind a terminator. -/
theorem frame_withTrailing (columnCount : Nat) (ending : Ending) :
    ending.withTrailing.frame columnCount = (ending.frame columnCount).withTrailing := by
  have same : (ending.frame columnCount).trailing = ending.trailing := rfl
  by_cases untrailed : ending.trailing = 0
  · have parts := untrailed
    rw [Ending.trailing, Nat.add_eq_zero_iff] at parts
    obtain ⟨noneInFront, noneBehind⟩ := parts
    rw [Frame.Row.withTrailing, same, if_pos untrailed, withTrailing, if_pos untrailed]
    unfold closingCount at noneBehind
    cases closed : ending.closing with
    | none => simp [frame, Ending.trailing, closingCount, noneInFront, closed, Nat.add_assoc]
    | some closing =>
        rw [closed] at noneBehind
        have none : closing.gaps.length = 0 := noneBehind
        simp [frame, Ending.trailing, closingCount, noneInFront, closed, none, Nat.add_assoc]
  · rw [Frame.Row.withTrailing, same, if_neg untrailed, withTrailing, if_neg untrailed]

theorem frame_themed (wellFormed : ending.WellFormed) (columnCount : Nat) :
    (ending.themed .noBorders).frame columnCount = (ending.frame columnCount).themed .noBorders ∧
      (ending.themed .fullyBordered).frame columnCount
        = ((ending.frame columnCount).themed .fullyBordered).withTrailing := by
  constructor
  · rw [themed, frame_bare, WrittenRow.frame_themed wellFormed.row]
    rfl
  · rw [themed, frame_withTrailing, frame_withRow wellFormed]

end Ending

namespace OpenSheet

variable {sheet : OpenSheet}

/-- The frame of an open sheet with the borders of a theme has these borders. -/
theorem frame_themed (wellFormed : sheet.WellFormed) (theme : BorderTheme) :
    (sheet.themed theme).frame = sheet.frame.withTheme theme := by
  have count : (theme.rewrite sheet.specifier).countP isLetter
      = sheet.specifier.countP isLetter := (theme.isBarred_rewrite wellFormed.specifier).2
  have rows (columnCount : Nat) : (sheet.rows.map (WrittenRow.themed theme)).map
      (WrittenRow.frame columnCount)
        = (sheet.rows.map (WrittenRow.frame columnCount)).map (Frame.Row.themed theme) := by
    rw [List.map_map, List.map_map]
    exact List.map_congr_left fun row member =>
      WrittenRow.frame_themed (wellFormed.rows row member) theme columnCount
  have ending := @Ending.frame_themed _ wellFormed.ending (sheet.specifier.countP isLetter)
  have parted : (sheet.themed theme).frame = ⟨theme.rewrite sheet.specifier,
      (sheet.rows.map (WrittenRow.frame (sheet.specifier.countP isLetter))).map
          (Frame.Row.themed theme)
        ++ [(sheet.ending.themed theme).frame (sheet.specifier.countP isLetter)]⟩ := by
    rw [← rows]
    simp only [frame, themed, count]
  rw [parted]
  cases theme with
  | noBorders =>
      rw [ending.1]
      simp [frame, Frame.withTheme, Frame.Row.themed]
  | fullyBordered =>
      rw [ending.2]
      simp [frame, Frame.withTheme, Frame.Row.themed, Frame.ruled_concat]

end OpenSheet

end LatexTabular
