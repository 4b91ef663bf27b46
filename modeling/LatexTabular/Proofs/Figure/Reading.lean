import LatexTabular.Proofs.Figure.Lines
import LatexTabular.Proofs.Sheet.Surroundings

/-!
# Reading a figure

A figure is a document with a float that holds one tabular and lines above and below it.  Its
table is read with the caption and the label of these lines (`Figure.readAt_text`).
-/

namespace LatexTabular

open Markup Body Captioning

/-- A document with a tabular in a float.  The tabular and the delimiters of the float stand
on lines of their own. -/
structure Figure where
  lead : Text
  /-- The name of the float. -/
  name : Text
  /-- What follows the opening delimiter of the float on its line. -/
  option : Text
  above : List FloatLine
  /-- The white space in front of the tabular. -/
  indent : Text
  specifier : Text
  /-- What follows the specifier within the tabular. -/
  body : Text
  below : List FloatLine
  /-- The white space in front of the closing delimiter of the float. -/
  outdent : Text
  trail : Text
  deriving DecidableEq, Repr

namespace Figure

/-- The document up to the end of the line on which the float opens. -/
def front (figure : Figure) : Text :=
  figure.lead ++ delimiterText true figure.name ++ figure.option

/-- The document from the line on which the float closes. -/
def back (figure : Figure) : Text :=
  figure.outdent ++ delimiterText false figure.name ++ figure.trail

/-- The tabular of a figure with what stands around it. -/
def sheet (figure : Figure) : Sheet where
  lead := figure.front ++ '\n' :: linesText figure.above ++ figure.indent
  specifier := figure.specifier
  rows := []
  closingGaps := []
  closingGap := figure.body
  trail := '\n' :: linesText figure.below ++ figure.back

def text (figure : Figure) : Text := figure.sheet.text

/-- The tabular as it is written. -/
def tabularText (figure : Figure) : Text :=
  Sheet.opening ++ ('{' :: figure.specifier ++ '}' :: figure.body ++ Sheet.closing)

def lines (figure : Figure) : List FloatLine := figure.above ++ figure.below

/-- A figure that is read as it is written. -/
structure WellFormed (figure : Figure) : Prop where
  lead : figure.lead.Lacks delimiterNames ∧ '%' ∉ figure.lead
  name : figure.name ∈ floatNames
  option : '\\' ∉ figure.option ∧ '%' ∉ figure.option ∧ '\n' ∉ figure.option
  lines : ∀ line ∈ figure.lines, line.WellFormed
  indent : Text.allBlank figure.indent = true ∧ '\n' ∉ figure.indent
  specifier : figure.specifier.IsBarred
  body : figure.body.Lacks delimiterNames ∧ '%' ∉ figure.body
  outdent : Text.allBlank figure.outdent = true ∧ '\n' ∉ figure.outdent
  trail : figure.trail.Lacks delimiterNames ∧ '%' ∉ figure.trail

variable {figure : Figure}

/-- Where the lines above the tabular start. -/
def aboveStart (figure : Figure) : Nat := (figure.front ++ ['\n']).size

/-- Where the lines below the tabular start. -/
def belowStart (figure : Figure) : Nat := figure.sheet.tabular.span.stop + 1

/-- The captions and labels of a figure. -/
def occurrences (figure : Figure) : List Occurrence :=
  occurrencesIn figure.aboveStart figure.above ++ occurrencesIn figure.belowStart figure.below

/-- The float of a figure. -/
def float (figure : Figure) : Environment where
  name := figure.name
  opening := ⟨figure.lead.size, (figure.lead ++ delimiterText true figure.name).size⟩
  closing :=
    let start := figure.belowStart + (linesText figure.below ++ figure.outdent).size
    ⟨start, start + (delimiterText false figure.name).size⟩

theorem text_eq (figure : Figure) : figure.text = figure.lead
    ++ (delimiterText true figure.name ++ (figure.option ++ '\n' :: linesText figure.above
      ++ figure.indent ++ (figure.tabularText ++ ('\n' :: linesText figure.below ++ figure.outdent
        ++ (delimiterText false figure.name ++ figure.trail))))) := by
  simp [text, Sheet.text_eq, Sheet.interior, Sheet.body, Sheet.closingText, Sheet.rowsText, rulesText,
    sheet, front, back, tabularText]

theorem named_of_mem_floatNames {name : Text} (isFloat : name ∈ floatNames) (rest : Text) :
    bracedName? ('{' :: name ++ '}' :: rest) = some name := by
  simp only [floatNames, List.mem_cons, List.not_mem_nil, or_false] at isFloat
  rcases isFloat with rfl | rfl | rfl | rfl <;> rfl

theorem notMem_of_mem_floatNames {name : Text} (isFloat : name ∈ floatNames) :
    '\\' ∉ name ∧ '%' ∉ name ∧ '\n' ∉ name ∧ name ≠ "tabular".toList := by
  simp only [floatNames, List.mem_cons, List.not_mem_nil, or_false] at isFloat
  rcases isFloat with rfl | rfl | rfl | rfl <;> decide

/-! ## The environments of a figure -/

/-- The document up to the tabular. -/
theorem lead_sheet (figure : Figure) : figure.sheet.lead = figure.lead
    ++ (delimiterText true figure.name ++ (figure.option ++ '\n' :: linesText figure.above
      ++ figure.indent)) := by
  simp [sheet, front]

theorem endsName_cons {head : Char} (noLetter : Text.isLetter head = false) (rest : Text) :
    Text.EndsName (head :: rest) := by
  rintro _ ⟨⟩
  exact noLetter

theorem WellFormed.above (wellFormed : figure.WellFormed) :
    ∀ line ∈ figure.above, line.WellFormed :=
  fun line member => wellFormed.lines line (List.mem_append_left _ member)

theorem WellFormed.below (wellFormed : figure.WellFormed) :
    ∀ line ∈ figure.below, line.WellFormed :=
  fun line member => wellFormed.lines line (List.mem_append_right _ member)

theorem undelimited_of_allBlank {indent : Text} (blank : Text.allBlank indent = true) :
    Undelimited indent :=
  undelimited_of_notMem (FloatLine.notMem_of_allBlank blank (by decide))

theorem delimitersFrom_front (wellFormed : figure.WellFormed) (rest : Text) :
    delimitersFrom 0 (figure.sheet.lead ++ rest)
      = ⟨true, figure.name, figure.float.opening⟩
        :: delimitersFrom figure.sheet.lead.size rest := by
  have newline : Undelimited ['\n'] := undelimited_of_notMem (by decide)
  have upToTabular : Undelimited (figure.option ++ '\n' :: linesText figure.above
      ++ figure.indent) := by
    have whole := (((undelimited_of_notMem wellFormed.option.1).append newline).append
      (undelimited_linesText wellFormed.above)).append
        (undelimited_of_allBlank wellFormed.indent.1)
    simpa using whole
  have sizeEq : figure.sheet.lead.size = 0 + figure.lead.size
      + (delimiterText true figure.name).size + Text.size (figure.option
        ++ '\n' :: linesText figure.above ++ figure.indent) := by
    rw [lead_sheet, Text.size_append, Text.size_append (delimiterText true figure.name)]
    omega
  have ends : Text.EndsName (delimiterText true figure.name ++ (figure.option
      ++ '\n' :: linesText figure.above ++ figure.indent ++ rest)) := endsName_cons (by decide) _
  rw [sizeEq, lead_sheet, List.append_assoc, List.append_assoc,
    delimitersFrom_append_of_lacks wellFormed.lead.1 ends,
    delimitersFrom_delimiterText true (named_of_mem_floatNames wellFormed.name)
      (notMem_of_mem_floatNames wellFormed.name).1, upToTabular, Nat.zero_add]
  simp [float]

theorem notMem_of_isBarred {text : Text} (barred : text.IsBarred) {character : Char}
    (special : Text.isOrdinary character = false) : character ∉ text :=
  notMem_of_isOrdinary special (isOrdinary_of_isBarred barred)

theorem interior_sheet (figure : Figure) :
    figure.sheet.interior = '{' :: figure.specifier ++ '}' :: figure.body := rfl

theorem delimitersFrom_interior (wellFormed : figure.WellFormed) (offset : Nat) :
    delimitersFrom offset (figure.sheet.interior ++ (Sheet.closing ++ figure.sheet.trail))
      = delimitersFrom (offset + figure.sheet.interior.size)
        (Sheet.closing ++ figure.sheet.trail) := by
  have declared : '\\' ∉ '{' :: figure.specifier ++ ['}'] := by
    simp [notMem_of_isBarred wellFormed.specifier (by decide : Text.isOrdinary '\\' = false)]
  have ends : Text.EndsName (Sheet.closing ++ figure.sheet.trail) := endsName_cons (by decide) _
  have interior : figure.sheet.interior = '{' :: figure.specifier ++ ['}'] ++ figure.body := by
    simp [interior_sheet]
  rw [interior, List.append_assoc, delimitersFrom_append_of_notMem _ _ declared,
    delimitersFrom_append_of_lacks wellFormed.body.1 ends, Text.size_append _ figure.body,
    Nat.add_assoc]

theorem notMem_lead (wellFormed : figure.WellFormed) : '%' ∉ figure.sheet.lead := by
  have blank := FloatLine.notMem_of_allBlank wellFormed.indent.1
    (by decide : Text.isBlank '%' = false)
  have inName := (notMem_of_mem_floatNames wellFormed.name).2.1
  simp [lead_sheet, delimiterText, wellFormed.lead.2, wellFormed.option.2.1, blank, inName,
    notMem_linesText wellFormed.above]

theorem isClear_sheet (wellFormed : figure.WellFormed) : figure.sheet.IsClear where
  uncommented := opensComment_of_notMem fun member => notMem_lead wellFormed (by
    rw [Text.lastLine, List.mem_reverse] at member
    exact List.mem_reverse.mp ((List.takeWhile_sublist _).subset member))
  plain := by
    have inSpecifier := notMem_of_isBarred wellFormed.specifier
      (by decide : Text.isOrdinary '%' = false)
    simp [interior_sheet, inSpecifier, wellFormed.body.2]
  undelimited := delimitersFrom_interior wellFormed

theorem delimitersFrom_trail (wellFormed : figure.WellFormed) :
    delimitersFrom figure.sheet.tabular.span.stop figure.sheet.trail
      = [⟨false, figure.name, figure.float.closing⟩] := by
  have newline : Undelimited ['\n'] := undelimited_of_notMem (by decide)
  have upToClosing : Undelimited ('\n' :: linesText figure.below ++ figure.outdent) :=
    (newline.append (undelimited_linesText wellFormed.below)).append
      (undelimited_of_allBlank wellFormed.outdent.1)
  have trailEq : figure.sheet.trail = '\n' :: linesText figure.below ++ figure.outdent
      ++ (delimiterText false figure.name ++ (figure.trail ++ [])) := by
    simp [sheet, back]
  have ends : Text.EndsName [] := by
    rintro _ ⟨⟩
  have start : figure.sheet.tabular.span.stop
      + Text.size ('\n' :: linesText figure.below ++ figure.outdent)
        = figure.belowStart + (linesText figure.below ++ figure.outdent).size := by
    rw [List.cons_append, Text.size_cons, Text.utf8Size_newline, belowStart]
    omega
  rw [trailEq, upToClosing, delimitersFrom_delimiterText false
    (named_of_mem_floatNames wellFormed.name) (notMem_of_mem_floatNames wellFormed.name).1,
    delimitersFrom_append_of_lacks wellFormed.trail.1 ends, start]
  rfl

theorem notMem_text (wellFormed : figure.WellFormed) : '%' ∉ figure.text := by
  have clear := isClear_sheet wellFormed
  have blank := FloatLine.notMem_of_allBlank wellFormed.outdent.1
    (by decide : Text.isBlank '%' = false)
  have inName := (notMem_of_mem_floatNames wellFormed.name).2.1
  have opened : '%' ∉ Sheet.opening := by decide
  have closed : '%' ∉ Sheet.closing := by decide
  have behind : '%' ∉ figure.sheet.trail := by
    simp [sheet, back, delimiterText, wellFormed.trail.2, blank, inName,
      notMem_linesText wellFormed.below]
  simp [text, Sheet.text_eq, notMem_lead wellFormed, clear.plain, opened, closed, behind]

/-- The environments of a figure are the float and the tabular in it. -/
theorem environments_text (wellFormed : figure.WellFormed) :
    environments figure.text = [figure.float, figure.sheet.tabular] := by
  have all : delimitersFrom 0 figure.text = [⟨true, figure.name, figure.float.opening⟩,
      ⟨true, "tabular".toList, figure.sheet.tabular.opening⟩,
      ⟨false, "tabular".toList, figure.sheet.tabular.closing⟩,
      ⟨false, figure.name, figure.float.closing⟩] := by
    have closes : figure.sheet.lead.size + Sheet.opening.size + figure.sheet.interior.size
        = figure.sheet.tabular.closing.start := Sheet.size_interior figure.sheet
    have stops : figure.sheet.tabular.closing.start + Sheet.closing.size
        = figure.sheet.tabular.span.stop := rfl
    rw [text, Sheet.text_eq, delimitersFrom_front wellFormed, Sheet.delimitersFrom_opening,
      delimitersFrom_interior wellFormed, Sheet.delimitersFrom_closing, closes, stops,
      delimitersFrom_trail wellFormed]
    rfl
  have uncommented : (fun delimiter : Delimiter =>
      !isCommented figure.text delimiter.span.start) = fun _ => true := by
    funext delimiter
    simp [isCommented_of_notMem (notMem_text wellFormed)]
  have outside : figure.float.opening.start < figure.sheet.tabular.opening.start := by
    have lead : figure.sheet.tabular.opening.start = figure.sheet.lead.size := rfl
    have opening : 0 < (delimiterText true figure.name).size :=
      Text.size_pos_of_ne_nil (List.cons_ne_nil _ _)
    simp only [lead, lead_sheet, float, Text.size_append]
    omega
  refine environments_of_enclosed ?_ outside
  rw [delimiters, uncommented, List.filter_true, all]
  rfl

end Figure

/-! ## The caption and the label of a figure -/

/-- The commands of lines stand within them. -/
theorem bounds_of_mem_occurrencesIn {offset : Nat} {lines : List FloatLine} {occurrence : Occurrence}
    (member : occurrence ∈ occurrencesIn offset lines) :
    offset ≤ occurrence.span.start ∧ occurrence.span.start < occurrence.span.stop ∧
      occurrence.span.stop < offset + (linesText lines).size := by
  induction lines generalizing offset with
  | nil => exact absurd member List.not_mem_nil
  | cons line rest ih =>
      rw [linesText_cons, Text.size_append, Text.size_append, Text.size_newline]
      rcases List.mem_append.mp member with isFirst | inRest
      · cases line with
        | plain text => exact absurd isFirst List.not_mem_nil
        | command indent name argument =>
            obtain rfl := List.mem_singleton.mp isFirst
            have positive : 0 < (name.text argument).size :=
              Text.size_pos_of_ne_nil (List.cons_ne_nil _ _)
            simp only [FloatLine.text, Text.size_append]
            omega
      · have := ih inRest
        rw [Text.size_append, Text.size_newline] at this
        omega

/-- What stands in front of a text has its own captions and labels. -/
theorem exists_occurrencesFrom_append (offset : Nat) (front rest : Text) :
    ∃ before, occurrencesFrom offset (front ++ rest)
        = before ++ occurrencesFrom (offset + front.size) rest ∧
      ∀ occurrence ∈ before, offset ≤ occurrence.span.start ∧
        occurrence.span.start < offset + front.size := by
  induction front generalizing offset with
  | nil => exact ⟨[], rfl, by simp⟩
  | cons head others ih =>
      obtain ⟨before, occurrencesEq, bounds⟩ := ih (offset + head.utf8Size)
      have positive := head.utf8Size_pos
      rw [List.cons_append, occurrencesFrom, occurrencesEq, Text.size_cons, ← Nat.add_assoc]
      have later : ∀ occurrence ∈ before, offset ≤ occurrence.span.start ∧
          occurrence.span.start < offset + head.utf8Size + Text.size others := by
        intro occurrence member
        have := bounds occurrence member
        omega
      cases found : Captioning.occurrence? offset (head :: (others ++ rest)) with
      | none => exact ⟨before, rfl, later⟩
      | some occurrence =>
          obtain ⟨written, after, -, -, spanEq⟩ := exists_written_of_occurrence? found
          refine ⟨occurrence :: before, rfl, List.forall_mem_cons.mpr ⟨?_, later⟩⟩
          rw [spanEq]
          dsimp only
          omega

namespace Figure

variable {figure : Figure}

theorem start_tabular (figure : Figure) : figure.aboveStart + (linesText figure.above).size
    + figure.indent.size = figure.sheet.lead.size := by
  simp only [aboveStart, sheet, Text.size_append, Text.size_cons, Text.size_nil]
  omega

theorem stop_tabular (figure : Figure) :
    figure.sheet.tabular.span.stop = figure.sheet.lead.size + figure.tabularText.size := by
  have closes : figure.sheet.lead.size + Sheet.opening.size + figure.sheet.interior.size
      = figure.sheet.tabular.closing.start := Sheet.size_interior figure.sheet
  have stop : figure.sheet.tabular.span.stop
      = figure.sheet.tabular.closing.start + Sheet.closing.size := rfl
  rw [tabularText, ← interior_sheet, stop, ← closes, Text.size_append, Text.size_append]
  omega

/-- The interior of the float. -/
theorem spells_float (figure : Figure) : figure.text.Spells figure.float.interior
    (figure.option ++ '\n' :: linesText figure.above ++ figure.indent ++ (figure.tabularText
      ++ ('\n' :: linesText figure.below ++ figure.outdent))) := by
  refine ⟨figure.lead ++ delimiterText true figure.name,
    delimiterText false figure.name ++ figure.trail, ?_, ?_⟩
  · rw [text_eq]
    simp
  · have lead := congrArg Text.size figure.lead_sheet
    simp only [Text.size_append, Text.size_cons, Text.utf8Size_newline] at lead
    simp only [Environment.interior, float, belowStart, stop_tabular, lead, Span.mk.injEq,
      Text.size_append, Text.size_cons, Text.utf8Size_newline, true_and]
    omega

/-- Beside the tabular the captions and labels of a float are those of its lines. -/
theorem exists_occurrencesFrom (wellFormed : figure.WellFormed) :
    ∃ within, occurrencesFrom figure.float.interior.start
        (figure.text.slice figure.float.interior)
          = occurrencesIn figure.aboveStart figure.above
            ++ (within ++ occurrencesIn figure.belowStart figure.below) ∧
      ∀ occurrence ∈ within, figure.sheet.tabular.span.covers occurrence.span.start = true := by
  have blankIndent := FloatLine.notMem_of_allBlank wellFormed.indent.1
    (by decide : Text.isBlank '\\' = false)
  have blankOutdent := FloatLine.notMem_of_allBlank wellFormed.outdent.1
    (by decide : Text.isBlank '\\' = false)
  have option : '\\' ∉ figure.option ++ ['\n'] := by simp [wellFormed.option.1]
  obtain ⟨within, withinEq, bounds⟩ := exists_occurrencesFrom_append figure.sheet.lead.size
    figure.tabularText ('\n' :: linesText figure.below ++ figure.outdent)
  have aboveStart : figure.float.interior.start + (figure.option ++ ['\n']).size
      = figure.aboveStart := by
    simp only [Environment.interior, float, aboveStart, front, Text.size_append]
    omega
  have belowStart : figure.sheet.lead.size + figure.tabularText.size + Text.size ['\n']
      = figure.belowStart := by
    rw [Figure.belowStart, stop_tabular, Text.size_newline]
  refine ⟨within, ?_, fun occurrence member => ?_⟩
  · have parts : figure.option ++ '\n' :: linesText figure.above ++ figure.indent
        ++ (figure.tabularText ++ ('\n' :: linesText figure.below ++ figure.outdent))
          = figure.option ++ ['\n'] ++ (linesText figure.above ++ (figure.indent
            ++ (figure.tabularText ++ ('\n' :: linesText figure.below ++ figure.outdent)))) := by
      simp
    have behind : occurrencesFrom (figure.sheet.lead.size + figure.tabularText.size)
        ('\n' :: linesText figure.below ++ figure.outdent)
          = occurrencesIn figure.belowStart figure.below := by
      have newline : '\n' :: linesText figure.below ++ figure.outdent
          = ['\n'] ++ (linesText figure.below ++ (figure.outdent ++ [])) := by simp
      rw [newline, occurrencesFrom_append_of_notMem _ (by decide : '\\' ∉ ['\n']), belowStart,
        occurrencesFrom_linesText wellFormed.below, occurrencesFrom_append_of_notMem _ blankOutdent]
      exact List.append_nil _
    rw [figure.spells_float.slice_eq, parts, occurrencesFrom_append_of_notMem _ option, aboveStart,
      occurrencesFrom_linesText wellFormed.above, occurrencesFrom_append_of_notMem _ blankIndent,
      start_tabular, withinEq, behind]
  · have starts : figure.sheet.tabular.span.start = figure.sheet.lead.size := rfl
    have := bounds occurrence member
    simp only [Span.covers, stop_tabular, starts, Bool.and_eq_true, decide_eq_true_eq]
    exact this

theorem ofFloat_eq (wellFormed : figure.WellFormed) :
    Captioning.ofFloat figure.text figure.float figure.sheet.tabular.span
      = ⟨(figure.occurrences.find? (·.command == .caption)).map (·.span),
        (figure.occurrences.find? (·.command == .label)).map (·.span)⟩ := by
  obtain ⟨within, found, covered⟩ := exists_occurrencesFrom wellFormed
  have plain := notMem_text wellFormed
  have kept : (occurrencesFrom figure.float.interior.start
      (figure.text.slice figure.float.interior)).filter (fun occurrence =>
        !figure.sheet.tabular.span.covers occurrence.span.start
          && !isCommented figure.text occurrence.span.start) = figure.occurrences := by
    have inAbove : ∀ occurrence ∈ occurrencesIn figure.aboveStart figure.above,
        figure.sheet.tabular.span.covers occurrence.span.start = false := by
      intro occurrence member
      have bounds := bounds_of_mem_occurrencesIn member
      have start : figure.sheet.tabular.span.start = figure.sheet.lead.size := rfl
      have ends := figure.start_tabular
      have inFront : ¬ figure.sheet.tabular.span.start ≤ occurrence.span.start := by omega
      simp [Span.covers, inFront]
    have inBelow : ∀ occurrence ∈ occurrencesIn figure.belowStart figure.below,
        figure.sheet.tabular.span.covers occurrence.span.start = false := by
      intro occurrence member
      have bounds := bounds_of_mem_occurrencesIn member
      rw [belowStart] at bounds
      have behind : ¬ occurrence.span.start < figure.sheet.tabular.span.stop := by omega
      simp [Span.covers, behind]
    simp only [isCommented_of_notMem plain, Bool.not_false, Bool.and_true]
    rw [found, List.filter_append, List.filter_append,
      List.filter_eq_self.mpr (fun occurrence member => by rw [inAbove occurrence member]; rfl),
      List.filter_eq_nil_iff.mpr (fun occurrence member => by simp [covered occurrence member]),
      List.filter_eq_self.mpr (fun occurrence member => by rw [inBelow occurrence member]; rfl)]
    rfl
  simp only [ofFloat, kept]

/-- The table of a figure. -/
def table (figure : Figure) : Table :=
  { figure.sheet.readTable with
    float := some ⟨(figure.occurrences.find? (·.command == .caption)).map (·.span),
      (figure.occurrences.find? (·.command == .label)).map (·.span)⟩ }

/-- The tabular and the float around it are the environments of the table. -/
theorem ofTabular_text (wellFormed : figure.WellFormed) :
    Table.ofTabular figure.text (environments figure.text) figure.sheet.tabular
      = .ok figure.table := by
  have isFloat := wellFormed.name
  have start : figure.sheet.tabular.span.start = figure.sheet.lead.size := rfl
  have starts := congrArg Text.size figure.lead_sheet
  have opening : 0 < (delimiterText true figure.name).size :=
    Text.size_pos_of_ne_nil (List.cons_ne_nil _ _)
  rw [Text.size_append, Text.size_append] at starts
  have bodyBehind : figure.sheet.lead.size < figure.sheet.bodyStart := by
    simp only [Sheet.bodyStart, Sheet.specifierSpan, Sheet.front, Text.size_append]
    omega
  have floatStart : figure.float.span.start = figure.lead.size := rfl
  have unnested : ((environments figure.text).map Environment.span).filter (fun span =>
      decide (figure.sheet.bodyStart ≤ span.start)
        && decide (span.stop ≤ figure.sheet.tabular.interior.stop)) = [] := by
    have notFloat : ¬ figure.sheet.bodyStart ≤ figure.float.span.start := by omega
    have notTabular : ¬ figure.sheet.bodyStart ≤ figure.sheet.tabular.span.start := by omega
    simp [environments_text wellFormed, notFloat, notTabular]
  have floatStop : figure.sheet.tabular.span.stop < figure.float.span.stop := by
    have stop : figure.float.span.stop = figure.belowStart
        + (linesText figure.below ++ figure.outdent).size
        + (delimiterText false figure.name).size := rfl
    rw [stop, belowStart]
    omega
  have inFront : figure.float.span.start < figure.sheet.tabular.span.start := by omega
  have around : figure.float.span.contains figure.sheet.tabular.span = true := by
    simp only [Span.contains, Bool.and_eq_true, decide_eq_true_eq]
    omega
  have named : floatNames.contains figure.float.name = true := List.contains_iff_mem.mpr isFloat
  have noFloat : floatNames.contains figure.sheet.tabular.name = false := by
    have tabular : figure.sheet.tabular.name = "tabular".toList := rfl
    rw [tabular]
    decide
  have floatEq : Captioning.ofTabular? figure.sheet.text (environments figure.text)
      figure.sheet.tabular.span = figure.table.float := by
    simp only [Captioning.ofTabular?, environments_text wellFormed, List.filter_cons, named, around,
      inFront, noFloat]
    exact congrArg some (ofFloat_eq wellFormed)
  have read := Sheet.ofTabular_of_unnested wellFormed.specifier unnested
  rw [floatEq] at read
  exact read

theorem tabulars_text (wellFormed : figure.WellFormed) :
    Table.tabulars (environments figure.text) = [figure.sheet.tabular] := by
  have notTabular : (figure.float.name == "tabular".toList) = false :=
    beq_eq_false_iff_ne.mpr (notMem_of_mem_floatNames wellFormed.name).2.2.2
  have isTabular : (figure.sheet.tabular.name == "tabular".toList) = true := beq_self_eq_true _
  simp only [Table.tabulars, environments_text wellFormed, List.filter_cons, notTabular, isTabular]
  rfl

/-- The table of a figure is the only one in it. -/
theorem readAll_text (wellFormed : figure.WellFormed) :
    Table.readAll figure.text = .ok [figure.table] := by
  simp only [Table.readAll, tabulars_text wellFormed, List.mapM_cons, List.mapM_nil,
    ofTabular_text wellFormed]
  rfl

/-- Any offset of the tabular, its ends included, finds the table. -/
theorem readAt_text (wellFormed : figure.WellFormed) {offset : Nat}
    (begins : figure.sheet.lead.size ≤ offset)
    (ends : offset ≤ figure.sheet.tabular.span.stop) :
    Table.readAt figure.text offset = .ok figure.table := by
  have around : (figure.sheet.tabular.span.start ≤ offset
      && offset ≤ figure.sheet.tabular.span.stop) = true := by
    simpa using ⟨begins, ends⟩
  simp only [Table.readAt, tabulars_text wellFormed, List.filter_cons, around]
  exact ofTabular_text wellFormed

end Figure

end LatexTabular
