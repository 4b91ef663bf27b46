import LatexTabular.Proofs.Body.Lookahead
import LatexTabular.Proofs.Scan.Groups

namespace LatexTabular

open Text Markup Body

namespace Scan

variable {scan next final : Scan} {mode target : Mode} {effect : Effect} {text rest : Text}
  {character : Char}

/-- A content that is scanned alike at every depth, up to a quiet mode. -/
def Settles (content : Text) : Prop :=
  ∃ mode : Mode, mode.isQuiet = true ∧ ∀ depth columns rows,
    (⟨.text, depth, columns, rows⟩ : Scan).run content = some ⟨mode, depth, columns, rows⟩

end Scan

/-- A merge as a scan lets it pass. -/
structure Body.MergeText.Steady (parts : MergeText) : Prop where
  numberGap : parts.numberGap = []
  number : parts.number.IsNumeral
  specifierGap : parts.specifierGap = []
  specifier : parts.specifier.IsBarred
  contentGap : parts.contentGap = []
  content : Scan.Settles parts.content

namespace Scan

variable {scan next final : Scan} {mode target : Mode} {effect : Effect} {text rest : Text}
  {character : Char}

/-! ## Merges -/

/-- Characters without a meaning leave a scan outside all names as it is. -/
theorem run_of_outside {part : Text}
    (inert : ∀ character ∈ part, outside character = some (.text, .stay))
    (isText : scan.mode = .text) : scan.run part = some scan := by
  induction part with
  | nil => rfl
  | cons head tail ih =>
      have first : scan.step head = some scan := by
        refine step_eq_some.mpr ⟨.text, .stay, ?_, take_eq_some.mpr ⟨rfl, by rw [← isText]; rfl⟩⟩
        rw [isText]
        exact inert head List.mem_cons_self
      rw [run_cons, first, Option.bind_some,
        ih fun character member => inert character (List.mem_cons_of_mem _ member)]

/-- A blank character has no meaning of its own. -/
theorem outside_of_isBlank (blank : isBlank character = true) :
    outside character = some (.text, .stay) :=
  outside_of_notMem fun member =>
    absurd (List.any_eq_true.mpr ⟨character, member, blank⟩) (by decide)

/-- The letters of a name are read one by one. -/
theorem run_letters {letters more : Text} (isName : scan.mode = .name letters)
    (areLetters : ∀ character ∈ more, isLetter character = true) :
    scan.run more = some { scan with mode := .name (letters ++ more) } := by
  induction more generalizing scan letters with
  | nil =>
      rw [List.append_nil, ← isName]
      rfl
  | cons head tail ih =>
      have first : scan.step head = some { scan with mode := .name (letters ++ [head]) } := by
        refine step_eq_some.mpr ⟨_, .stay, ?_, take_eq_some.mpr ⟨rfl, rfl⟩⟩
        rw [isName]
        simp [Mode.next, areLetters head List.mem_cons_self]
      rw [run_cons, first, Option.bind_some, ih rfl
        fun character member => areLetters character (List.mem_cons_of_mem _ member)]
      simp

/-- The letters behind a backslash are a name. -/
theorem run_name {letters : Text} (isEscape : scan.mode = .escape) (nonempty : letters ≠ [])
    (areLetters : ∀ character ∈ letters, isLetter character = true) :
    scan.run letters = some { scan with mode := .name letters } := by
  cases letters with
  | nil => exact absurd rfl nonempty
  | cons head tail =>
      have first : scan.step head = some { scan with mode := .name [head] } := by
        refine step_eq_some.mpr ⟨_, .stay, ?_, take_eq_some.mpr ⟨rfl, rfl⟩⟩
        rw [isEscape]
        simp [Mode.next, areLetters head List.mem_cons_self]
      rw [run_cons, first, Option.bind_some]
      exact @run_letters { scan with mode := .name [head] } [head] tail rfl
        fun character member => areLetters character (List.mem_cons_of_mem _ member)

/-- How a lexeme of some kind moves a scan. -/
inductive Reads (scan : Scan) : Kind → Scan → Prop where
  | space (quiet : scan.mode.isQuiet = true) : Reads scan .space { scan with mode := .text }
  | separator (quiet : scan.mode.isQuiet = true) (outside : scan.depth = 0) :
      Reads scan .separator { scan with mode := .text }
  | terminator (quiet : scan.mode.isQuiet = true) (outside : scan.depth = 0) :
      Reads scan .terminator { scan with mode := .text, rows := scan.rows + 1 }
  | rule {letters : Text} (quiet : scan.mode.isQuiet = true) (outside : scan.depth = 0)
      (harmless : isHarmless letters = true) :
      Reads scan .rule { scan with mode := .name letters }
  | merge {parts : MergeText} (quiet : scan.mode.isQuiet = true) (outside : scan.depth = 0)
      (steady : parts.Steady) : Reads scan (.merge parts) { scan with mode := .text }
  | content {next : Scan} (columns : next.columns = scan.columns) (rows : next.rows = scan.rows) :
      Reads scan .content next

/-- A scan that stands between two lexemes, of which the second starts a text. -/
structure Between (scan : Scan) (text : Text) : Prop where
  behind : scan.mode ≠ .heading
  resting : scan.mode ≠ .escape
  noLetter : (∃ letters, scan.mode = .name letters) →
    ∀ character ∈ text.head?, isLetter character = false

/-- Blank characters and separators are taken outside all names only. -/
theorem Mode.text_of_next_blank
    (blank : isBlank character = true ∨ character = '&' ∧ mode ≠ .escape)
    (found : mode.next character = some (target, effect)) :
    mode.isQuiet = true ∧ target = .text ∧ effect = .stay := by
  have noLetter : isLetter character = false := by
    rcases blank with blank | ⟨rfl, -⟩
    · exact isLetter_eq_false_of_isBlank blank
    · decide
  have noDigit : isDigit character = false := by
    rcases blank with blank | ⟨rfl, -⟩
    · cases digit : isDigit character with
      | false => rfl
      | true => exact absurd (blank.symm.trans (isBlank_eq_false_of_isDigit digit)) (by decide)
    · decide
  have special : character ≠ '\\' ∧ character ≠ '}' ∧ character ≠ '{' ∧ character ≠ '|' := by
    rcases blank with blank | ⟨rfl, -⟩
    · refine ⟨?_, ?_, ?_, ?_⟩ <;>
      · rintro rfl
        exact absurd blank (by decide)
    · decide
  cases mode <;> simp only [next, outside] at found <;> grind [isQuiet]

/-- A scan stops at a comment. -/
theorem Mode.next_percent (mode : Mode) : mode.next '%' = none := by
  have noLetter : isLetter '%' = false := by decide
  have noDigit : isDigit '%' = false := by decide
  cases mode <;> simp [next, outside, noLetter, noDigit]

/-- In a quiet mode a scan stops at an opening brace or bracket. -/
theorem head_ne_of_run (quiet : scan.mode.isQuiet = true) (reached : scan.run text = some final) :
    ∀ head ∈ text.head?, head ≠ '{' ∧ head ≠ '[' ∧ head ≠ '(' := by
  cases text with
  | nil => simp
  | cons head rest =>
      rintro _ ⟨⟩
      obtain ⟨next, first, -⟩ := run_cons_eq_some.mp reached
      obtain ⟨target, effect, found, -⟩ := step_eq_some.mp first
      refine ⟨?_, ?_, ?_⟩ <;>
      · rintro rfl
        rw [Mode.next_of_isQuiet quiet (by decide)] at found
        simp [outside] at found

theorem optionalGroup?_eq_none (quiet : scan.mode.isQuiet = true)
    (reached : scan.run text = some final) : optionalGroup? text = none := by
  have heads := head_ne_of_run quiet reached
  unfold optionalGroup?
  split
  · exact absurd rfl (heads _ rfl).2.1
  · exact absurd rfl (heads _ rfl).2.2
  · rfl

/-- Blank characters leave a quiet scan quiet. -/
theorem exists_run_of_blanks {gap : Text} (blanks : ∀ character ∈ gap, isBlank character = true)
    (quiet : scan.mode.isQuiet = true) (reached : scan.run (gap ++ rest) = some final) :
    ∃ next, scan.run gap = some next ∧ next.mode.isQuiet = true ∧ next.run rest = some final := by
  induction gap generalizing scan with
  | nil => exact ⟨scan, rfl, quiet, reached⟩
  | cons head tail ih =>
      obtain ⟨next, first, others⟩ := run_cons_eq_some.mp reached
      obtain ⟨target, effect, found, taken⟩ := step_eq_some.mp first
      obtain ⟨-, rfl⟩ := take_eq_some.mp taken
      obtain ⟨-, rfl, rfl⟩ :=
        Mode.text_of_next_blank (Or.inl (blanks head List.mem_cons_self)) found
      obtain ⟨last, lastRun, lastQuiet, behind⟩ :=
        ih (fun character member => blanks character (List.mem_cons_of_mem _ member)) rfl others
      exact ⟨last, run_cons_eq_some.mpr ⟨_, first, lastRun⟩, lastQuiet, behind⟩

end Scan

end LatexTabular
