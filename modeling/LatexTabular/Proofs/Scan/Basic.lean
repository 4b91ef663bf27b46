import LatexTabular.Body.Lexeme
import Mathlib.Algebra.Group.Prod
import Mathlib.Algebra.Order.Ring.Int
import Mathlib.Tactic.Abel
import Mathlib.Tactic.Common
import Mathlib.Tactic.SplitIfs

/-!
# Scanning a table

A scan reads the column specifier and the body of a tabular character by character.
It counts the column letters and the row terminators and knows what it is in the middle
of.  It stops at whatever could make an edit change the meaning of the text around it:
comments, brackets, and braces that do not belong to a `\multicolumn`.

What a scan makes of a text depends on the text in front of it only through its state
(`Scan.run_append`), and between control sequences one state is as good as another
(`Scan.Joins.run`).
-/

namespace LatexTabular

open Text Body

namespace Scan

/-- What a scan is in the middle of. -/
inductive Mode where
  /-- The column specifier of the tabular. -/
  | heading
  | text
  /-- Behind a backslash. -/
  | escape
  /-- In the name of a control sequence. -/
  | name (letters : Text)
  /-- In the number of a `\multicolumn`. -/
  | number
  | numberEnd
  /-- In the specifier of a `\multicolumn`. -/
  | specifier
  | specifierEnd
  deriving DecidableEq, Repr

/-- What a character does besides changing the mode. -/
inductive Effect where
  | stay
  /-- Make a column. -/
  | column
  /-- End a row. -/
  | row
  /-- Enter a brace group. -/
  | enter
  /-- Leave a brace group. -/
  | leave
  deriving DecidableEq, Repr

namespace Effect

/-- Rows end outside all groups only, and only an open group can be left. -/
def isAllowed (effect : Effect) (depth : Nat) : Bool :=
  match effect with
  | row => depth == 0
  | leave => depth != 0
  | _ => true

def depth (effect : Effect) (depth : Nat) : Nat :=
  match effect with
  | enter => depth + 1
  | leave => depth - 1
  | _ => depth

/-- The columns that an effect makes. -/
def columns : Effect → Nat
  | column => 1
  | _ => 0

/-- The rows that an effect ends. -/
def rows : Effect → Nat
  | row => 1
  | _ => 0

end Effect

/-- Whether letters, however they go on, name no delimiter and no merge. -/
def isHarmless (letters : Text) : Bool :=
  !letters.isPrefixOf "begin".toList && !letters.isPrefixOf "end".toList
    && !letters.isPrefixOf MergeText.name

/-- What a character that goes on with no name does. -/
def outside (character : Char) : Option (Mode × Effect) :=
  if character = '\\' then some (.escape, .stay)
  else if character = '}' then some (.text, .leave)
  else if character = '{' ∨ character = '%' ∨ character = '[' ∨ character = '(' then none
  else some (.text, .stay)

namespace Mode

/-- What a character does in a mode. -/
def next (mode : Mode) (character : Char) : Option (Mode × Effect) :=
  match mode with
  | heading =>
      if isLetter character then some (heading, .column)
      else if character = '|' then some (heading, .stay)
      else if character = '}' then some (text, .leave)
      else none
  | text => outside character
  | escape =>
      if isLetter character then some (name [character], .stay)
      else if character = '\\' then some (text, .row)
      else if isBlank character ∨ character = '%' then none
      else some (text, .stay)
  | name letters =>
      if isLetter character then some (name (letters ++ [character]), .stay)
      else if letters = MergeText.name then
        if character = '{' then some (number, .enter) else none
      else if isHarmless letters then outside character
      else none
  | number =>
      if isDigit character then some (number, .stay)
      else if character = '}' then some (numberEnd, .leave)
      else none
  | numberEnd => if character = '{' then some (specifier, .enter) else none
  | specifier =>
      if isLetter character ∨ character = '|' then some (specifier, .stay)
      else if character = '}' then some (specifierEnd, .leave)
      else none
  | specifierEnd => if character = '{' then some (text, .enter) else none

/-- Whether any text may follow. -/
def isQuiet : Mode → Bool
  | text => true
  | name letters => isHarmless letters
  | _ => false

end Mode

end Scan

/-- How far the text of a tabular has been scanned. -/
structure Scan where
  mode : Scan.Mode
  /-- How many brace groups are open. -/
  depth : Nat
  /-- The column letters so far. -/
  columns : Nat
  /-- The row terminators so far. -/
  rows : Nat
  deriving DecidableEq, Repr

namespace Scan

/-- At the front of a column specifier. -/
def start : Scan := ⟨.heading, 1, 0, 0⟩

/-- Change the mode with an effect. -/
def take (scan : Scan) (mode : Mode) (effect : Effect) : Option Scan :=
  if effect.isAllowed scan.depth then
    some ⟨mode, effect.depth scan.depth, scan.columns + effect.columns, scan.rows + effect.rows⟩
  else none

/-- Take one more character. -/
def step (scan : Scan) (character : Char) : Option Scan :=
  (scan.mode.next character).bind fun (mode, effect) => scan.take mode effect

/-- Scan a text. -/
def run (scan : Scan) (text : Text) : Option Scan := text.foldlM step scan

variable {scan other next final : Scan} {mode : Mode} {effect : Effect} {text : Text}
  {character : Char}

@[simp] theorem run_nil (scan : Scan) : scan.run [] = some scan := rfl

theorem run_cons (scan : Scan) (character : Char) (rest : Text) :
    scan.run (character :: rest) = (scan.step character).bind fun next => next.run rest := rfl

theorem run_append (scan : Scan) (left right : Text) :
    scan.run (left ++ right) = (scan.run left).bind fun next => next.run right :=
  List.foldlM_append ..

theorem run_append_of {left : Text} (reached : scan.run left = some next) (right : Text) :
    scan.run (left ++ right) = next.run right := by
  rw [run_append, reached, Option.bind_some]

/-- A scan of two texts is one of the first and one of the second. -/
theorem run_append_eq_some {left right : Text} :
    scan.run (left ++ right) = some final ↔
      ∃ next, scan.run left = some next ∧ next.run right = some final := by
  rw [run_append, Option.bind_eq_some_iff]

theorem run_cons_eq_some {rest : Text} :
    scan.run (character :: rest) = some final ↔
      ∃ next, scan.step character = some next ∧ next.run rest = some final := by
  rw [run_cons, Option.bind_eq_some_iff]

theorem step_eq_some :
    scan.step character = some next ↔
      ∃ mode effect, scan.mode.next character = some (mode, effect) ∧
        scan.take mode effect = some next := by
  rw [step, Option.bind_eq_some_iff]
  exact Prod.exists

theorem take_eq_some :
    scan.take mode effect = some next ↔ effect.isAllowed scan.depth = true ∧
      next = ⟨mode, effect.depth scan.depth, scan.columns + effect.columns,
        scan.rows + effect.rows⟩ := by
  rw [take, Option.ite_none_right_eq_some, Option.some.injEq]
  exact and_congr_right' eq_comm

/-- The column letters and the row terminators of a scan. -/
def shape (scan : Scan) : ℤ × ℤ := (scan.columns, scan.rows)

/-! ## Quiet modes -/

theorem isHarmless_append {letters : Text} (harmless : isHarmless letters = true) (more : Text) :
    isHarmless (letters ++ more) = true := by
  have longer {name : Text} (none : ¬ letters <+: name) : ¬ letters ++ more <+: name :=
    fun isPrefix => none ((List.prefix_append letters more).trans isPrefix)
  simp only [isHarmless, Bool.and_eq_true, Bool.not_eq_true', ← Bool.not_eq_true,
    List.isPrefixOf_iff_prefix] at harmless ⊢
  exact ⟨⟨longer harmless.1.1, longer harmless.1.2⟩, longer harmless.2⟩

theorem ne_name_of_isHarmless {letters : Text} (harmless : isHarmless letters = true) :
    letters ≠ MergeText.name := by
  rintro rfl
  exact absurd harmless (by decide)

/-- In front of anything but a letter all quiet modes are the same. -/
theorem Mode.next_of_isQuiet (quiet : mode.isQuiet = true) (noLetter : isLetter character = false) :
    mode.next character = outside character := by
  cases mode with
  | text => rfl
  | name letters =>
      have harmless : isHarmless letters = true := quiet
      simp [next, noLetter, ne_name_of_isHarmless harmless, harmless]
  | heading | escape | number | numberEnd | specifier | specifierEnd => exact Bool.noConfusion quiet

/-- Only six characters mean anything outside names and arguments. -/
theorem outside_of_notMem (ordinary : character ∉ ['\\', '}', '{', '%', '[', '(']) :
    outside character = some (.text, .stay) := by
  simp only [List.mem_cons, List.not_mem_nil, not_or] at ordinary
  simp [outside, ordinary]

/-- A letter has no meaning of its own. -/
theorem outside_of_isLetter (letter : isLetter character = true) :
    outside character = some (.text, .stay) :=
  outside_of_notMem fun member =>
    absurd (List.any_eq_true.mpr ⟨character, member, letter⟩) (by decide)

/-- Whether a mode can stand in for another one: they are the same, or the first is quiet
and the other one in no name. -/
def Mode.StandsFor (mode other : Mode) : Prop :=
  mode = other ∨ mode.isQuiet = true ∧ other = .text

/-- What follows keeps a mode in its place: where it goes on with a name, the other mode
stays in no name. -/
theorem Mode.StandsFor.follow {other target : Mode} (stands : mode.StandsFor other)
    (found : other.next character = some (target, effect)) :
    ∃ own : Mode, mode.next character = some (own, effect) ∧ own.StandsFor target := by
  obtain rfl | ⟨quiet, rfl⟩ := stands
  · exact ⟨target, found, Or.inl rfl⟩
  have outsideEq : outside character = some (target, effect) := found
  cases letter : isLetter character with
  | false => exact ⟨target, (next_of_isQuiet quiet letter).trans outsideEq, Or.inl rfl⟩
  | true =>
      obtain ⟨rfl, rfl⟩ := Prod.mk.inj
        (Option.some.inj ((outside_of_isLetter letter).symm.trans outsideEq))
      cases mode with
      | text => exact ⟨text, outsideEq, Or.inl rfl⟩
      | name letters =>
          exact ⟨name (letters ++ [character]), by simp [Mode.next, letter],
            Or.inr ⟨isHarmless_append quiet _, rfl⟩⟩
      | heading | escape | number | numberEnd | specifier | specifierEnd =>
          exact Bool.noConfusion quiet

/-! ## Scans in the place of others -/

/-- Whether a scan can stand in for another one, whatever follows. -/
structure StandsFor (scan other : Scan) : Prop where
  depth : scan.depth = other.depth
  mode : scan.mode.StandsFor other.mode

/-- Whether two scans are in the middle of the same or both quiet. -/
structure Alike (scan other : Scan) : Prop where
  depth : scan.depth = other.depth
  mode : scan.mode = other.mode ∨ scan.mode.isQuiet = true ∧ other.mode.isQuiet = true

theorem Alike.isQuiet (alike : scan.Alike other) (quiet : other.mode.isQuiet = true) :
    scan.mode.isQuiet = true := by
  rcases alike.mode with same | ⟨scanQuiet, -⟩
  · rwa [same]
  · exact scanQuiet

theorem StandsFor.alike (stands : scan.StandsFor other) : scan.Alike other :=
  ⟨stands.depth, stands.mode.imp_right fun ⟨quiet, isText⟩ => ⟨quiet, isText ▸ rfl⟩⟩

theorem StandsFor.step (stands : scan.StandsFor other)
    (reached : other.step character = some next) :
    ∃ own, scan.step character = some own ∧ own.StandsFor next ∧
      own.shape - scan.shape = next.shape - other.shape := by
  obtain ⟨target, effect, found, taken⟩ := step_eq_some.mp reached
  obtain ⟨mode, ownFound, modeStands⟩ := stands.mode.follow found
  obtain ⟨allowed, rfl⟩ := take_eq_some.mp taken
  rw [← stands.depth] at allowed ⊢
  exact ⟨_, step_eq_some.mpr ⟨mode, effect, ownFound, take_eq_some.mpr ⟨allowed, rfl⟩⟩,
    ⟨rfl, modeStands⟩, by simp [shape]⟩

theorem StandsFor.run (stands : scan.StandsFor other) (reached : other.run text = some next) :
    ∃ own, scan.run text = some own ∧ own.StandsFor next ∧
      own.shape - scan.shape = next.shape - other.shape := by
  induction text generalizing scan other with
  | nil =>
      obtain rfl := Option.some.inj reached
      exact ⟨scan, rfl, stands, by simp⟩
  | cons character rest ih =>
      obtain ⟨middle, first, behind⟩ := run_cons_eq_some.mp reached
      obtain ⟨ownMiddle, ownFirst, middleStands, firstShape⟩ := stands.step first
      obtain ⟨own, ownBehind, ownStands, restShape⟩ := ih middleStands behind
      refine ⟨own, run_cons_eq_some.mpr ⟨ownMiddle, ownFirst, ownBehind⟩, ownStands, ?_⟩
      rw [← sub_add_sub_cancel own.shape ownMiddle.shape, restShape, firstShape,
        sub_add_sub_cancel]

/-- Whether a scan can go on in the place of another one with a text: it stands for the
other one, or both are quiet and no letter comes next. -/
inductive Joins (scan other : Scan) (text : Text) : Prop where
  | stands (stands : scan.StandsFor other)
  | quiet (depth : scan.depth = other.depth) (scanQuiet : scan.mode.isQuiet = true)
      (otherQuiet : other.mode.isQuiet = true)
      (noLetter : ∀ character ∈ text.head?, isLetter character = false)

theorem Joins.run {front back : Text} (joins : scan.Joins other (front ++ back))
    (reached : other.run front = some next) :
    ∃ own, scan.run front = some own ∧ own.Alike next ∧
      own.shape - scan.shape = next.shape - other.shape := by
  cases joins with
  | stands stands =>
      obtain ⟨own, ownReached, ownStands, shape⟩ := stands.run reached
      exact ⟨own, ownReached, ownStands.alike, shape⟩
  | quiet sameDepth scanQuiet otherQuiet noLetter =>
      cases front with
      | nil =>
          obtain rfl := Option.some.inj reached
          exact ⟨scan, rfl, ⟨sameDepth, Or.inr ⟨scanQuiet, otherQuiet⟩⟩, by simp⟩
      | cons character rest =>
          -- The first character takes both scans to the same mode.
          have none := noLetter character (by simp)
          have stands : StandsFor { scan with mode := other.mode } other := ⟨sameDepth, Or.inl rfl⟩
          obtain ⟨own, ownReached, ownStands, shape⟩ := stands.run reached
          refine ⟨own, ?_, ownStands.alike, shape⟩
          rw [← ownReached, run_cons, run_cons, Scan.step, Scan.step,
            Mode.next_of_isQuiet scanQuiet none, Mode.next_of_isQuiet otherQuiet none]
          rfl

/-! ## Texts at another depth -/

/-- Only letters of the column specifier make columns. -/
theorem Mode.eq_heading_of_column {target : Mode}
    (found : mode.next character = some (target, .column)) : mode = .heading := by
  cases mode <;> simp only [next, outside] at found <;> grind

theorem Mode.ne_heading_of_next {target : Mode} (behind : mode ≠ .heading)
    (found : mode.next character = some (target, effect)) : target ≠ .heading := by
  cases mode <;> simp only [next, outside] at found <;> grind

theorem rows_le_of_run (reached : scan.run text = some next) : scan.rows ≤ next.rows := by
  induction text generalizing scan with
  | nil =>
      obtain rfl := Option.some.inj reached
      exact Nat.le_refl _
  | cons character rest ih =>
      obtain ⟨middle, first, behind⟩ := run_cons_eq_some.mp reached
      obtain ⟨target, effect, -, taken⟩ := step_eq_some.mp first
      obtain ⟨-, rfl⟩ := take_eq_some.mp taken
      exact Nat.le_trans (Nat.le_add_right _ _) (ih behind)

/-- Behind the column specifier nothing belongs to it. -/
theorem columns_of_run (reached : scan.run text = some next) (behind : scan.mode ≠ .heading) :
    next.mode ≠ .heading ∧ next.columns = scan.columns := by
  induction text generalizing scan with
  | nil =>
      obtain rfl := Option.some.inj reached
      exact ⟨behind, rfl⟩
  | cons character rest ih =>
      obtain ⟨middle, first, others⟩ := run_cons_eq_some.mp reached
      obtain ⟨target, effect, found, taken⟩ := step_eq_some.mp first
      obtain ⟨-, rfl⟩ := take_eq_some.mp taken
      obtain ⟨finalBehind, same⟩ := ih others (Mode.ne_heading_of_next behind found)
      have noColumn : effect.columns = 0 := by
        cases effect with
        | column => exact absurd (Mode.eq_heading_of_column found) behind
        | stay | row | enter | leave => rfl
      exact ⟨finalBehind, by rw [same, noColumn]; rfl⟩

/-- A character that ends no row does the same at every depth, unless it leaves a group
and none is open there. -/
theorem step_at_depth (reached : scan.step character = some next) (behind : scan.mode ≠ .heading)
    (sameRows : next.rows = scan.rows) {depth : Nat} (leaves : next.depth < scan.depth → 0 < depth)
    (columns rows : Nat) :
    ∃ reachedDepth, (⟨scan.mode, depth, columns, rows⟩ : Scan).step character
        = some ⟨next.mode, reachedDepth, columns, rows⟩ ∧
      reachedDepth + scan.depth = depth + next.depth := by
  obtain ⟨target, effect, found, taken⟩ := step_eq_some.mp reached
  obtain ⟨allowed, rfl⟩ := take_eq_some.mp taken
  have same (reachedDepth : Nat) (isAllowed : effect.isAllowed depth = true)
      (depthEq : effect.depth depth = reachedDepth) (noColumn : effect.columns = 0)
      (noRow : effect.rows = 0) :
      (⟨scan.mode, depth, columns, rows⟩ : Scan).step character
        = some ⟨target, reachedDepth, columns, rows⟩ := by
    refine step_eq_some.mpr ⟨target, effect, found, take_eq_some.mpr ⟨isAllowed, ?_⟩⟩
    rw [depthEq, noColumn, noRow]
    rfl
  cases effect with
  | stay => exact ⟨depth, same depth rfl rfl rfl rfl, rfl⟩
  | enter => exact ⟨depth + 1, same _ rfl rfl rfl rfl, by simp only [Effect.depth]; omega⟩
  | leave =>
      have isOpen : scan.depth ≠ 0 := by simpa [Effect.isAllowed] using allowed
      have positive := leaves (Nat.sub_one_lt isOpen)
      refine ⟨depth - 1, same _ ?_ rfl rfl rfl, by simp only [Effect.depth]; omega⟩
      simpa [Effect.isAllowed] using Nat.ne_of_gt positive
  | column => exact absurd (Mode.eq_heading_of_column found) behind
  | row => exact absurd sameRows (by simp [Effect.rows])

/-- A text that ends no row may stand within more groups. -/
theorem run_deeper (reached : scan.run text = some next) (behind : scan.mode ≠ .heading)
    (sameRows : next.rows = scan.rows) (deeper columns rows : Nat) :
    (⟨scan.mode, scan.depth + deeper, columns, rows⟩ : Scan).run text
      = some ⟨next.mode, next.depth + deeper, columns, rows⟩ := by
  induction text generalizing scan with
  | nil =>
      obtain rfl := Option.some.inj reached
      rfl
  | cons character rest ih =>
      obtain ⟨middle, first, others⟩ := run_cons_eq_some.mp reached
      have firstRows : scan.rows ≤ middle.rows :=
        @rows_le_of_run scan middle [character] (run_cons_eq_some.mpr ⟨middle, first, rfl⟩)
      have restRows := rows_le_of_run others
      have middleBehind : middle.mode ≠ .heading :=
        (@columns_of_run scan middle [character] (run_cons_eq_some.mpr ⟨middle, first, rfl⟩)
          behind).1
      have leaves : middle.depth < scan.depth → 0 < scan.depth + deeper := by omega
      obtain ⟨depth, firstDeeper, depthEq⟩ :=
        step_at_depth first behind (by omega) leaves columns rows
      obtain rfl : depth = middle.depth + deeper := by omega
      exact run_cons_eq_some.mpr ⟨_, firstDeeper, ih others middleBehind (by omega)⟩

end Scan

end LatexTabular
