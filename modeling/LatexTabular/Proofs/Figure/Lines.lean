import LatexTabular.Proofs.Markup.Lookahead
import LatexTabular.Proofs.Sheet.Delimiters
import LatexTabular.Proofs.Table.Float
import Mathlib.Data.List.Infix

/-!
# Lines of a float

A float is written in lines.  A line holds a caption or a label and nothing else, or it holds
other text in which neither of them nor a delimiter starts (`Text.Lacks`).  The captions and
labels of such lines are found where they are written (`occurrencesFrom_linesText`).
-/

namespace LatexTabular

open Markup

namespace Text

/-- Whether no command with one of some names starts in a text. -/
def Lacks (names : List Text) (text : Text) : Prop :=
  ∀ tail ∈ text.tails, ∀ name ∈ names, ¬ '\\' :: name <+: tail

instance {names : List Text} {text : Text} : Decidable (text.Lacks names) :=
  inferInstanceAs (Decidable (∀ tail ∈ text.tails, ∀ name ∈ names, ¬ '\\' :: name <+: tail))

/-- Whether a name that reaches up to a text ends there. -/
def EndsName (rest : Text) : Prop := ∀ head ∈ rest.head?, isLetter head = false

namespace Lacks

variable {names : List Text} {text : Text}

theorem tail {head : Char} (lacks : Lacks names (head :: text)) : text.Lacks names :=
  fun tail member => lacks tail ((List.mem_tails ..).mpr
    (((List.mem_tails ..).mp member).trans (List.suffix_cons head text)))

theorem mono {others : List Text} (lacks : text.Lacks names) (part : others ⊆ names) :
    text.Lacks others :=
  fun tail member name isName => lacks tail member name (part isName)

/-- No name starts in a text and goes on behind it. -/
theorem not_isPrefix {head : Char} {rest name : Text} (lacks : Lacks names (head :: text))
    (isName : name ∈ names) (letters : name.all isLetter = true) (ends : EndsName rest) :
    ¬ '\\' :: name <+: head :: (text ++ rest) := by
  intro leads
  have whole := lacks (head :: text) ((List.mem_tails ..).mpr List.suffix_rfl) name isName
  rcases List.prefix_or_prefix_of_prefix leads (List.prefix_append (head :: text) rest)
    with within | ⟨more, moreEq⟩
  · exact whole within
  · cases more with
    | nil =>
        rw [List.append_nil] at moreEq
        exact whole (moreEq ▸ List.prefix_rfl)
    | cons next others =>
        have behind : next :: others <+: rest := by
          rw [← moreEq, ← List.cons_append] at leads
          exact (List.prefix_append_right_inj _).mp leads
        obtain ⟨after, rfl⟩ := behind
        have isLetter : isLetter next = true := by
          refine List.all_eq_true.mp letters next ?_
          rw [← (List.cons.inj moreEq).2]
          simp
        rw [ends next rfl] at isLetter
        exact Bool.noConfusion isLetter

end Lacks

end Text

namespace Markup

theorem after?_eq_none_iff {lead text : Text} : Text.after? lead text = none ↔ ¬ lead <+: text := by
  simp [Text.after?]

/-- The names of the commands that delimit environments. -/
def delimiterNames : List Text := ["begin".toList, "end".toList]

/-- In a text without delimiters none starts, if no name goes on behind it. -/
theorem delimitersFrom_append_of_lacks {text rest : Text} (lacks : text.Lacks delimiterNames)
    (ends : rest.EndsName) (offset : Nat) :
    delimitersFrom offset (text ++ rest) = delimitersFrom (offset + text.size) rest := by
  induction text generalizing offset with
  | nil => rfl
  | cons head text ih =>
      have isNone {name : Text} (isName : name ∈ delimiterNames)
          (letters : name.all Text.isLetter = true) :
          Text.after? ('\\' :: name) (head :: (text ++ rest)) = none :=
        after?_eq_none_iff.mpr (lacks.not_isPrefix isName letters ends)
      have noBegin : Text.after? "\\begin".toList (head :: (text ++ rest)) = none :=
        isNone List.mem_cons_self (by decide)
      have noEnd : Text.after? "\\end".toList (head :: (text ++ rest)) = none :=
        isNone (List.mem_cons_of_mem _ List.mem_cons_self) (by decide)
      have none : delimiter? offset (head :: (text ++ rest)) = .none := by
        simp only [delimiter?, noBegin, noEnd]
        rfl
      rw [List.cons_append, delimitersFrom, none, ih lacks.tail, Text.size_cons, Nat.add_assoc]

end Markup

namespace Captioning

/-- The names of the commands of a float. -/
def commandNames : List Text := [Command.caption.name, Command.label.name]

/-- In a text without captions and labels none starts, if no name goes on behind it. -/
theorem occurrencesFrom_append_of_lacks {text rest : Text} (lacks : text.Lacks commandNames)
    (ends : rest.EndsName) (offset : Nat) :
    occurrencesFrom offset (text ++ rest) = occurrencesFrom (offset + text.size) rest := by
  induction text generalizing offset with
  | nil => rfl
  | cons head text ih =>
      have isNone (command : Command) :
          Text.after? ('\\' :: command.name) (head :: (text ++ rest)) = none := by
        refine after?_eq_none_iff.mpr (lacks.not_isPrefix ?_ ?_ ends)
        · cases command <;> decide
        · cases command <;> decide
      have none : occurrence? offset (head :: (text ++ rest)) = .none := by
        simp only [occurrence?, isNone]
        rfl
      rw [List.cons_append, occurrencesFrom, none, ih lacks.tail, Text.size_cons, Nat.add_assoc]

theorem occurrencesFrom_append_of_notMem {text : Text} (rest : Text) (plain : '\\' ∉ text)
    (offset : Nat) :
    occurrencesFrom offset (text ++ rest) = occurrencesFrom (offset + text.size) rest := by
  induction text generalizing offset with
  | nil => rfl
  | cons head text ih =>
      have headPlain : '\\' ≠ head := fun equal => plain (equal ▸ List.mem_cons_self)
      have isNone (command : Command) :
          Text.after? ('\\' :: command.name) (head :: (text ++ rest)) = none :=
        after?_eq_none_iff.mpr fun leads => headPlain (List.cons_prefix_cons.mp leads).1
      have none : occurrence? offset (head :: (text ++ rest)) = .none := by
        simp only [occurrence?, isNone]
        rfl
      rw [List.cons_append, occurrencesFrom, none,
        ih fun member => plain (List.mem_cons_of_mem _ member), Text.size_cons, Nat.add_assoc]

namespace Command

/-- A command with its argument. -/
def text (command : Command) (argument : Text) : Text :=
  '\\' :: command.name ++ ('{' :: (argument ++ ['}']))

end Command

end Captioning

namespace Markup

/-- A brace group is all the arguments of a command with one. -/
theorem arguments_one_append {argument : Text} (rest : Text)
    (closed : untilClosed? 0 (argument ++ ['}']) = some argument) :
    arguments 1 ('{' :: (argument ++ '}' :: rest)) = '{' :: (argument ++ ['}']) := by
  have noOptional : optionalGroups ('{' :: (argument ++ '}' :: rest)) = [] := by
    rw [optionalGroups]
    rfl
  have noGap : spaces ('{' :: (argument ++ '}' :: rest)) = [] := by
    have opened : isSpace '{' = false := by decide
    simp [spaces, opened]
  have found : untilClosed? 0 (argument ++ '}' :: rest) = some argument := by
    have whole := untilClosed?_append rest closed
    rwa [List.append_assoc] at whole
  have group : requiredGroups 1 ('{' :: (argument ++ '}' :: rest)) = '{' :: (argument ++ ['}']) := by
    simp only [requiredGroups, noGap, List.length_nil, List.drop_zero, found]
    simp
  rw [arguments, noOptional, List.length_nil, List.drop_zero, group, List.nil_append]

end Markup

namespace Captioning

/-- A caption or label with its argument is found where it is written. -/
theorem occurrence?_text (command : Command) {argument : Text} (rest : Text)
    (closed : untilClosed? 0 (argument ++ ['}']) = some argument) (offset : Nat) :
    occurrence? offset (command.text argument ++ rest)
      = some ⟨command, ⟨offset, offset + (command.text argument).size⟩⟩ := by
  have textEq : command.text argument ++ rest
      = '\\' :: command.name ++ ('{' :: (argument ++ '}' :: rest)) := by
    simp [Command.text]
  have read := after?_append ('\\' :: command.name) ('{' :: (argument ++ '}' :: rest))
  have ends : Text.wordEnds ('{' :: (argument ++ '}' :: rest)) = true := by
    have noWord : Text.isWord '{' = false := by decide
    simp [Text.wordEnds, noWord]
  have stop : offset + (command.text argument).size = offset + 1 + command.name.size
      + (arguments 1 ('{' :: (argument ++ '}' :: rest))).size := by
    have backslash : '\\'.utf8Size = 1 := by decide
    rw [arguments_one_append rest closed, Command.text, Text.size_append, Text.size_cons, backslash]
    omega
  rw [textEq, stop]
  cases command with
  | caption =>
      simp only [occurrence?, read, Option.bind_eq_bind, Option.bind_some, ends, if_true]
      rfl
  | label =>
      have noCaption : Text.after? ('\\' :: Command.caption.name)
          ('\\' :: Command.label.name ++ ('{' :: (argument ++ '}' :: rest))) = none := by
        refine after?_eq_none_iff.mpr fun leads => ?_
        have second := (List.cons_prefix_cons.mp leads).2
        exact absurd (List.cons_prefix_cons.mp second).1 (by decide)
      simp only [occurrence?, noCaption, read, Option.bind_eq_bind, Option.bind_some, ends, if_true]
      rfl

end Captioning

/-- A line of a float: a caption or a label with the white space in front of it, or other text. -/
inductive FloatLine where
  | plain (text : Text)
  | command (indent : Text) (name : Captioning.Command) (argument : Text)
  deriving DecidableEq, Repr

namespace FloatLine

open Captioning

/-- A line without its line feed. -/
def text : FloatLine → Text
  | plain text => text
  | command indent name argument => indent ++ name.text argument

/-- The names of the commands that no text of a line may hold. -/
def names : List Text := delimiterNames ++ commandNames

/-- A line whose own command, if any, is the only one of a float or of an environment. -/
def WellFormed : FloatLine → Prop
  | plain text => '\n' ∉ text ∧ '%' ∉ text ∧ text.Lacks names
  | command indent _ argument => (Text.allBlank indent = true ∧ '\n' ∉ indent) ∧
      ('\n' ∉ argument ∧ '%' ∉ argument ∧ argument.Lacks names) ∧
      untilClosed? 0 (argument ++ ['}']) = some argument

instance : (line : FloatLine) → Decidable line.WellFormed
  | plain text => inferInstanceAs (Decidable ('\n' ∉ text ∧ '%' ∉ text ∧ text.Lacks names))
  | command indent _ argument =>
      inferInstanceAs (Decidable ((Text.allBlank indent = true ∧ '\n' ∉ indent) ∧
        ('\n' ∉ argument ∧ '%' ∉ argument ∧ argument.Lacks names) ∧
        untilClosed? 0 (argument ++ ['}']) = some argument))

/-- The command of a line that starts at an offset. -/
def occurrence? (offset : Nat) : FloatLine → Option Occurrence
  | plain _ => none
  | command indent name argument => some ⟨name, ⟨offset + indent.size,
      offset + indent.size + (name.text argument).size⟩⟩

end FloatLine

/-- Lines, each with its line feed. -/
def linesText (lines : List FloatLine) : Text := lines.flatMap fun line => line.text ++ ['\n']

/-- The commands of lines that start at an offset. -/
def occurrencesIn (offset : Nat) : List FloatLine → List Captioning.Occurrence
  | [] => []
  | line :: rest =>
      (line.occurrence? offset).toList ++ occurrencesIn (offset + (line.text ++ ['\n']).size) rest

/-! ## What is read from lines -/

namespace Captioning.Command

theorem notMem_name (command : Command) {character : Char}
    (special : character = '\\' ∨ character = '%' ∨ character = '\n') :
    character ∉ command.name := by
  rcases special with rfl | rfl | rfl <;> cases command <;> decide

theorem notMem_text (command : Command) {argument : Text} {character : Char}
    (special : character = '%' ∨ character = '\n') (absent : character ∉ argument) :
    character ∉ command.text argument := by
  have inName := command.notMem_name (Or.inr special)
  have others : character ≠ '\\' ∧ character ≠ '{' ∧ character ≠ '}' := by
    rcases special with rfl | rfl <;> decide
  simp [text, inName, absent, others]

theorem text_append (command : Command) (argument rest : Text) :
    command.text argument ++ rest
      = '\\' :: (command.name ++ ['{'] ++ (argument ++ '}' :: rest)) := by
  simp [text]

/-- No other command begins within the name of a command or at the brace behind it. -/
theorem notMem_opening (command : Command) : '\\' ∉ command.name ++ ['{'] := by
  simp [command.notMem_name (Or.inl rfl)]

theorem endsName_closing (rest : Text) : Text.EndsName ('}' :: rest) := by
  rintro _ ⟨⟩
  decide

/-- A command ends behind the brace that closes its argument. -/
theorem add_size_text (command : Command) (argument : Text) (offset : Nat) :
    offset + '\\'.utf8Size + Text.size (command.name ++ ['{']) + argument.size + Text.size ['}']
      = offset + (command.text argument).size := by
  simp only [text, Text.size_append, Text.size_cons, Text.size_nil]
  omega

theorem undelimited_text (command : Command) {argument : Text}
    (lacks : argument.Lacks delimiterNames) : Undelimited (command.text argument) := by
  intro offset rest
  have none : delimiter? offset ('\\' :: (command.name ++ ['{'] ++ (argument ++ '}' :: rest)))
      = .none := by
    cases command with
    | caption => exact delimiter?_eq_none_of_second (by decide) (by decide)
    | label => exact delimiter?_eq_none_of_second (by decide) (by decide)
  have closing (offset : Nat) : delimitersFrom offset ('}' :: rest)
      = delimitersFrom (offset + Text.size ['}']) rest :=
    delimitersFrom_append_of_notMem _ rest (by decide : '\\' ∉ ['}'])
  rw [text_append, delimitersFrom, none,
    delimitersFrom_append_of_notMem _ _ command.notMem_opening,
    delimitersFrom_append_of_lacks lacks (endsName_closing rest), closing, add_size_text]

theorem occurrencesFrom_text (command : Command) {argument : Text} (rest : Text)
    (lacks : argument.Lacks commandNames)
    (closed : untilClosed? 0 (argument ++ ['}']) = some argument) (offset : Nat) :
    occurrencesFrom offset (command.text argument ++ rest)
      = ⟨command, ⟨offset, offset + (command.text argument).size⟩⟩
        :: occurrencesFrom (offset + (command.text argument).size) rest := by
  have found := occurrence?_text command rest closed offset
  have closing (offset : Nat) : occurrencesFrom offset ('}' :: rest)
      = occurrencesFrom (offset + Text.size ['}']) rest :=
    occurrencesFrom_append_of_notMem rest (by decide : '\\' ∉ ['}']) _
  rw [text_append] at found ⊢
  rw [occurrencesFrom, found, occurrencesFrom_append_of_notMem _ command.notMem_opening,
    occurrencesFrom_append_of_lacks lacks (endsName_closing rest), closing, add_size_text]

end Captioning.Command

namespace FloatLine

open Captioning

variable {line : FloatLine}

theorem notMem_of_allBlank {indent : Text} {character : Char} (blank : Text.allBlank indent = true)
    (inked : Text.isBlank character = false) : character ∉ indent := by
  intro member
  rw [List.all_eq_true.mp blank character member] at inked
  exact Bool.noConfusion inked

theorem notMem_text (wellFormed : line.WellFormed) : '\n' ∉ line.text ∧ '%' ∉ line.text := by
  cases line with
  | plain text => exact ⟨wellFormed.1, wellFormed.2.1⟩
  | command indent name argument =>
      obtain ⟨⟨blank, unbroken⟩, ⟨unbroken', uncommented, -⟩, -⟩ := wellFormed
      have plain := notMem_of_allBlank blank (by decide : Text.isBlank '%' = false)
      simp [text, unbroken, plain, name.notMem_text (Or.inr rfl) unbroken',
        name.notMem_text (Or.inl rfl) uncommented]

theorem endsName_newline (rest : Text) : Text.EndsName ('\n' :: rest) := by
  rintro _ ⟨⟩
  decide

theorem undelimited (wellFormed : line.WellFormed) : Undelimited (line.text ++ ['\n']) := by
  have newline : Undelimited ['\n'] := undelimited_of_notMem (by decide)
  cases line with
  | plain text =>
      intro offset rest
      have lacks := wellFormed.2.2.mono (List.subset_append_left delimiterNames commandNames)
      have text := delimitersFrom_append_of_lacks lacks (endsName_newline rest) offset
      rw [List.append_assoc, FloatLine.text, List.singleton_append, text, Text.size_append,
        ← Nat.add_assoc]
      exact newline _ rest
  | command indent name argument =>
      obtain ⟨⟨blank, -⟩, ⟨-, -, lacks⟩, -⟩ := wellFormed
      have lacks := lacks.mono (List.subset_append_left delimiterNames commandNames)
      have indentation : Undelimited indent :=
        undelimited_of_notMem (notMem_of_allBlank blank (by decide))
      exact (indentation.append (name.undelimited_text lacks)).append newline

theorem occurrencesFrom_append (wellFormed : line.WellFormed) (offset : Nat) (rest : Text) :
    occurrencesFrom offset (line.text ++ ['\n'] ++ rest) = (line.occurrence? offset).toList
      ++ occurrencesFrom (offset + (line.text ++ ['\n']).size) rest := by
  have newline (offset : Nat) :
      occurrencesFrom offset ('\n' :: rest) = occurrencesFrom (offset + Text.size ['\n']) rest :=
    occurrencesFrom_append_of_notMem rest (by decide : '\\' ∉ ['\n']) offset
  rw [List.append_assoc, List.singleton_append, Text.size_append, ← Nat.add_assoc]
  cases line with
  | plain text =>
      have lacks := wellFormed.2.2.mono (List.subset_append_right delimiterNames commandNames)
      rw [FloatLine.text, occurrencesFrom_append_of_lacks lacks (endsName_newline rest), newline]
      rfl
  | command indent name argument =>
      obtain ⟨⟨blank, -⟩, ⟨-, -, lacks⟩, closed⟩ := wellFormed
      have lacks := lacks.mono (List.subset_append_right delimiterNames commandNames)
      have plain := notMem_of_allBlank blank (by decide : Text.isBlank '\\' = false)
      rw [FloatLine.text, List.append_assoc, occurrencesFrom_append_of_notMem _ plain,
        name.occurrencesFrom_text _ lacks closed, newline, Text.size_append, ← Nat.add_assoc]
      rfl

end FloatLine

section Lines

variable {lines : List FloatLine}

theorem linesText_cons (line : FloatLine) (rest : List FloatLine) :
    linesText (line :: rest) = line.text ++ ['\n'] ++ linesText rest := List.flatMap_cons

theorem linesText_append (lines others : List FloatLine) :
    linesText (lines ++ others) = linesText lines ++ linesText others := List.flatMap_append

theorem notMem_linesText (wellFormed : ∀ line ∈ lines, line.WellFormed) : '%' ∉ linesText lines := by
  intro member
  obtain ⟨line, isLine, inLine⟩ := List.mem_flatMap.mp member
  have plain := (FloatLine.notMem_text (wellFormed line isLine)).2
  simp [plain] at inLine

theorem undelimited_linesText (wellFormed : ∀ line ∈ lines, line.WellFormed) :
    Undelimited (linesText lines) := by
  induction lines with
  | nil => exact undelimited_of_notMem List.not_mem_nil
  | cons line rest ih =>
      rw [linesText_cons]
      exact (FloatLine.undelimited (wellFormed line List.mem_cons_self)).append
        (ih fun other member => wellFormed other (List.mem_cons_of_mem _ member))

/-- The commands of lines are found where they are written. -/
theorem occurrencesFrom_linesText (wellFormed : ∀ line ∈ lines, line.WellFormed) (offset : Nat)
    (rest : Text) : Captioning.occurrencesFrom offset (linesText lines ++ rest)
      = occurrencesIn offset lines
        ++ Captioning.occurrencesFrom (offset + (linesText lines).size) rest := by
  induction lines generalizing offset with
  | nil => rfl
  | cons line others ih =>
      have first := FloatLine.occurrencesFrom_append (wellFormed line List.mem_cons_self) offset
        (linesText others ++ rest)
      rw [linesText_cons, List.append_assoc, first,
        ih (fun other member => wellFormed other (List.mem_cons_of_mem _ member)), occurrencesIn,
        List.append_assoc, Text.size_append _ (linesText others), ← Nat.add_assoc]

end Lines

end LatexTabular
