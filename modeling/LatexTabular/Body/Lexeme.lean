import LatexTabular.Markup.Group
import LatexTabular.Text.Line
import LatexTabular.Text.Numeral

/-!
# Lexemes of a table body

The body of a table is cut into lexemes that follow one another without a gap:
`flatMap_text_lex` says that their texts make up the body again.  Separators,
terminators and rules count only outside brace groups, a merge only at the front
of a cell, and an environment within the body is one lexeme.
-/

namespace LatexTabular.Body

open Markup

/-- The parts of a `\multicolumn` with its three arguments. -/
structure MergeText where
  /-- White space between the name and the first argument. -/
  numberGap : Text
  number : Text
  specifierGap : Text
  specifier : Text
  contentGap : Text
  content : Text
  /-- The number of columns that `number` writes. -/
  columns : Nat
  deriving DecidableEq, Repr

/-- The brace group at the front of a text, with the white space before it and
the text after it. -/
def spacedGroup? (text : Text) : Option (Text × Text × Text) := do
  let gap := spaces text
  let afterGap := text.drop gap.length
  let content ← braceGroup? afterGap
  return (gap, content, afterGap.drop (content.length + 2))

namespace MergeText

/-- The name of the command. -/
def name : Text := "multicolumn".toList

/-- Everything up to the content. -/
def preamble (merge : MergeText) : Text :=
  '\\' :: name ++ merge.numberGap ++ '{' :: merge.number ++ '}' ::
    merge.specifierGap ++ '{' :: merge.specifier ++ '}' ::
      merge.contentGap ++ ['{']

/-- The whole command. -/
def text (merge : MergeText) : Text := merge.preamble ++ merge.content ++ ['}']

/-- The arguments at the front of a text, if there are three and the first is a
number. -/
def read? (text : Text) : Option MergeText := do
  let (numberGap, number, afterNumber) ← spacedGroup? text
  let (specifierGap, specifier, afterSpecifier) ← spacedGroup? afterNumber
  let (contentGap, content, _) ← spacedGroup? afterSpecifier
  let columns ← Text.number? (Text.trim number)
  return { numberGap, number, specifierGap, specifier, contentGap, content, columns }

end MergeText

theorem spacedGroup?_eq {text gap content rest : Text}
    (found : spacedGroup? text = some (gap, content, rest)) :
    gap ++ '{' :: content ++ '}' :: rest = text := by
  simp only [spacedGroup?, Option.bind_eq_bind, Option.bind_eq_some_iff,
    Option.pure_def, Option.some.injEq, Prod.mk.injEq] at found
  obtain ⟨_, closed, rfl, rfl, rfl⟩ := found
  obtain ⟨after, grouped⟩ := braceGroup?_isPrefix closed
  have split : spaces text ++ text.drop (spaces text).length = text :=
    List.prefix_iff_eq_append.mp (List.takeWhile_prefix _)
  conv => rhs; rw [← split, ← grouped]
  simp [← grouped]

/-- A merge is read from the front of the text after its name. -/
theorem MergeText.text_isPrefix {text : Text} {parts : MergeText}
    (found : MergeText.read? text = some parts) :
    parts.text <+: '\\' :: MergeText.name ++ text := by
  simp only [MergeText.read?, Option.bind_eq_bind, Option.bind_eq_some_iff,
    Option.pure_def, Option.some.injEq] at found
  obtain ⟨⟨_, _, _⟩, first, ⟨_, _, _⟩, second, ⟨_, _, rest⟩, third, _, _, rfl⟩ :=
    found
  dsimp only at second third ⊢
  refine ⟨rest, ?_⟩
  rw [← spacedGroup?_eq first, ← spacedGroup?_eq second, ← spacedGroup?_eq third]
  simp [MergeText.text, MergeText.preamble]

/-- What a part of a body is. -/
inductive Kind where
  | space
  | comment
  /-- A separator between two cells of a row. -/
  | separator
  /-- The end of a row. -/
  | terminator
  /-- A horizontal rule. -/
  | rule
  /-- A merge at the front of a cell. -/
  | merge (parts : MergeText)
  /-- Anything else that belongs to a cell. -/
  | content
  deriving DecidableEq, Repr

namespace Kind

/-- Whether a part makes its cell non-blank. -/
def fillsCell : Kind → Bool
  | merge _ | content => true
  | _ => false

end Kind

/-- A part of a body with the offset at which it starts. -/
structure Lexeme where
  start : Nat
  kind : Kind
  text : Text
  deriving DecidableEq, Repr

namespace Lexeme

def stop (lexeme : Lexeme) : Nat := lexeme.start + lexeme.text.size

def span (lexeme : Lexeme) : Span := ⟨lexeme.start, lexeme.stop⟩

end Lexeme

/-- What the meaning of a part depends on: how many brace groups are open, and
whether the cell is still blank. -/
structure Context where
  depth : Nat
  cellIsBlank : Bool
  deriving DecidableEq, Repr

namespace Context

/-- The context at the start of a body. -/
def start : Context := ⟨0, true⟩

/-- The context after a part with the first character `head`.  A closing brace
without an opening one is ignored. -/
def after (context : Context) (head : Char) (kind : Kind) : Context where
  depth :=
    if head = '{' then context.depth + 1
    else if head = '}' then context.depth - 1
    else context.depth
  cellIsBlank :=
    match kind with
    | .separator | .terminator => true
    | .merge _ | .content => false
    | _ => context.cellIsBlank

end Context

/-- The kind of the control sequence whose backslash stands before a text, and
the part of that text that belongs to it. -/
def readControl (context : Context) (text : Text) : Kind × Text :=
  let name := controlName text
  let afterName := text.drop name.length
  if context.depth != 0 then (.content, name)
  else if name = ['\\'] then
    (.terminator, name ++ (optionalGroup? afterName).getD [])
  else
    match ruleCommands.lookup name with
    | some required => (.rule, name ++ arguments required afterName)
    | none =>
        if name = MergeText.name && context.cellIsBlank then
          match MergeText.read? afterName with
          | some parts => (.merge parts, parts.text.tail)
          | none => (.content, name)
        else (.content, name)

/-- The kind of the part that starts with `head`, and what of the following text
belongs to it.  The spans of the environments within the body are given. -/
def readPart (nested : List Span) (offset : Nat) (context : Context)
    (head : Char) (rest : Text) : Kind × Text :=
  if head = '%' then (.comment, Text.firstLine rest)
  else if head = '\\' then
    match nested.find? (·.start == offset) with
    | some environment =>
        (.content, rest.takeBytes (environment.stop - offset - 1))
    | none => readControl context rest
  else if head = '&' && context.depth == 0 then (.separator, [])
  else if isSpace head then (.space, [])
  else (.content, [])

theorem readControl_isPrefix (context : Context) (text : Text) :
    (readControl context text).2 <+: text := by
  have named := controlName_isPrefix text
  unfold readControl
  dsimp only
  split
  · exact named
  split
  · refine append_isPrefix named ?_
    cases found : optionalGroup? (text.drop (controlName text).length) with
    | none => exact List.nil_prefix
    | some group => exact optionalGroup?_isPrefix found
  split
  · exact append_isPrefix named (arguments_isPrefix _ _)
  split
  next isMerge =>
    split
    next parts found =>
      have whole := MergeText.text_isPrefix found
      simp only [Bool.and_eq_true, decide_eq_true_eq] at isMerge
      rw [← isMerge.1, List.cons_append,
        List.prefix_iff_eq_append.mp named] at whole
      obtain ⟨after, equal⟩ := whole
      refine ⟨after, ?_⟩
      have shape : parts.text = '\\' :: parts.text.tail := rfl
      rw [shape] at equal
      exact List.tail_eq_of_cons_eq equal
    next => exact named
  · exact named

theorem takeBytes_isPrefix (text : Text) (offset : Nat) :
    text.takeBytes offset <+: text :=
  ⟨_, Text.takeBytes_append_dropBytes text offset⟩

theorem readPart_isPrefix (nested : List Span) (offset : Nat) (context : Context)
    (head : Char) (rest : Text) :
    (readPart nested offset context head rest).2 <+: rest := by
  unfold readPart
  split
  · exact List.takeWhile_prefix _
  split
  · split
    · exact takeBytes_isPrefix _ _
    · exact readControl_isPrefix context rest
  split
  · exact List.nil_prefix
  split <;> exact List.nil_prefix

/-- Cut a body that starts at `offset` into lexemes. -/
def lex (nested : List Span) (offset : Nat) (context : Context) :
    Text → List Lexeme
  | [] => []
  | head :: rest =>
      let part := readPart nested offset context head rest
      let lexeme : Lexeme := ⟨offset, part.1, head :: part.2⟩
      lexeme :: lex nested lexeme.stop (context.after head part.1)
        (rest.drop part.2.length)
termination_by body => body.length

@[simp] theorem lex_nil (nested : List Span) (offset : Nat) (context : Context) :
    lex nested offset context [] = [] := by
  rw [lex]

/-- The first lexeme of a body, and the rest of the body cut in the context after
it. -/
theorem lex_cons (nested : List Span) (offset : Nat) (context : Context)
    (head : Char) (rest : Text) :
    lex nested offset context (head :: rest) =
      let part := readPart nested offset context head rest
      let lexeme : Lexeme := ⟨offset, part.1, head :: part.2⟩
      lexeme :: lex nested lexeme.stop (context.after head part.1)
        (rest.drop part.2.length) := by
  rw [lex]

/-- The lexemes of a body make it up without a gap. -/
theorem flatMap_text_lex (nested : List Span) (offset : Nat) (context : Context)
    (body : Text) :
    (lex nested offset context body).flatMap Lexeme.text = body := by
  fun_induction lex nested offset context body with
  | case1 => rfl
  | case2 _ _ _ _ _ _ ih =>
      simp only [List.flatMap_cons, ih]
      exact congrArg _
        (List.prefix_iff_eq_append.mp (readPart_isPrefix _ _ _ _ _))

end LatexTabular.Body
