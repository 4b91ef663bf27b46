import LatexTabular.Text.Blank

/-!
# Lines

A line is the text between two line feeds.  This module finds the line of an
offset and its neighbours, the runs of blank lines beside a line, and the place
where a block can stand on lines of its own.
-/

namespace LatexTabular

/-- A side of a line or of a table, in the order of the document. -/
inductive Side where
  | above
  | below
  deriving DecidableEq, Repr

/-- A line: its number, counted from one, and its span without the line feed. -/
structure Line where
  number : Nat
  span : Span
  deriving DecidableEq, Repr

namespace Text

/-- The end of a text after its last line feed. -/
def lastLine (text : Text) : Text :=
  (text.reverse.takeWhile (· != '\n')).reverse

/-- The beginning of a text before its first line feed. -/
def firstLine (text : Text) : Text := text.takeWhile (· != '\n')

/-- The line of an offset.  An offset beyond the document stands for its end,
and one inside a character for the start of that character. -/
def lineAt (document : Text) (offset : Nat) : Line :=
  let before := document.takeBytes offset
  { number := before.count '\n' + 1
    span :=
      ⟨before.size - (lastLine before).size,
        before.size + (firstLine (document.dropBytes offset)).size⟩ }

end Text

namespace Line

/-- The text of a line, without its line feed. -/
def text (document : Text) (line : Line) : Text := document.slice line.span

/-- Whether a line holds nothing but blank characters. -/
def isBlank (document : Text) (line : Line) : Bool :=
  (line.text document).allBlank

/-- The line above, unless this is the first. -/
def previous? (document : Text) (line : Line) : Option Line :=
  if 0 < line.span.start then some (document.lineAt (line.span.start - 1))
  else none

/-- The line below, unless this is the last. -/
def next? (document : Text) (line : Line) : Option Line :=
  if line.span.stop < document.size then
    some (document.lineAt (line.span.stop + 1))
  else none

/-- The topmost of up to `limit` blank lines directly above a line, or the line
itself when the line above has text. -/
def topOfBlankRun (document : Text) : (limit : Nat) → Line → Line
  | 0, line => line
  | limit + 1, line =>
      match line.previous? document with
      | some above =>
          if above.isBlank document then topOfBlankRun document limit above
          else line
      | none => line

/-- The lowest of up to `limit` blank lines directly below a line, or the line
itself when the line below has text. -/
def endOfBlankRun (document : Text) : (limit : Nat) → Line → Line
  | 0, line => line
  | limit + 1, line =>
      match line.next? document with
      | some below =>
          if below.isBlank document then endOfBlankRun document limit below
          else line
      | none => line

end Line

/-- A place for a block of lines: where it goes, and what has to stand before
and after it so that it shares no line with other text. -/
structure BlockPlace where
  offset : Nat
  lead : Text
  trail : Text
  deriving DecidableEq, Repr

namespace Text

/-- A place for a block beside an offset.  A blank line takes the block itself.
Beside a line with text the block goes to the neighbouring line on the given
side, and a line feed keeps it apart from text of that neighbour. -/
def placeBeside (document : Text) (offset : Nat) (side : Side) : BlockPlace :=
  let line := document.lineAt offset
  if line.isBlank document then ⟨min offset document.size, [], []⟩
  else
    match side with
    | .below =>
        match line.next? document with
        | some below =>
            ⟨below.span.start, [], if below.span.isEmpty then [] else ['\n']⟩
        | none => ⟨document.size, ['\n'], []⟩
    | .above =>
        match line.previous? document with
        | some above =>
            ⟨above.span.stop, if above.span.isEmpty then [] else ['\n'], []⟩
        | none => ⟨0, [], ['\n']⟩

/-- The span a block replaces when it goes to an offset: on an empty line also
up to `limit` blank lines beyond it on the given side. -/
def spanWithBlankLines (document : Text) (offset limit : Nat) (side : Side) :
    Span :=
  let line := document.lineAt offset
  if line.span.isEmpty then
    match side with
    | .above => ⟨(line.topOfBlankRun document limit).span.start, offset⟩
    | .below => ⟨offset, (line.endOfBlankRun document limit).span.stop⟩
  else .point offset

/-- The span of the whole line of `span`, with one line feed, when nothing else
stands on that line; otherwise `span` itself. -/
def wholeLine (document : Text) (span : Span) : Span :=
  let line := document.lineAt span.start
  if line.span.stop < span.stop
      || trim (line.text document) != trim (document.slice span) then
    span
  else if line.span.stop < document.size then
    ⟨line.span.start, line.span.stop + 1⟩
  else
    ⟨line.span.start - 1, line.span.stop⟩

end Text

end LatexTabular
