import LatexTabular.Markup.Comment

/-!
# Environments

An environment reaches from `\begin` with its name to the matching `\end`.
Delimiters in comments do not count.  An `\end` closes the last open environment
of its name and drops those opened since; without one it is ignored.
-/

namespace LatexTabular.Markup

/-- A `\begin` or `\end` with the name of its environment. -/
structure Delimiter where
  opens : Bool
  name : Text
  span : Span
  deriving DecidableEq, Repr

/-- The name in braces at the front of a text: letters with an optional star. -/
def bracedName? : Text → Option Text
  | '{' :: rest =>
      match rest.takeWhile Text.isLetter with
      | [] => none
      | letters =>
          match rest.drop letters.length with
          | '}' :: _ => some letters
          | '*' :: '}' :: _ => some (letters ++ ['*'])
          | _ => none
  | _ => none

/-- The delimiter at the front of a text that starts at `offset`.  Blank
characters may stand between the command and the name. -/
def delimiter? (offset : Nat) (text : Text) : Option Delimiter :=
  let read (opens : Bool) (command : Text) : Option Delimiter := do
    let rest ← command.after? text
    let gap := rest.takeWhile Text.isBlank
    let name ← bracedName? (rest.drop gap.length)
    return ⟨opens, name,
      ⟨offset, offset + command.size + Text.size gap + name.size + 2⟩⟩
  (read true "\\begin".toList).orElse fun _ => read false "\\end".toList

/-- The delimiters of a text that starts at `offset`, in their order. -/
def delimitersFrom (offset : Nat) : Text → List Delimiter
  | [] => []
  | head :: rest =>
      let others := delimitersFrom (offset + head.utf8Size) rest
      match delimiter? offset (head :: rest) with
      | some delimiter => delimiter :: others
      | none => others

/-- The delimiters of a document that no comment hides. -/
def delimiters (document : Text) : List Delimiter :=
  (delimitersFrom 0 document).filter fun delimiter =>
    !isCommented document delimiter.span.start

/-- A matched pair of delimiters. -/
structure Environment where
  name : Text
  opening : Span
  closing : Span
  deriving DecidableEq, Repr

namespace Environment

/-- The span of an environment with its delimiters. -/
def span (environment : Environment) : Span :=
  ⟨environment.opening.start, environment.closing.stop⟩

/-- The span of what stands between the delimiters. -/
def interior (environment : Environment) : Span :=
  ⟨environment.opening.stop, environment.closing.start⟩

/-- Match delimiters, given the pending openers, the last one first.  Environments
are listed in the order of their ends. -/
def matching (pending : List Delimiter) : List Delimiter → List Environment
  | [] => []
  | delimiter :: rest =>
      if delimiter.opens then matching (delimiter :: pending) rest
      else
        match pending.dropWhile (·.name != delimiter.name) with
        | opener :: outer =>
            ⟨opener.name, opener.span, delimiter.span⟩ :: matching outer rest
        | [] => matching pending rest

end Environment

/-- The environments of a document, in the order of their beginnings. -/
def environments (document : Text) : List Environment :=
  (Environment.matching [] (delimiters document)).mergeSort fun first second =>
    first.opening.start ≤ second.opening.start

end LatexTabular.Markup
