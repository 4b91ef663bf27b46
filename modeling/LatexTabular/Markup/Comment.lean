import LatexTabular.Text.Line

/-!
# Comments

A percent sign opens a comment that reaches to the end of its line, unless a
backslash hides it.
-/

namespace LatexTabular.Markup

/-- Whether a part of one line, read from the start of the line, opens a comment
and does not end it. -/
def opensComment : Text → Bool
  | [] => false
  | '\\' :: _ :: rest => opensComment rest
  | '%' :: _ => true
  | _ :: rest => opensComment rest

/-- Whether an offset of a document lies in a comment. -/
def isCommented (document : Text) (offset : Nat) : Bool :=
  opensComment (Text.lastLine (document.takeBytes offset))

end LatexTabular.Markup
