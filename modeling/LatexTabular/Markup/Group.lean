import LatexTabular.Text.Blank

/-!
# Command names, groups and arguments

The readers of this module take a text and return the part at its front that
they recognise, so that what follows is the text without that part.  A brace
group may nest and a backslash in it hides the next character; an optional group
in brackets or parentheses ends at its first closing character.
-/

namespace LatexTabular.Markup

/-- The white space that separates tokens: the blank characters of ASCII without
the vertical tab. -/
def isSpace (character : Char) : Bool :=
  character == ' ' || character == '\t' || character == '\n'
    || character == '\x0c' || character == '\r'

/-- The white space at the front of a text. -/
def spaces (text : Text) : Text := text.takeWhile isSpace

/-- The name of the control sequence whose backslash stands before a text: a run
of letters, or else the one next character. -/
def controlName (text : Text) : Text :=
  match text.takeWhile Text.isLetter with
  | [] => text.take 1
  | name => name

theorem controlName_isPrefix (text : Text) : controlName text <+: text := by
  unfold controlName
  split
  · exact List.take_prefix 1 text
  · exact List.takeWhile_prefix _

/-- The text up to the brace that closes a group, where `depth` further groups
are open inside it. -/
def untilClosed? : (depth : Nat) → Text → Option Text
  | _, [] => none
  | depth, '\\' :: hidden :: rest =>
      (untilClosed? depth rest).map ('\\' :: hidden :: ·)
  | depth, '{' :: rest => (untilClosed? (depth + 1) rest).map ('{' :: ·)
  | 0, '}' :: _ => some []
  | depth + 1, '}' :: rest => (untilClosed? depth rest).map ('}' :: ·)
  | depth, other :: rest => (untilClosed? depth rest).map (other :: ·)

/-- The content of a group and its closing brace stand at the front of the text
that was searched. -/
theorem untilClosed?_isPrefix {depth : Nat} {text content : Text}
    (found : untilClosed? depth text = some content) :
    content ++ ['}'] <+: text := by
  fun_induction untilClosed? depth text generalizing content with
  | case1 => simp at found
  | case4 => simp_all
  | case2 _ _ _ ih | case3 _ _ ih | case5 _ _ ih | case6 _ _ _ _ _ _ _ ih =>
      obtain ⟨inner, closed, rfl⟩ := Option.map_eq_some_iff.mp found
      simpa using ih closed

/-- The content of the brace group at the front of a text. -/
def braceGroup? : Text → Option Text
  | '{' :: rest => untilClosed? 0 rest
  | _ => none

theorem braceGroup?_isPrefix {text content : Text}
    (found : braceGroup? text = some content) :
    '{' :: content ++ ['}'] <+: text := by
  unfold braceGroup? at found
  split at found
  · simpa using untilClosed?_isPrefix found
  · simp at found

/-- A text up to and including the first `close`. -/
def through? (close : Char) : Text → Option Text
  | [] => none
  | head :: rest =>
      if head = close then some [head] else (through? close rest).map (head :: ·)

theorem through?_isPrefix {close : Char} {text group : Text}
    (found : through? close text = some group) : group <+: text := by
  fun_induction through? close text generalizing group with
  | case1 => simp at found
  | case2 rest => obtain rfl := Option.some.inj found; exact ⟨rest, rfl⟩
  | case3 _ _ _ ih =>
      obtain ⟨inner, closed, rfl⟩ := Option.map_eq_some_iff.mp found
      simpa using ih closed

/-- The optional group at the front of a text, with its delimiters. -/
def optionalGroup? : Text → Option Text
  | '[' :: rest => (through? ']' rest).map ('[' :: ·)
  | '(' :: rest => (through? ')' rest).map ('(' :: ·)
  | _ => none

theorem optionalGroup?_isPrefix {text group : Text}
    (found : optionalGroup? text = some group) : group <+: text := by
  unfold optionalGroup? at found
  split at found
  · obtain ⟨inner, closed, rfl⟩ := Option.map_eq_some_iff.mp found
    simpa using through?_isPrefix closed
  · obtain ⟨inner, closed, rfl⟩ := Option.map_eq_some_iff.mp found
    simpa using through?_isPrefix closed
  · simp at found

theorem optionalGroup?_length_pos {text group : Text}
    (found : optionalGroup? text = some group) :
    0 < group.length ∧ 0 < text.length := by
  unfold optionalGroup? at found
  split at found
  · obtain ⟨_, _, rfl⟩ := Option.map_eq_some_iff.mp found
    simp
  · obtain ⟨_, _, rfl⟩ := Option.map_eq_some_iff.mp found
    simp
  · simp at found

/-- All optional groups that directly follow one another at the front of a
text. -/
def optionalGroups (text : Text) : Text :=
  match _found : optionalGroup? text with
  | some group => group ++ optionalGroups (text.drop group.length)
  | none => []
termination_by text.length
decreasing_by
  have := optionalGroup?_length_pos _found
  simp only [List.length_drop]
  omega

/-- A part of a text followed by a part of what the first part leaves is a part
of the text. -/
theorem append_isPrefix {first second text : Text} (atFront : first <+: text)
    (behind : second <+: text.drop first.length) : first ++ second <+: text := by
  obtain ⟨rest, rfl⟩ := atFront
  simpa using behind

theorem optionalGroups_isPrefix (text : Text) : optionalGroups text <+: text := by
  fun_induction optionalGroups text with
  | case1 text group found ih =>
      exact append_isPrefix (optionalGroup?_isPrefix found) ih
  | case2 => exact List.nil_prefix

/-- Up to `count` brace groups at the front of a text, each with the white space
before it.  A group that is never closed takes the whole text. -/
def requiredGroups : (count : Nat) → Text → Text
  | 0, _ => []
  | count + 1, text =>
      let gap := spaces text
      match text.drop gap.length with
      | '{' :: rest =>
          match untilClosed? 0 rest with
          | some content =>
              gap ++ '{' :: content ++ '}'
                :: requiredGroups count (rest.drop (content.length + 1))
          | none => text
      | _ => []

theorem requiredGroups_isPrefix (count : Nat) (text : Text) :
    requiredGroups count text <+: text := by
  induction count generalizing text with
  | zero => exact List.nil_prefix
  | succ count ih =>
      simp only [requiredGroups]
      split
      next rest opened =>
        split
        next content closed =>
          have group := untilClosed?_isPrefix closed
          have behind : '{' :: content ++ '}'
              :: requiredGroups count (rest.drop (content.length + 1))
              <+: '{' :: rest := by
            have := append_isPrefix group (ih _)
            simpa using this
          have front : spaces text <+: text := List.takeWhile_prefix _
          rw [List.append_assoc]
          exact append_isPrefix front (opened ▸ behind)
        next => exact List.prefix_rfl
      next => exact List.nil_prefix

/-- The arguments at the front of a text of a command with `required` brace
groups.  Optional groups come first and directly follow the name. -/
def arguments (required : Nat) (text : Text) : Text :=
  let optional := optionalGroups text
  optional ++ requiredGroups required (text.drop optional.length)

theorem arguments_isPrefix (required : Nat) (text : Text) :
    arguments required text <+: text :=
  append_isPrefix (optionalGroups_isPrefix text) (requiredGroups_isPrefix _ _)

/-- The commands that draw a horizontal rule, with the number of brace groups
each takes. -/
def ruleCommands : List (Text × Nat) :=
  [("hline".toList, 0), ("cline".toList, 1), ("toprule".toList, 0),
    ("midrule".toList, 0), ("bottomrule".toList, 0), ("cmidrule".toList, 1)]

end LatexTabular.Markup
