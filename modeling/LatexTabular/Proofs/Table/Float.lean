import LatexTabular.Table.Float
import LatexTabular.Proofs.Markup.Environment
import LatexTabular.Proofs.Markup.Group
import LatexTabular.Proofs.Text.WholeLine

/-!
# Where a caption stands

The caption and the label of a table are commands in the interior of the float around it
(`Captioning.exists_float_of_ofTabular?`), whatever the arguments of the commands are.  Each
begins with a backslash and ends with a letter or a closing character, unless a group that is
never closed takes the rest of the float (`Captioning.IsCommand`).  The whole lines of two such
commands therefore lie apart when the commands do (`Captioning.wholeLine_stop_le_start`).
-/

namespace LatexTabular.Captioning

open Markup

/-- A command with its arguments in front of the rest of a text. -/
structure IsCommand (written rest : Text) : Prop where
  begins : written.head? = some '\\'
  ends : rest = [] ∨ ∃ last ∈ written.getLast?, Text.isBlank last = false

/-- A name with its arguments is a command. -/
theorem isCommand_arguments (command : Command) {text rest : Text}
    (textEq : text = arguments 1 text ++ rest) :
    IsCommand ('\\' :: command.name ++ arguments 1 text) rest := by
  refine ⟨rfl, ?_⟩
  rcases arguments_eq_or_closes 1 text with whole | closes
  · left
    rw [whole] at textEq
    simpa using textEq
  · right
    cases last : (arguments 1 text).getLast? with
    | none =>
        rw [List.getLast?_eq_none_iff.mp last]
        cases command <;> exact ⟨_, rfl, by decide⟩
    | some close =>
        exact ⟨close, List.mem_getLast?_append_of_mem_getLast? last,
          isBlank_of_closesGroup (closes close last)⟩

/-- A command stands at the front of the text it is read from. -/
theorem exists_written_of_occurrence? {offset : Nat} {text : Text} {occurrence : Occurrence}
    (found : occurrence? offset text = some occurrence) :
    ∃ written rest : Text, text = written ++ rest ∧ IsCommand written rest ∧
      occurrence.span = ⟨offset, offset + written.size⟩ := by
  have fromCommand (command : Command) {rest : Text}
      (behind : Text.after? ('\\' :: command.name) text = some rest) :
      ∃ written after : Text, text = written ++ after ∧ IsCommand written after ∧
        offset + 1 + command.name.size + (arguments 1 rest).size = offset + written.size := by
    obtain ⟨after, argumentsEq⟩ := arguments_isPrefix 1 rest
    have backslash : '\\'.utf8Size = 1 := by decide
    refine ⟨'\\' :: command.name ++ arguments 1 rest, after, ?_,
      isCommand_arguments command argumentsEq.symm, ?_⟩
    · rw [List.append_assoc, argumentsEq]
      exact eq_append_of_after? behind
    · simp only [List.cons_append, Text.size_cons, Text.size_append, backslash]
      omega
  unfold occurrence? at found
  simp only [Option.orElse_eq_or, Option.or_eq_some_iff, Option.bind_eq_bind,
    Option.bind_eq_some_iff] at found
  rcases found with ⟨rest, behind, ends⟩ | ⟨-, rest, behind, ends⟩
  all_goals
    split at ends
    next =>
      obtain rfl := Option.some.inj ends
      obtain ⟨written, after, textEq, isCommand, sizes⟩ := fromCommand _ behind
      exact ⟨written, after, textEq, isCommand, by rw [← sizes]⟩
    next => simp at ends

/-- The commands that are read in a text, by the place where each stands. -/
theorem mem_occurrencesFrom_iff {offset : Nat} {text : Text} {occurrence : Occurrence} :
    occurrence ∈ occurrencesFrom offset text ↔
      ∃ front rest : Text, text = front ++ rest ∧
        occurrence? (offset + front.size) rest = some occurrence := by
  induction text generalizing offset with
  | nil =>
      refine ⟨fun member => absurd member (by simp [occurrencesFrom]), ?_⟩
      rintro ⟨front, rest, textEq, found⟩
      obtain ⟨rfl, rfl⟩ := List.append_eq_nil_iff.mp textEq.symm
      have nothing (command : Command) : Text.after? ('\\' :: command.name) [] = none := rfl
      simp [occurrence?, nothing] at found
  | cons head rest ih =>
      have split : (∃ front others : Text, head :: rest = front ++ others ∧
          occurrence? (offset + front.size) others = some occurrence) ↔
            occurrence? offset (head :: rest) = some occurrence ∨
              ∃ front others : Text, rest = front ++ others ∧
                occurrence? (offset + head.utf8Size + front.size) others = some occurrence := by
        constructor
        · rintro ⟨_ | ⟨first, front⟩, others, textEq, found⟩
          · rw [List.nil_append] at textEq
            subst textEq
            exact Or.inl found
          · obtain ⟨rfl, rfl⟩ := List.cons.inj textEq
            rw [Text.size_cons, ← Nat.add_assoc] at found
            exact Or.inr ⟨front, others, rfl, found⟩
        · rintro (found | ⟨front, others, rfl, found⟩)
          · exact ⟨[], _, rfl, found⟩
          · rw [Nat.add_assoc] at found
            exact ⟨head :: front, others, rfl, found⟩
      rw [split, ← ih, occurrencesFrom]
      cases read : occurrence? offset (head :: rest) with
      | none => simp
      | some first => simp [eq_comm]

/-- A command stands in the text where its span says. -/
theorem exists_spells_of_mem_occurrencesFrom {offset : Nat} {text : Text}
    {occurrence : Occurrence} (member : occurrence ∈ occurrencesFrom offset text) :
    ∃ before written after : Text, text = before ++ written ++ after ∧ IsCommand written after ∧
      occurrence.span = ⟨offset + before.size, offset + before.size + written.size⟩ := by
  obtain ⟨before, rest, textEq, found⟩ := mem_occurrencesFrom_iff.mp member
  obtain ⟨written, after, rfl, isCommand, spanEq⟩ := exists_written_of_occurrence? found
  exact ⟨before, written, after, by rw [textEq, List.append_assoc], isCommand, spanEq⟩

/-- At one place one command is read. -/
theorem eq_of_mem_occurrencesFrom {offset : Nat} {text : Text} {first second : Occurrence}
    (isFirst : first ∈ occurrencesFrom offset text)
    (isSecond : second ∈ occurrencesFrom offset text)
    (sameStart : first.span.start = second.span.start) : first = second := by
  obtain ⟨front, rest, textEq, found⟩ := mem_occurrencesFrom_iff.mp isFirst
  obtain ⟨front', rest', textEq', found'⟩ := mem_occurrencesFrom_iff.mp isSecond
  obtain ⟨_, _, -, -, spanEq⟩ := exists_written_of_occurrence? found
  obtain ⟨_, _, -, -, spanEq'⟩ := exists_written_of_occurrence? found'
  have sizes : front.size = front'.size := by
    rw [spanEq, spanEq'] at sameStart
    exact Nat.add_left_cancel sameStart
  obtain ⟨rfl, rfl⟩ := Text.eq_of_append_eq_of_size_eq (textEq.symm.trans textEq') sizes
  exact Option.some.inj (found.symm.trans found')

/-- The caption and the label of a float are commands in its interior. -/
theorem exists_isCommand_of_ofFloat {document interior : Text} {float : Environment}
    {tabular span : Span} (spells : document.Spells float.interior interior)
    (isCommand : (ofFloat document float tabular).caption = some span ∨
      (ofFloat document float tabular).label = some span) :
    ∃ before written after : Text, interior = before ++ written ++ after ∧
      IsCommand written after ∧ span = ⟨float.interior.start + before.size,
        float.interior.start + before.size + written.size⟩ := by
  obtain ⟨occurrence, member, rfl⟩ :
      ∃ occurrence ∈ occurrencesFrom float.interior.start interior, occurrence.span = span := by
    simp only [ofFloat, spells.slice_eq, Option.map_eq_some_iff] at isCommand
    rcases isCommand with ⟨occurrence, found, spanEq⟩ | ⟨occurrence, found, spanEq⟩
    all_goals
      exact ⟨occurrence, (List.mem_filter.mp (List.mem_of_find?_eq_some found)).1, spanEq⟩
  exact exists_spells_of_mem_occurrencesFrom member

/-- The commands of a float stand in its interior. -/
theorem fits_of_ofFloat {document interior : Text} {float : Environment} {tabular span : Span}
    (spells : document.Spells float.interior interior)
    (isCommand : (ofFloat document float tabular).caption = some span ∨
      (ofFloat document float tabular).label = some span) :
    span.Fits document ∧ float.interior.contains span = true := by
  obtain ⟨before, written, after, interiorEq, -, rfl⟩ := exists_isCommand_of_ofFloat spells isCommand
  have writtenSpells := spells.middle interiorEq
  have stopEq := spells.stop_eq
  rw [interiorEq, Text.size_append, Text.size_append] at stopEq
  refine ⟨writtenSpells.fits, ?_⟩
  simp only [Span.contains, Bool.and_eq_true, decide_eq_true_eq]
  omega

/-- The caption and the label of a table stand in the interior of a float. -/
theorem exists_float_of_ofTabular? {document : Text} {tabular : Span} {captioning : Captioning}
    (found : ofTabular? document (environments document) tabular = some captioning) :
    ∃ float ∈ environments document,
      ∀ span, captioning.caption = some span ∨ captioning.label = some span →
        span.Fits document ∧ float.interior.contains span = true := by
  obtain ⟨float, isFloat, rfl⟩ := Option.map_eq_some_iff.mp found
  have member := (List.mem_filter.mp (List.mem_of_mem_getLast? isFloat)).1
  obtain ⟨_, interior, _, -, -, -, spells, -⟩ := exists_spells_of_mem_environments member
  exact ⟨float, member, fun span isCommand => fits_of_ofFloat spells isCommand⟩

/-- Of two commands of a table that stand one behind the other the whole lines lie apart. -/
theorem wholeLine_stop_le_start {document : Text} {tabular : Span} {captioning : Captioning}
    (found : ofTabular? document (environments document) tabular = some captioning)
    {first second : Span} (isFirst : captioning.caption = some first ∨ captioning.label = some first)
    (isSecond : captioning.caption = some second ∨ captioning.label = some second)
    (behind : first.stop ≤ second.start) :
    (document.wholeLine first).stop ≤ (document.wholeLine second).start := by
  obtain ⟨float, isFloat, rfl⟩ := Option.map_eq_some_iff.mp found
  have member := (List.mem_filter.mp (List.mem_of_mem_getLast? isFloat)).1
  obtain ⟨_, interior, closing, -, closes, -, spells, closingSpells⟩ :=
    exists_spells_of_mem_environments member
  obtain ⟨before, written, after, interiorEq, command, rfl⟩ :=
    exists_isCommand_of_ofFloat spells isFirst
  obtain ⟨before', written', after', interiorEq', command', rfl⟩ :=
    exists_isCommand_of_ofFloat spells isSecond
  obtain ⟨rest, writtenEq⟩ := List.head?_eq_some_iff.mp command'.begins
  obtain ⟨between, rfl⟩ : before ++ written <+: before' := by
    refine Text.isPrefix_of_size_le ⟨after, interiorEq.symm⟩
      ⟨written' ++ after', by rw [interiorEq', List.append_assoc]⟩ ?_
    rw [Text.size_append]
    dsimp only at behind
    omega
  obtain ⟨last, isLast, lastInked⟩ : ∃ last ∈ written.getLast?, Text.isBlank last = false := by
    refine command.ends.resolve_left ?_
    rintro rfl
    have lengths := congrArg List.length (interiorEq.symm.trans interiorEq')
    simp only [writtenEq, List.length_append, List.length_cons, List.length_nil] at lengths
    omega
  obtain ⟨front, back, documentEq, interiorSpan⟩ := spells.append closingSpells
  obtain ⟨closingRest, rfl⟩ := List.head?_eq_some_iff.mp closes
  have startEq : float.interior.start = front.size := congrArg Span.start interiorSpan
  have parts : document = front ++ before ++ written ++ between ++ written'
      ++ (after' ++ '\\' :: closingRest ++ back) := by
    rw [documentEq, interiorEq']
    simp
  have further : Text.allBlank (after' ++ '\\' :: closingRest ++ back) = false := by
    simp [Text.allBlank, show Text.isBlank '\\' = false by decide]
  have apart := @Text.wholeLine_stop_le_start (front ++ before) _ between _ _ _ _ isLast lastInked
    command'.begins (by decide) further
  rw [← parts] at apart
  simpa [startEq, Nat.add_assoc] using apart

end LatexTabular.Captioning
