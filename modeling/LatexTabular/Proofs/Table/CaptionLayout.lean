import LatexTabular.Proofs.Markup.Balanced
import LatexTabular.Proofs.Markup.Nesting
import LatexTabular.Proofs.Markup.Optional
import LatexTabular.Proofs.Table.Float

/-!
# How a caption may be written

A caption is a command with an optional group in brackets and a group in braces, with white space
in front of either (`Captioning.Layout`).  White space in front of the optional group keeps both
from being read (`Captioning.Layout.occurrence?_text`).
-/

namespace LatexTabular

/-- A text that stands within the place of another one is a part of it. -/
theorem Text.Spells.exists_within {document whole part : Text} {outer inner : Span}
    (spells : document.Spells outer whole) (within : document.Spells inner part)
    (contains : outer.contains inner = true) :
    ∃ front back, whole = front ++ part ++ back ∧ inner.start = outer.start + front.size := by
  obtain ⟨before, after, rfl, rfl⟩ := spells
  obtain ⟨before', after', same, rfl⟩ := within
  simp only [Span.contains, Bool.and_eq_true, decide_eq_true_eq] at contains
  rw [List.append_assoc, List.append_assoc] at same
  obtain ⟨front, rfl⟩ : before <+: before' :=
    Text.isPrefix_of_size_le ⟨_, same⟩ ⟨_, rfl⟩ contains.1
  rw [List.append_assoc] at same
  have same := List.append_cancel_left same
  obtain ⟨back, wholeEq⟩ : front ++ part <+: whole := by
    refine Text.isPrefix_of_size_le ⟨after', ?_⟩ ⟨after, same⟩ ?_
    · rw [List.append_assoc]
    · have ends := contains.2
      rw [Text.size_append] at ends ⊢
      omega
  exact ⟨front, back, wholeEq.symm, Text.size_append _ _⟩

end LatexTabular

namespace LatexTabular.Captioning

open Markup

/-- The parts of a caption behind its name. -/
structure Layout where
  /-- White space in front of the optional group. -/
  gap : Text
  /-- The content of the optional group, if there is one. -/
  short : Option Text
  /-- White space in front of the group in braces. -/
  space : Text
  content : Text
  deriving DecidableEq, Repr

namespace Layout

/-- The groups of a caption with the white space in front of them. -/
def groups (layout : Layout) : Text :=
  layout.gap ++ (layout.short.elim [] fun inner => '[' :: inner ++ [']'])
    ++ layout.space ++ '{' :: layout.content ++ ['}']

theorem groups_ne_nil (layout : Layout) : layout.groups ≠ [] := by simp [groups]

/-- A caption as it is written. -/
def text (layout : Layout) : Text := '\\' :: Command.caption.name ++ layout.groups

/-- What stands between the groups is white space, no brackets stand in the optional group, and
the braces in the other one are balanced. -/
structure IsProper (layout : Layout) : Prop where
  gap : ∀ character ∈ layout.gap, isSpace character = true
  short : ∀ inner ∈ layout.short, '[' ∉ inner ∧ ']' ∉ inner
  space : ∀ character ∈ layout.space, isSpace character = true
  content : Balanced 0 layout.content

/-- No white space separates the optional group from the name. -/
def IsTight (layout : Layout) : Prop := layout.short = none ∨ layout.gap = []

instance (layout : Layout) : Decidable layout.IsTight := inferInstanceAs (Decidable (_ ∨ _))

/-- Optional groups are read at the opening bracket only. -/
theorem optionalGroups_eq_nil {text : Text}
    (unopened : ∀ head ∈ text.head?, isSpace head = true ∨ head = '{') :
    optionalGroups text = [] := by
  have none : optionalGroup? text = none := by
    cases text with
    | nil => rfl
    | cons head rest =>
        rw [optionalGroup?_cons_eq_none_iff]
        rintro (⟨rfl, -⟩ | ⟨rfl, -⟩)
        · exact absurd (unopened '[' rfl) (by decide)
        · exact absurd (unopened '(' rfl) (by decide)
  rw [optionalGroups]
  split
  next found => exact absurd (none.symm.trans found) (by simp)
  next => rfl

theorem head?_spaced {space : Text} (areSpaces : ∀ character ∈ space, isSpace character = true)
    (rest : Text) : ∀ head ∈ (space ++ '{' :: rest).head?, isSpace head = true ∨ head = '{' := by
  intro head isHead
  cases space with
  | nil => exact Or.inr (Option.some.inj isHead).symm
  | cons first others =>
      obtain rfl := Option.some.inj isHead
      exact Or.inl (areSpaces first List.mem_cons_self)

/-- A group in braces behind white space is read as an argument. -/
theorem arguments_spaced {space content : Text}
    (areSpaces : ∀ character ∈ space, isSpace character = true) (balanced : Balanced 0 content)
    (rest : Text) :
    arguments 1 (space ++ '{' :: (content ++ '}' :: rest)) = space ++ '{' :: (content ++ ['}']) := by
  rw [arguments, optionalGroups_eq_nil (head?_spaced areSpaces _), List.length_nil, List.drop_zero,
    requiredGroups_succ rest areSpaces (balanced.untilClosed?_closing rest)]
  rfl

/-- A group in brackets in front is read along. -/
theorem arguments_bracketed {group space content : Text} (isBracketed : IsBracketed group)
    (areSpaces : ∀ character ∈ space, isSpace character = true) (balanced : Balanced 0 content)
    (rest : Text) :
    arguments 1 (group ++ (space ++ '{' :: (content ++ '}' :: rest)))
      = group ++ (space ++ '{' :: (content ++ ['}'])) := by
  have groups : optionalGroups (group ++ (space ++ '{' :: (content ++ '}' :: rest))) = group := by
    rw [optionalGroups]
    split
    next other found =>
      obtain rfl := Option.some.inj ((isBracketed.optionalGroup?_append _).symm.trans found)
      rw [List.drop_left, optionalGroups_eq_nil (head?_spaced areSpaces _), List.append_nil]
    next unfound => exact absurd ((isBracketed.optionalGroup?_append _).symm.trans unfound) (by simp)
  rw [arguments, groups, List.drop_left,
    requiredGroups_succ rest areSpaces (balanced.untilClosed?_closing rest)]
  rfl

/-- A group in brackets behind white space keeps the other group from being read. -/
theorem arguments_of_gap {gap : Text} (nonempty : gap ≠ [])
    (areSpaces : ∀ character ∈ gap, isSpace character = true) (rest : Text) :
    arguments 1 (gap ++ '[' :: rest) = [] := by
  have unopened : ∀ head ∈ (gap ++ '[' :: rest).head?, isSpace head = true ∨ head = '{' := by
    obtain ⟨first, others, rfl⟩ := List.exists_cons_of_ne_nil nonempty
    intro head isHead
    obtain rfl := Option.some.inj isHead
    exact Or.inl (areSpaces first List.mem_cons_self)
  rw [arguments, optionalGroups_eq_nil unopened, List.length_nil, List.drop_zero,
    requiredGroups_of_unopened]
  · rfl
  · rw [(spaces_append rest areSpaces (by decide)).2]
    simp

/-- The groups of a caption are read as its arguments, unless white space separates the optional
group from the name: then none is read. -/
theorem arguments_groups {layout : Layout} (isProper : layout.IsProper) (rest : Text) :
    arguments 1 (layout.groups ++ rest) = if layout.IsTight then layout.groups else [] := by
  cases shortEq : layout.short with
  | none =>
      have areSpaces : ∀ character ∈ layout.gap ++ layout.space, isSpace character = true := by
        intro character member
        rcases List.mem_append.mp member with inGap | inSpace
        · exact isProper.gap character inGap
        · exact isProper.space character inSpace
      have read := arguments_spaced areSpaces isProper.content rest
      have tight : layout.IsTight := Or.inl shortEq
      rw [if_pos tight]
      simpa [groups, shortEq] using read
  | some inner =>
      have isBracketed : IsBracketed ('[' :: inner ++ [']']) :=
        ⟨inner, (isProper.short inner shortEq).2, rfl⟩
      by_cases none : layout.gap = []
      · have read := arguments_bracketed isBracketed isProper.space isProper.content rest
        have tight : layout.IsTight := Or.inr none
        rw [if_pos tight]
        simpa [groups, shortEq, none] using read
      · have read := arguments_of_gap none isProper.gap
          (inner ++ ']' :: (layout.space ++ '{' :: (layout.content ++ '}' :: rest)))
        have separated : ¬ layout.IsTight := by simp [IsTight, shortEq, none]
        rw [if_neg separated]
        simpa [groups, shortEq] using read

/-- A word ends in front of the groups of a caption. -/
theorem wordEnds_groups {layout : Layout} (isProper : layout.IsProper) (rest : Text) :
    Text.wordEnds (layout.groups ++ rest) = true := by
  have ofSpace {head : Char} (isHead : isSpace head = true) : Text.isWord head = false := by
    simp only [isSpace, Bool.or_eq_true, beq_iff_eq] at isHead
    rcases isHead with (((rfl | rfl) | rfl) | rfl) | rfl <;> decide
  have spaced {space : Text} (areSpaces : ∀ character ∈ space, isSpace character = true)
      {opening : Char} (opens : Text.isWord opening = false) (behind : Text) :
      Text.wordEnds (space ++ opening :: behind) = true := by
    cases space with
    | nil => simp [Text.wordEnds, opens]
    | cons first others => simp [Text.wordEnds, ofSpace (areSpaces first List.mem_cons_self)]
  cases shortEq : layout.short with
  | none =>
      have areSpaces : ∀ character ∈ layout.gap ++ layout.space, isSpace character = true := by
        intro character member
        exact (List.mem_append.mp member).elim (isProper.gap character) (isProper.space character)
      simpa [groups, shortEq] using spaced areSpaces (show Text.isWord '{' = false by decide)
        (layout.content ++ '}' :: rest)
  | some inner =>
      simpa [groups, shortEq] using spaced isProper.gap (show Text.isWord '[' = false by decide)
        (inner ++ ']' :: (layout.space ++ '{' :: (layout.content ++ '}' :: rest)))

/-- What is read of a caption that starts at an offset: all of it, unless white space separates
the optional group from the name. -/
def readSpan (layout : Layout) (start : Nat) : Span :=
  ⟨start, start
    + if layout.IsTight then layout.text.size else Text.size ('\\' :: Command.caption.name)⟩

/-- A caption is read as a command at its place. -/
theorem occurrence?_text {layout : Layout} (isProper : layout.IsProper) (offset : Nat)
    (rest : Text) :
    occurrence? offset (layout.text ++ rest) = some ⟨.caption, layout.readSpan offset⟩ := by
  have backslash : '\\'.utf8Size = 1 := by decide
  have behind : Text.after? ('\\' :: Command.caption.name) (layout.text ++ rest)
      = some (layout.groups ++ rest) := by
    rw [text, List.append_assoc]
    exact after?_append _ _
  simp only [occurrence?, behind, Option.bind_eq_bind, Option.bind_some,
    wordEnds_groups isProper rest, if_true, arguments_groups isProper rest, Option.orElse_some]
  by_cases tight : layout.IsTight
  · simp [readSpan, tight, text, Text.size_append, backslash, Nat.add_assoc]
  · simp [readSpan, tight, backslash, Nat.add_assoc]

end Layout

/-- A caption is read where its name stands and a word ends behind it. -/
theorem eq_append_of_occurrence? {offset : Nat} {text : Text} {occurrence : Occurrence}
    (found : occurrence? offset text = some occurrence) (isCaption : occurrence.command = .caption) :
    ∃ rest, text = '\\' :: Command.caption.name ++ rest ∧ Text.wordEnds rest = true ∧
      occurrence.span.start = offset := by
  unfold occurrence? at found
  simp only [Option.orElse_eq_or, Option.or_eq_some_iff, Option.bind_eq_bind,
    Option.bind_eq_some_iff] at found
  rcases found with ⟨rest, behind, ends⟩ | ⟨-, rest, -, ends⟩
  · split at ends
    next wordEnds =>
      obtain rfl := Option.some.inj ends
      exact ⟨rest, eq_append_of_after? behind, wordEnds, rfl⟩
    next => simp at ends
  · split at ends
    next =>
      obtain rfl := Option.some.inj ends
      simp at isCaption
    next => simp at ends

/-- Whether a float is the innermost one around a tabular. -/
structure Surrounds (document : Text) (tabular : Span) (float : Environment) : Prop where
  member : float ∈ environments document
  isFloat : float.name ∈ floatNames
  contains : float.span.contains tabular = true
  begins : float.span.start < tabular.start
  innermost : ∀ other ∈ environments document, other.name ∈ floatNames →
    other.span.contains tabular = true → other.span.start < tabular.start →
    other.span.start ≤ float.span.start

/-- The caption and the label of a tabular are those of the innermost float around it. -/
theorem Surrounds.ofTabular?_eq {document : Text} {tabular : Span} {float : Environment}
    (surrounds : Surrounds document tabular float) :
    ofTabular? document (environments document) tabular = some (ofFloat document float tabular) := by
  generalize floatsEq : (environments document).filter (fun other =>
    floatNames.contains other.name && other.span.contains tabular
      && other.span.start < tabular.start) = floats
  have mem_floats {other : Environment} : other ∈ floats ↔ other ∈ environments document ∧
      other.name ∈ floatNames ∧ other.span.contains tabular = true ∧
      other.span.start < tabular.start := by
    rw [← floatsEq, List.mem_filter]
    simp [and_assoc]
  have isFloat : float ∈ floats :=
    mem_floats.mpr ⟨surrounds.member, surrounds.isFloat, surrounds.contains, surrounds.begins⟩
  have ordered : floats.Pairwise fun first second => first.span.start < second.span.start :=
    floatsEq ▸ (pairwise_start_environments document).filter _
  have isLast : floats.getLast? = some float := by
    obtain ⟨front, back, rfl⟩ := List.append_of_mem isFloat
    cases back with
    | nil => simp
    | cons next others =>
        have inFloats : next ∈ front ++ float :: next :: others := by simp
        obtain ⟨member, named, contains, begins⟩ := mem_floats.mp inFloats
        have before := surrounds.innermost next member named contains begins
        have behind := (List.pairwise_cons.mp (List.pairwise_append.mp ordered).2.1).1 next
          List.mem_cons_self
        omega
  rw [ofTabular?, floatsEq, isLast]
  rfl

/-- Whether a command in a float is a caption outside the tabular and all comments, and the only
one. -/
structure StandsAlone (document : Text) (float : Environment) (tabular command : Span) : Prop where
  within : float.interior.contains command = true
  outside : tabular.covers command.start = false
  uncommented : isCommented document command.start = false
  only : ∀ front rest : Text, document = front ++ '\\' :: Command.caption.name ++ rest →
    Text.wordEnds rest = true →
    float.interior.contains
      ⟨front.size, front.size + Text.size ('\\' :: Command.caption.name)⟩ = true →
    front.size = command.start ∨ tabular.covers front.size = true ∨
      isCommented document front.size = true

/-- Whether a caption stands alone can be checked at every place of the document. -/
theorem StandsAlone.of_prefixes {document : Text} {float : Environment} {tabular command : Span}
    (within : float.interior.contains command = true)
    (outside : tabular.covers command.start = false)
    (uncommented : isCommented document command.start = false)
    (only : ∀ length < document.length,
      ('\\' :: Command.caption.name).isPrefixOf (document.drop length) = true →
        Text.size (document.take length) = command.start) :
    StandsAlone document float tabular command := by
  refine ⟨within, outside, uncommented, fun front rest documentEq _ _ => Or.inl ?_⟩
  rw [List.append_assoc] at documentEq
  have place := only front.length
  rw [documentEq, List.take_left, List.drop_left] at place
  refine place ?_ (List.isPrefixOf_iff_prefix.mpr (List.prefix_append _ _))
  simp

section Float

variable {document : Text} {float : Environment} {tabular : Span}

/-- A caption that is read in a float stands in the document with its name, and a word ends behind
it. -/
theorem exists_append_of_mem_occurrencesFrom (member : float ∈ environments document)
    {occurrence : Occurrence}
    (read : occurrence ∈ occurrencesFrom float.interior.start (document.slice float.interior))
    (isCaption : occurrence.command = .caption) :
    ∃ front rest : Text, document = front ++ '\\' :: Command.caption.name ++ rest ∧
      Text.wordEnds rest = true ∧ front.size = occurrence.span.start ∧
      float.interior.contains
        ⟨front.size, front.size + Text.size ('\\' :: Command.caption.name)⟩ = true := by
  obtain ⟨_, interior, closing, -, closes, -, spells, closingSpells⟩ :=
    exists_spells_of_mem_environments member
  obtain ⟨closingRest, rfl⟩ := List.head?_eq_some_iff.mp closes
  obtain ⟨lead, trail, documentEq, spanEq⟩ := spells.append closingSpells
  have startEq : float.interior.start = lead.size := congrArg Span.start spanEq
  rw [spells.slice_eq] at read
  obtain ⟨front, rest, interiorEq, found⟩ := mem_occurrencesFrom_iff.mp read
  obtain ⟨more, rfl, ends, occurrenceStart⟩ := eq_append_of_occurrence? found isCaption
  refine ⟨lead ++ front, more ++ '\\' :: closingRest ++ trail, ?_, ?_, ?_, ?_⟩
  · rw [documentEq, interiorEq]
    simp
  · cases more with
    | nil => simp [Text.wordEnds, show Text.isWord '\\' = false by decide]
    | cons next others => exact ends
  · rw [occurrenceStart, startEq, Text.size_append]
  · have stopEq := spells.stop_eq
    rw [interiorEq, Text.size_append, Text.size_append] at stopEq
    simp only [Span.contains, Bool.and_eq_true, decide_eq_true_eq]
    rw [stopEq, startEq, Text.size_append]
    omega

/-- A caption in a float is read at its place. -/
theorem Layout.mem_occurrencesFrom {layout : Layout} (isProper : layout.IsProper)
    (member : float ∈ environments document) {before after : Text}
    (documentEq : document = before ++ layout.text ++ after)
    (within : float.interior.contains ⟨before.size, before.size + layout.text.size⟩ = true) :
    ⟨.caption, layout.readSpan before.size⟩
      ∈ occurrencesFrom float.interior.start (document.slice float.interior) := by
  obtain ⟨_, interior, _, -, -, -, spells, -⟩ := exists_spells_of_mem_environments member
  have stands : document.Spells ⟨before.size, before.size + layout.text.size⟩ layout.text :=
    ⟨before, after, documentEq, rfl⟩
  obtain ⟨front, back, interiorEq, placeEq⟩ := spells.exists_within stands within
  rw [spells.slice_eq, mem_occurrencesFrom_iff]
  refine ⟨front, layout.text ++ back, by rw [interiorEq, List.append_assoc], ?_⟩
  rw [← placeEq]
  exact Layout.occurrence?_text isProper before.size back

/-- Any caption that is read in the float outside the tabular and all comments stands where the
only one stands. -/
theorem StandsAlone.start_eq {command : Span} (alone : StandsAlone document float tabular command)
    (member : float ∈ environments document) {occurrence : Occurrence}
    (read : occurrence ∈ occurrencesFrom float.interior.start (document.slice float.interior))
    (isCaption : occurrence.command = .caption)
    (outside : tabular.covers occurrence.span.start = false)
    (uncommented : isCommented document occurrence.span.start = false) :
    occurrence.span.start = command.start := by
  obtain ⟨front, rest, documentEq, ends, startEq, within⟩ :=
    exists_append_of_mem_occurrencesFrom member read isCaption
  rcases alone.only front rest documentEq ends within with same | covered | commented
  · rw [← startEq, same]
  · rw [startEq, outside] at covered
    exact absurd covered Bool.false_ne_true
  · rw [startEq, uncommented] at commented
    exact absurd commented Bool.false_ne_true

/-- A caption that is the only one of a float is found at its place. -/
theorem caption_ofFloat (member : float ∈ environments document) {layout : Layout}
    (isProper : layout.IsProper) {before after : Text}
    (documentEq : document = before ++ layout.text ++ after)
    (alone : StandsAlone document float tabular ⟨before.size, before.size + layout.text.size⟩) :
    (ofFloat document float tabular).caption = some (layout.readSpan before.size) := by
  have read := layout.mem_occurrencesFrom isProper member documentEq alone.within
  simp only [ofFloat]
  generalize commandsEq : (occurrencesFrom float.interior.start
    (document.slice float.interior)).filter _ = commands
  have mem_commands {occurrence : Occurrence} : occurrence ∈ commands ↔
      occurrence ∈ occurrencesFrom float.interior.start (document.slice float.interior) ∧
        tabular.covers occurrence.span.start = false ∧
        isCommented document occurrence.span.start = false := by
    rw [← commandsEq, List.mem_filter]
    simp
  cases first : commands.find? (·.command == .caption) with
  | none =>
      have counts := mem_commands.mpr ⟨read, alone.outside, alone.uncommented⟩
      exact absurd rfl (List.find?_eq_none.mp first _ counts)
  | some occurrence =>
      obtain ⟨isRead, outside, uncommented⟩ :=
        mem_commands.mp (List.mem_of_find?_eq_some first)
      have isCaption : occurrence.command = .caption := by simpa using List.find?_some first
      have sameStart := alone.start_eq member isRead isCaption outside uncommented
      rw [eq_of_mem_occurrencesFrom isRead read sameStart]
      rfl

end Float

end LatexTabular.Captioning
