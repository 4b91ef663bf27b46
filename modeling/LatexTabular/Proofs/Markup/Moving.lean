import LatexTabular.Proofs.Markup.Joint
import LatexTabular.Proofs.Markup.Nesting
import LatexTabular.Proofs.Sheet.Delimiters
import Mathlib.Data.List.Find

/-!
# Environments behind a change of the text

A text that is put in the place of another one moves what stands behind it (`movedBehind`).
If neither text takes part in a delimiter, the environments of the document stay, with their
delimiters moved (`environments_substituted`).
-/

namespace LatexTabular

/-- Where an offset moves when as many bytes as `new` says take the place of `old` bytes behind the
offset `at`. -/
def movedBehind (place old new offset : Nat) : Nat :=
  if offset ≤ place then offset else offset + new - old

theorem movedBehind_of_le {place old new offset : Nat} (inFront : offset ≤ place) :
    movedBehind place old new offset = offset := if_pos inFront

theorem movedBehind_add {place old new : Nat} (positive : 0 < old) (offset : Nat) :
    movedBehind place old new (place + old + offset) = place + new + offset := by
  rw [movedBehind, if_neg (by omega)]
  omega

/-- What lies in front of a change or behind it keeps its order. -/
theorem movedBehind_le_iff {place old new first second : Nat}
    (apart : first < place ∨ place + old ≤ first) (apart' : second < place ∨ place + old ≤ second) :
    movedBehind place old new first ≤ movedBehind place old new second ↔ first ≤ second := by
  unfold movedBehind
  split <;> split <;> omega

/-- Whether a span ends in front of a part of a text or begins behind it, and is not empty if it
stands in front. -/
def Span.Outside (place size : Nat) (span : Span) : Prop :=
  span.start < span.stop ∧ span.stop ≤ place ∨ place + size ≤ span.start ∧ place + size ≤ span.stop

/-- A span with both ends moved. -/
def Span.moved (move : Nat → Nat) (span : Span) : Span := ⟨move span.start, move span.stop⟩

section Lookup

variable {spans : List Span} {place old new : Nat}

/-- Spans that start outside a part are found again where they have moved. -/
theorem find?_map_moved (outside : ∀ span ∈ spans, span.start < place ∨ place + old ≤ span.start)
    {offset offset' : Nat} (moves : ∀ start, start < place ∨ place + old ≤ start →
      (movedBehind place old new start = offset' ↔ start = offset)) :
    (spans.map (Span.moved (movedBehind place old new))).find? (·.start == offset')
      = (spans.find? (·.start == offset)).map (Span.moved (movedBehind place old new)) := by
  rw [List.find?_map]
  refine congrArg _ (List.find?_congr fun span member => ?_)
  rw [Function.comp_apply, Bool.eq_iff_iff, beq_iff_eq, beq_iff_eq]
  exact moves span.start (outside span member)

/-- In front of a change a span is found where it was. -/
theorem find?_map_moved_of_lt
    (outside : ∀ span ∈ spans, span.start < place ∨ place + old ≤ span.start) {offset : Nat}
    (inFront : offset < place) :
    (spans.map (Span.moved (movedBehind place old new))).find? (·.start == offset)
      = (spans.find? (·.start == offset)).map (Span.moved (movedBehind place old new)) := by
  refine find?_map_moved outside fun start apart => ?_
  unfold movedBehind
  split <;> omega

/-- Behind a change it is found where it has moved. -/
theorem find?_map_moved_add
    (outside : ∀ span ∈ spans, span.start < place ∨ place + old ≤ span.start) (positive : 0 < old)
    (offset : Nat) :
    (spans.map (Span.moved (movedBehind place old new))).find? (·.start == place + new + offset)
      = (spans.find? (·.start == place + old + offset)).map
        (Span.moved (movedBehind place old new)) := by
  refine find?_map_moved outside fun start apart => ?_
  unfold movedBehind
  split <;> omega

/-- No span starts within what is new. -/
theorem find?_map_moved_eq_none
    (outside : ∀ span ∈ spans, span.start < place ∨ place + old ≤ span.start) (positive : 0 < old)
    {offset : Nat} (begins : place ≤ offset) (ends : offset < place + new) :
    (spans.map (Span.moved (movedBehind place old new))).find? (·.start == offset) = none := by
  refine List.find?_eq_none.mpr fun moved member => ?_
  obtain ⟨span, isSpan, rfl⟩ := List.mem_map.mp member
  have apart := outside span isSpan
  rw [beq_iff_eq, Span.moved]
  unfold movedBehind
  dsimp only
  split <;> omega

end Lookup

namespace Markup

def Delimiter.moved (move : Nat → Nat) (delimiter : Delimiter) : Delimiter :=
  { delimiter with span := delimiter.span.moved move }

def Environment.moved (move : Nat → Nat) (environment : Environment) : Environment :=
  ⟨environment.name, environment.opening.moved move, environment.closing.moved move⟩

/-- Where a text starts does not matter to its delimiters. -/
theorem delimiter?_add (offset shift : Nat) (text : Text) :
    delimiter? (offset + shift) text
      = (delimiter? offset text).map (Delimiter.moved (· + shift)) := by
  refine Option.ext fun delimiter => ?_
  rw [Option.map_eq_some_iff]
  constructor
  · intro found
    obtain ⟨opens, gap, name, rest, blank, isName, rfl, rfl⟩ := delimiter?_eq_some_iff.mp found
    refine ⟨_, delimiter?_eq_some_iff.mpr ⟨opens, gap, name, rest, blank, isName, rfl, rfl⟩, ?_⟩
    simp only [Delimiter.moved, Span.moved, Delimiter.mk.injEq, Span.mk.injEq, true_and]
    omega
  · rintro ⟨own, found, rfl⟩
    obtain ⟨opens, gap, name, rest, blank, isName, rfl, rfl⟩ := delimiter?_eq_some_iff.mp found
    refine delimiter?_eq_some_iff.mpr ⟨opens, gap, name, rest, blank, isName, rfl, ?_⟩
    simp only [Delimiter.moved, Span.moved, Delimiter.mk.injEq, Span.mk.injEq, true_and]
    omega

theorem delimitersFrom_add (offset shift : Nat) (text : Text) :
    delimitersFrom (offset + shift) text
      = (delimitersFrom offset text).map (Delimiter.moved (· + shift)) := by
  induction text generalizing offset with
  | nil => rfl
  | cons head rest ih =>
      have others := ih (offset + head.utf8Size)
      rw [Nat.add_right_comm] at others
      simp only [delimitersFrom, delimiter?_add, others]
      cases delimiter? offset (head :: rest) <;> rfl

/-- Delimiters are matched by their names, wherever they stand. -/
theorem matching_moved (move : Nat → Nat) (pending delimiters : List Delimiter) :
    Environment.matching (pending.map (Delimiter.moved move))
        (delimiters.map (Delimiter.moved move))
      = (Environment.matching pending delimiters).map (Environment.moved move) := by
  induction delimiters generalizing pending with
  | nil => rfl
  | cons delimiter rest ih =>
      have opens : (delimiter.moved move).opens = delimiter.opens := rfl
      have waiting : (pending.map (Delimiter.moved move)).dropWhile
            (·.name != (delimiter.moved move).name)
          = (pending.dropWhile (·.name != delimiter.name)).map (Delimiter.moved move) := by
        rw [List.dropWhile_map]
        rfl
      rw [List.map_cons, Environment.matching, Environment.matching, opens, waiting]
      split
      · rw [← List.map_cons, ih]
      · cases pending.dropWhile (·.name != delimiter.name) with
        | nil => exact ih pending
        | cons opener outer =>
            rw [List.map_cons]
            exact congrArg _ (ih outer)

/-- Environments move with their delimiters if these keep their order. -/
theorem environments_moved {document document' : Text} {move : Nat → Nat}
    (moved : delimiters document' = (delimiters document).map (Delimiter.moved move))
    (ordered : ∀ first ∈ delimiters document, ∀ second ∈ delimiters document,
      move first.span.start ≤ move second.span.start ↔ first.span.start ≤ second.span.start) :
    environments document' = (environments document).map (Environment.moved move) := by
  have matched := matching_moved move [] (delimiters document)
  rw [List.map_nil, ← moved] at matched
  rw [environments, environments, matched]
  refine (List.map_mergeSort fun first isFirst second isSecond => ?_).symm
  obtain ⟨opener, isOpener, closer, -, rfl, -⟩ :=
    Environment.exists_delimiters_of_mem_matching (by simp)
      ((pairwise_delimitersFrom 0 document).filter _) isFirst
  obtain ⟨opener', isOpener', closer', -, rfl, -⟩ :=
    Environment.exists_delimiters_of_mem_matching (by simp)
      ((pairwise_delimitersFrom 0 document).filter _) isSecond
  rw [List.nil_append] at isOpener isOpener'
  exact decide_eq_decide.mpr (ordered opener isOpener opener' isOpener').symm

theorem delimiters_of_notMem {document : Text} (uncommented : '%' ∉ document) :
    delimiters document = delimitersFrom 0 document := by
  refine List.filter_eq_self.mpr fun delimiter _ => ?_
  rw [isCommented_of_notMem uncommented, Bool.not_false]

section Substituted

variable {before old new gap after : Text} {fence : Char}

/-- A text without delimiters, and white space up to a fence, add none to what stands in front of
them. -/
theorem delimitersFrom_before (isFenced : isFence fence = true) (open' : fence ≠ '}')
    (noBrace : '}' ∉ gap)
    (undelimited : delimitersFrom 0 (before ++ old) = delimitersFrom 0 before) :
    delimitersFrom 0 (before ++ (old ++ (gap ++ fence :: after)))
      = delimitersFrom 0 before
        ++ delimitersFrom (before.size + old.size + gap.size) (fence :: after) := by
  have parts : before ++ (old ++ (gap ++ fence :: after))
      = (before ++ old ++ gap) ++ fence :: after := by simp
  have inner : '}' ∉ gap ++ [fence] := by simpa [noBrace] using open'.symm
  rw [parts, delimitersFrom_append_fence 0 _ isFenced, List.append_assoc,
    delimitersFrom_append_of_noBrace 0 _ inner, undelimited, Nat.zero_add, Text.size_append,
    Text.size_append]

/-- Delimiters in front of a text lie within it. -/
theorem stop_le_of_mem_delimitersFrom {delimiter : Delimiter}
    (member : delimiter ∈ delimitersFrom 0 before) :
    delimiter.span.start < delimiter.span.stop ∧ delimiter.span.stop ≤ before.size := by
  obtain ⟨front, written, back, rfl, begins, spanEq⟩ := exists_spells_of_mem_delimitersFrom member
  have positive := Text.size_pos_of_head? begins
  rw [spanEq]
  simp only [Text.size_append]
  omega

theorem le_start_of_mem_delimitersFrom {offset : Nat} {delimiter : Delimiter}
    (member : delimiter ∈ delimitersFrom offset after) :
    offset ≤ delimiter.span.start ∧ offset ≤ delimiter.span.stop := by
  obtain ⟨front, written, back, -, -, spanEq⟩ := exists_spells_of_mem_delimitersFrom member
  rw [spanEq]
  dsimp only
  omega

variable (isFenced : isFence fence = true) (open' : fence ≠ '}') (noBrace : '}' ∉ gap)
  (uncommented : '%' ∉ before ++ (old ++ (gap ++ fence :: after)))
  (undelimited : delimitersFrom 0 (before ++ old) = delimitersFrom 0 before)

include isFenced open' noBrace uncommented undelimited

/-- No delimiter takes part in a text without delimiters. -/
theorem outside_of_mem_delimiters {delimiter : Delimiter}
    (member : delimiter ∈ delimiters (before ++ (old ++ (gap ++ fence :: after)))) :
    delimiter.span.Outside before.size old.size := by
  rw [delimiters_of_notMem uncommented, delimitersFrom_before isFenced open' noBrace undelimited]
    at member
  rcases List.mem_append.mp member with inFront | behind
  · exact Or.inl (stop_le_of_mem_delimitersFrom inFront)
  · have := le_start_of_mem_delimitersFrom behind
    exact Or.inr (by omega)

theorem outside_of_mem_environments {environment : Environment}
    (member : environment ∈ environments (before ++ (old ++ (gap ++ fence :: after)))) :
    ∀ span ∈ environment.delimiterSpans, span.Outside before.size old.size := by
  obtain ⟨opener, isOpener, closer, isCloser, pairs⟩ := exists_delimiters_of_mem_environments member
  simp only [Environment.delimiterSpans, List.forall_mem_cons, pairs.spans]
  exact ⟨outside_of_mem_delimiters isFenced open' noBrace uncommented undelimited isOpener,
    outside_of_mem_delimiters isFenced open' noBrace uncommented undelimited isCloser, by simp⟩

variable (nonempty : old ≠ []) (plain : '%' ∉ new)
  (undelimited' : delimitersFrom 0 (before ++ new) = delimitersFrom 0 before)

include nonempty plain undelimited'

/-- The delimiters of a document stay where a text without delimiters is replaced by another. -/
theorem delimiters_substituted :
    delimiters (before ++ (new ++ (gap ++ fence :: after)))
      = (delimiters (before ++ (old ++ (gap ++ fence :: after)))).map
        (Delimiter.moved (movedBehind before.size old.size new.size)) := by
  have uncommented' : '%' ∉ before ++ (new ++ (gap ++ fence :: after)) := by
    simp only [List.mem_append] at uncommented ⊢
    tauto
  have positive := Text.size_pos_of_ne_nil nonempty
  have inFront : (delimitersFrom 0 before).map
      (Delimiter.moved (movedBehind before.size old.size new.size)) = delimitersFrom 0 before := by
    refine (List.map_congr_left fun delimiter member => ?_).trans (List.map_id _)
    have bounds := stop_le_of_mem_delimitersFrom member
    simp only [Delimiter.moved, Span.moved, movedBehind_of_le bounds.2,
      movedBehind_of_le (bounds.1.le.trans bounds.2), id_eq]
  have behind : (delimitersFrom (before.size + old.size + gap.size) (fence :: after)).map
        (Delimiter.moved (movedBehind before.size old.size new.size))
      = delimitersFrom (before.size + new.size + gap.size) (fence :: after) := by
    have atOld := delimitersFrom_add 0 (before.size + old.size + gap.size) (fence :: after)
    have atNew := delimitersFrom_add 0 (before.size + new.size + gap.size) (fence :: after)
    rw [Nat.zero_add] at atOld atNew
    rw [atOld, atNew, List.map_map]
    refine List.map_congr_left fun delimiter _ => ?_
    have move (offset : Nat) : movedBehind before.size old.size new.size
        (offset + (before.size + old.size + gap.size))
          = offset + (before.size + new.size + gap.size) := by
      have moved := @movedBehind_add before.size _ new.size positive (gap.size + offset)
      have from' : offset + (before.size + old.size + gap.size)
          = before.size + old.size + (gap.size + offset) := by omega
      rw [from', moved]
      omega
    simp only [Function.comp, Delimiter.moved, Span.moved, move]
  rw [delimiters_of_notMem uncommented, delimiters_of_notMem uncommented',
    delimitersFrom_before isFenced open' noBrace undelimited,
    delimitersFrom_before isFenced open' noBrace undelimited', List.map_append, inFront, behind]

/-- The environments of a document stay where a text without delimiters is replaced by
another. -/
theorem environments_substituted :
    environments (before ++ (new ++ (gap ++ fence :: after)))
      = (environments (before ++ (old ++ (gap ++ fence :: after)))).map
        (Environment.moved (movedBehind before.size old.size new.size)) := by
  refine environments_moved (delimiters_substituted isFenced open' noBrace uncommented undelimited
    nonempty plain undelimited') fun first isFirst second isSecond => ?_
  have outside := outside_of_mem_delimiters isFenced open' noBrace uncommented undelimited isFirst
  have outside' := outside_of_mem_delimiters isFenced open' noBrace uncommented undelimited isSecond
  unfold Span.Outside at outside outside'
  exact movedBehind_le_iff (by omega) (by omega)

end Substituted

end Markup

end LatexTabular
