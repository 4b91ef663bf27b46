import LatexTabular.Text.Blank
import Mathlib.Data.List.DropRight
import Mathlib.Data.List.TakeWhile
import Mathlib.Tactic.Common

/-!
# Where a text stands in a document

`Spells document span text` says that a span of a document covers exactly a
text.  Such a span lies in the document and starts and ends between characters,
so every part of the text has a span of its own.  All geometry of a table comes
down to this relation.
-/

namespace LatexTabular

namespace Text

/-- An offset is a boundary when it is the length of a beginning of the text. -/
theorem isBoundary_iff {document : Text} {offset : Nat} :
    isBoundary document offset = true ↔
      ∃ before after, document = before ++ after ∧ size before = offset := by
  constructor
  · intro boundary
    refine ⟨takeBytes document offset, dropBytes document offset, ?_, ?_⟩
    · exact (takeBytes_append_dropBytes document offset).symm
    · simpa [isBoundary] using boundary
  · rintro ⟨before, after, rfl, rfl⟩
    simp [isBoundary, takeBytes_size_append]

theorem isBoundary_size_append (before after : Text) :
    isBoundary (before ++ after) (size before) = true :=
  isBoundary_iff.mpr ⟨before, after, rfl, rfl⟩

theorem le_size_of_isBoundary {document : Text} {offset : Nat}
    (boundary : isBoundary document offset = true) : offset ≤ size document := by
  obtain ⟨before, after, rfl, rfl⟩ := isBoundary_iff.mp boundary
  simp

theorem size_pos_of_ne_nil {text : Text} (nonempty : text ≠ []) : 0 < size text := by
  cases text with
  | nil => exact absurd rfl nonempty
  | cons head rest =>
      have := head.utf8Size_pos
      simp only [size_cons]
      omega

theorem size_pos_of_head? {text : Text} {head : Char} (begins : text.head? = some head) :
    0 < size text :=
  size_pos_of_ne_nil (List.ne_nil_of_mem (List.mem_of_mem_head? begins))

theorem length_le_size (text : Text) : text.length ≤ size text := by
  induction text with
  | nil => exact Nat.le_refl _
  | cons head rest ih =>
      have positive := head.utf8Size_pos
      rw [List.length_cons, size_cons]
      omega

theorem size_eq_zero_iff {text : Text} : size text = 0 ↔ text = [] := by
  constructor
  · intro empty
    by_contra nonempty
    have := size_pos_of_ne_nil nonempty
    omega
  · rintro rfl
    rfl

/-- A text with a character that is not blank keeps everything in front of it
when its end is trimmed. -/
theorem trimRight_append_of_not_allBlank (lead : Text) {text : Text}
    (inked : allBlank text = false) : trimRight (lead ++ text) = lead ++ trimRight text := by
  have kept : text.reverse.dropWhile isBlank ≠ [] := by
    intro emptied
    rw [List.dropWhile_eq_nil_iff] at emptied
    have blank : allBlank text = true := by
      simpa [allBlank] using emptied
    rw [inked] at blank
    exact Bool.noConfusion blank
  simp [trimRight, List.dropWhile_append, kept]

/-- Two beginnings of a text are the same when they are equally long. -/
theorem eq_of_append_eq_of_size_eq {left left' right right' : Text}
    (same : left ++ right = left' ++ right') (sizes : size left = size left') :
    left = left' ∧ right = right' := by
  have leftEq : left = left' := by
    rw [← takeBytes_size_append left right, same, sizes, takeBytes_size_append]
  subst leftEq
  exact ⟨rfl, List.append_cancel_left same⟩

/-- Of two beginnings of a text the shorter one begins the longer one. -/
theorem isPrefix_of_size_le {left right text : Text} (first : left <+: text)
    (second : right <+: text) (shorter : size left ≤ size right) : left <+: right := by
  rcases List.prefix_or_prefix_of_prefix first second with isPart | ⟨rest, rfl⟩
  · exact isPart
  · rw [size_append] at shorter
    have : rest = [] := size_eq_zero_iff.mp (by omega)
    simp [this]

/-- Behind the front part of a text a boundary cuts the rest. -/
theorem exists_append_of_isBoundary {front rest : Text} {offset : Nat}
    (boundary : isBoundary (front ++ rest) offset = true) (behind : front.size ≤ offset) :
    ∃ kept remaining, rest = kept ++ remaining ∧ offset = (front ++ kept).size := by
  obtain ⟨before, remaining, same, rfl⟩ := isBoundary_iff.mp boundary
  obtain ⟨kept, rfl⟩ := isPrefix_of_size_le (List.prefix_append front rest)
    (same ▸ List.prefix_append before remaining) behind
  rw [List.append_assoc] at same
  exact ⟨kept, remaining, List.append_cancel_left same, rfl⟩

/-- A cut at least as long as the front part of a text falls into the rest. -/
theorem takeBytes_append_of_le {front : Text} (back : Text) {offset : Nat}
    (behind : size front ≤ offset) :
    takeBytes (front ++ back) offset = front ++ takeBytes back (offset - size front) := by
  induction front generalizing offset with
  | nil => simp
  | cons head rest ih =>
      simp only [size_cons] at behind
      simp only [List.cons_append, takeBytes, size_cons]
      rw [if_pos (by omega), ih (by omega), Nat.sub_sub]

theorem dropBytes_append_of_le {front : Text} (back : Text) {offset : Nat}
    (behind : size front ≤ offset) :
    dropBytes (front ++ back) offset = dropBytes back (offset - size front) := by
  induction front generalizing offset with
  | nil => simp
  | cons head rest ih =>
      simp only [size_cons] at behind
      simp only [List.cons_append, dropBytes, size_cons]
      rw [if_pos (by omega), ih (by omega), Nat.sub_sub]

/-- A cut within the front part of a text does not see the rest. -/
theorem takeBytes_append_of_ge {front : Text} (back : Text) {offset : Nat}
    (within : offset ≤ size front) :
    takeBytes (front ++ back) offset = takeBytes front offset := by
  induction front generalizing offset with
  | nil =>
      obtain rfl : offset = 0 := Nat.le_zero.mp within
      cases back with
      | nil => rfl
      | cons head rest => simp [takeBytes, Nat.not_le.mpr head.utf8Size_pos]
  | cons head rest ih =>
      simp only [size_cons] at within
      simp only [List.cons_append, takeBytes]
      split
      · rw [ih (by omega)]
      · rfl

theorem dropBytes_append_of_ge {front : Text} (back : Text) {offset : Nat}
    (within : offset ≤ size front) :
    dropBytes (front ++ back) offset = dropBytes front offset ++ back := by
  have cut := takeBytes_append_dropBytes (front ++ back) offset
  rw [takeBytes_append_of_ge back within] at cut
  refine @List.append_cancel_left _ (takeBytes front offset) _ _ ?_
  rw [cut, ← List.append_assoc, takeBytes_append_dropBytes]

theorem size_dropBytes_ge (text : Text) (offset : Nat) :
    size text - offset ≤ size (dropBytes text offset) := by
  have cut := congrArg size (takeBytes_append_dropBytes text offset)
  have taken := size_takeBytes_le text offset
  rw [size_append] at cut
  omega

theorem size_trimRight_le (text : Text) : size (trimRight text) ≤ size text := by
  obtain ⟨tail, parts⟩ : trimRight text <+: text := List.rdropWhile_prefix isBlank text
  have sizes := congrArg size parts
  rw [size_append] at sizes
  omega

theorem start_le_trimmedSpan (start : Nat) (text : Text) :
    start ≤ (trimmedSpan start text).start := by
  unfold trimmedSpan
  split
  · exact Nat.le_refl _
  · dsimp only
    omega

theorem trimmedSpan_le_stop (start : Nat) (text : Text) :
    (trimmedSpan start text).stop ≤ start + size text := by
  have := size_trimRight_le text
  unfold trimmedSpan
  split
  · exact Nat.le_add_right _ _
  · dsimp only
    omega

end Text

/-- A span that lies in a document and splits none of its characters. -/
structure Span.Fits (document : Text) (span : Span) : Prop where
  ordered : span.start ≤ span.stop
  startBoundary : document.isBoundary span.start = true
  stopBoundary : document.isBoundary span.stop = true

namespace Span.Fits

variable {document : Text} {span : Span}

theorem stop_le_size (fits : span.Fits document) : span.stop ≤ document.size :=
  Text.le_size_of_isBoundary fits.stopBoundary

theorem point_start (fits : span.Fits document) : (point span.start).Fits document :=
  ⟨Nat.le_refl _, fits.startBoundary, fits.startBoundary⟩

theorem point_stop (fits : span.Fits document) : (point span.stop).Fits document :=
  ⟨Nat.le_refl _, fits.stopBoundary, fits.stopBoundary⟩

/-- The span from one span to another fits when both do. -/
theorem join {other : Span} {start stop : Nat} (first : span.Fits document)
    (last : other.Fits document) (atStart : start = span.start ∨ start = span.stop)
    (atStop : stop = other.start ∨ stop = other.stop) (ordered : start ≤ stop) :
    Span.Fits document ⟨start, stop⟩ := by
  refine ⟨ordered, ?_, ?_⟩
  · rcases atStart with rfl | rfl
    · exact first.startBoundary
    · exact first.stopBoundary
  · rcases atStop with rfl | rfl
    · exact last.startBoundary
    · exact last.stopBoundary

end Span.Fits

namespace Text

/-- A span of a document covers exactly a text. -/
def Spells (document : Text) (span : Span) (text : Text) : Prop :=
  ∃ before after, document = before ++ text ++ after ∧
    span = ⟨size before, size before + size text⟩

/-- Nothing stands between two characters. -/
theorem spells_point {document : Text} {offset : Nat}
    (boundary : document.isBoundary offset = true) : Spells document (.point offset) [] := by
  obtain ⟨before, after, rfl, rfl⟩ := isBoundary_iff.mp boundary
  exact ⟨before, after, by simp, rfl⟩

namespace Spells

variable {document text : Text} {span : Span}

theorem of_append (before text after : Text) :
    Spells (before ++ text ++ after) ⟨size before, size before + size text⟩ text :=
  ⟨before, after, rfl, rfl⟩

theorem stop_eq (spells : Spells document span text) :
    span.stop = span.start + size text := by
  obtain ⟨before, after, _, rfl⟩ := spells
  rfl

theorem fits (spells : Spells document span text) : span.Fits document := by
  obtain ⟨before, after, rfl, rfl⟩ := spells
  refine ⟨by simp, ?_, ?_⟩
  · rw [List.append_assoc]
    exact isBoundary_size_append _ _
  · rw [← size_append]
    exact isBoundary_size_append _ _

/-- The covered text is what slicing yields. -/
theorem slice_eq (spells : Spells document span text) : slice document span = text := by
  obtain ⟨before, after, rfl, rfl⟩ := spells
  exact slice_append before text after

/-- A middle part of a covered text has its own span. -/
theorem middle (spells : Spells document span text) {left part right : Text}
    (parts : text = left ++ part ++ right) :
    Spells document
      ⟨span.start + size left, span.start + size left + size part⟩ part := by
  subst parts
  obtain ⟨before, after, rfl, rfl⟩ := spells
  refine ⟨before ++ left, right ++ after, by simp, by simp⟩

theorem front {left right : Text} (spells : Spells document span (left ++ right)) :
    Spells document ⟨span.start, span.start + size left⟩ left :=
  spells.middle (show left ++ right = [] ++ left ++ right from rfl)

theorem back {left right : Text} (spells : Spells document span (left ++ right)) :
    Spells document ⟨span.start + size left, span.start + size left + size right⟩ right :=
  spells.middle (List.append_nil (left ++ right)).symm

/-- Texts that start at the same offset start with the same character. -/
theorem head_eq {head head' : Char} {rest rest' : Text} {span' : Span}
    (first : Spells document span (head :: rest)) (second : Spells document span' (head' :: rest'))
    (same : span.start = span'.start) : head = head' := by
  obtain ⟨before, after, rfl, rfl⟩ := first
  obtain ⟨before', after', documentEq, rfl⟩ := second
  rw [List.append_assoc, List.append_assoc] at documentEq
  exact (List.cons.inj (eq_of_append_eq_of_size_eq documentEq same).2).1

/-- Texts that follow one another without a gap are covered as one. -/
theorem append {text' : Text} {start middle stop : Nat}
    (first : Spells document ⟨start, middle⟩ text) (second : Spells document ⟨middle, stop⟩ text') :
    Spells document ⟨start, stop⟩ (text ++ text') := by
  obtain ⟨before, after, rfl, spanEq⟩ := first
  obtain ⟨rfl, rfl⟩ := Span.mk.inj spanEq
  obtain ⟨before', after', documentEq, spanEq⟩ := second
  obtain ⟨middleEq, rfl⟩ := Span.mk.inj spanEq
  rw [← size_append] at middleEq
  rw [List.append_assoc _ text'] at documentEq
  obtain ⟨rfl, rfl⟩ := eq_of_append_eq_of_size_eq documentEq middleEq
  exact ⟨before, after', by simp, by simp [Nat.add_assoc]⟩

/-- A covered text without the blank characters at its ends has the trimmed
span. -/
theorem trimmed (spells : Spells document span text) :
    Spells document (trimmedSpan span.start text) (trim text) := by
  have lead : text.takeWhile isBlank ++ trimLeft text = text :=
    List.takeWhile_append_dropWhile
  unfold trimmedSpan
  by_cases blank : allBlank text = true
  · have emptied : trimLeft text = [] := by
      simpa [trimLeft, allBlank, List.dropWhile_eq_nil_iff] using blank
    have parts : text = [] ++ [] ++ text := rfl
    simpa [blank, trim, emptied, trimRight, Span.point] using spells.middle parts
  · have inked : allBlank (trimLeft text) = false := by
      by_contra allBlankLeft
      apply blank
      rw [← lead]
      simp only [Bool.not_eq_false] at allBlankLeft
      simpa [allBlank] using allBlankLeft
    have right : trimRight text = text.takeWhile isBlank ++ trim text := by
      conv => lhs; rw [← lead]
      exact trimRight_append_of_not_allBlank _ inked
    obtain ⟨tail, tailEq⟩ : ∃ tail, trimLeft text = trim text ++ tail :=
      ⟨((trimLeft text).reverse.takeWhile isBlank).reverse, by
        simp [trim, trimRight, ← List.reverse_append]⟩
    have parts : text = text.takeWhile isBlank ++ trim text ++ tail := by
      rw [List.append_assoc, ← tailEq, lead]
    have sizes : size text = size (text.takeWhile isBlank) + size (trimLeft text) := by
      conv => lhs; rw [← lead]
      exact size_append _ _
    simpa [blank, right, sizes, Nat.add_assoc] using spells.middle parts

/-- Two covered texts that follow one another have a text between them. -/
theorem exists_between {text' : Text} {span' : Span}
    (first : Spells document span text) (second : Spells document span' text')
    (ordered : span.stop ≤ span'.start) :
    ∃ before between after, document = before ++ text ++ between ++ text' ++ after ∧
      span = ⟨size before, size before + size text⟩ ∧
      span' = ⟨size (before ++ text ++ between),
        size (before ++ text ++ between) + size text'⟩ := by
  obtain ⟨before, rest, rfl, rfl⟩ := first
  obtain ⟨before', after, same, rfl⟩ := second
  have isPart : before ++ text <+: before' := by
    refine isPrefix_of_size_le ⟨rest, rfl⟩ ⟨text' ++ after, ?_⟩ ?_
    · rw [same, List.append_assoc]
    · simpa using ordered
  obtain ⟨between, rfl⟩ := isPart
  exact ⟨before, between, after, by rw [same], rfl, rfl⟩

end Spells

end Text

/-- A span that fits a document covers what slicing yields. -/
theorem Span.Fits.spells_slice {document : Text} {span : Span} (fits : span.Fits document) :
    document.Spells span (document.slice span) := by
  obtain ⟨before, rest, documentEq, startEq⟩ := Text.isBoundary_iff.mp fits.startBoundary
  obtain ⟨longer, after, documentEq', stopEq⟩ := Text.isBoundary_iff.mp fits.stopBoundary
  obtain ⟨text, rfl⟩ : before <+: longer := by
    refine Text.isPrefix_of_size_le ⟨rest, documentEq.symm⟩ ⟨after, documentEq'.symm⟩ ?_
    rw [startEq, stopEq]
    exact fits.ordered
  have spells : document.Spells span text := by
    refine ⟨before, after, documentEq', ?_⟩
    rw [← Text.size_append, startEq, stopEq]
  rwa [spells.slice_eq]

/-- A span that fits takes its part out of the document. -/
theorem Span.Fits.exists_append {document : Text} {span : Span} (fits : span.Fits document) :
    ∃ before text after, document = before ++ text ++ after ∧
      span = ⟨before.size, (before ++ text).size⟩ ∧ document.slice span = text := by
  obtain ⟨before, after, documentEq, spanEq⟩ := fits.spells_slice
  rw [← Text.size_append] at spanEq
  exact ⟨before, _, after, documentEq, spanEq, rfl⟩

end LatexTabular
