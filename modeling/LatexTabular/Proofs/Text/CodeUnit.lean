import LatexTabular.Proofs.Text.Boundary
import LatexTabular.Text.CodeUnit
import Mathlib.Order.Bounds.Basic

/-!
# Offsets in bytes and positions in UTF-16 code units

The conversion of a byte offset to a position is strictly monotone on the boundaries of a text
(`Text.unitsOfByte_lt_unitsOfByte_iff`), and no boundary lies within a surrogate pair.  The
conversion back is its lower adjoint (`Text.byteOfUnits_le_iff`): it finds the first boundary with
at least some position, so it undoes the other one and leaves a surrogate pair at its end
(`Text.byteOfUnits_adjoint`).
-/

namespace LatexTabular.Text

@[simp] theorem units_append (left right : Text) :
    units (left ++ right) = units left ++ units right := List.flatMap_append

@[simp] theorem unitSize_append (left right : Text) :
    unitSize (left ++ right) = unitSize left + unitSize right := by
  induction left with
  | nil => simp [unitSize]
  | cons head rest ih => simp [unitSize, ih, Nat.add_assoc]

theorem length_encoding (character : Char) : (encoding character).length = unitCount character := by
  unfold encoding unitCount
  split <;> rfl

@[simp] theorem length_units (text : Text) : (units text).length = unitSize text := by
  induction text with
  | nil => rfl
  | cons head rest ih =>
      have whole := units_append [head] rest
      simp only [List.singleton_append, units, List.flatMap_singleton] at whole
      simp [units, whole, unitSize, ← length_encoding, ← ih]

theorem unitCount_pos (character : Char) : 0 < unitCount character := by
  unfold unitCount
  split <;> decide

theorem unitSize_pos_of_ne_nil {text : Text} (nonempty : text ≠ []) : 0 < unitSize text := by
  cases text with
  | nil => exact absurd rfl nonempty
  | cons head rest => exact Nat.add_pos_left (unitCount_pos head) _

/-- The position of the end of the front part of a text. -/
theorem unitsOfByte_size_append (before after : Text) :
    unitsOfByte (before ++ after) before.size = unitSize before := by
  rw [unitsOfByte, if_pos (isBoundary_size_append before after), takeBytes_size_append]

/-- Of two boundaries the one at the lower offset has the lower position. -/
theorem unitsOfByte_lt_unitsOfByte_iff {text : Text} {first second : Nat}
    (firstBoundary : text.isBoundary first = true) (secondBoundary : text.isBoundary second = true) :
    unitsOfByte text first < unitsOfByte text second ↔ first < second := by
  -- the shorter of the two beginnings begins the longer one
  have lt {lower higher : Nat} (lowerBoundary : text.isBoundary lower = true)
      (higherBoundary : text.isBoundary higher = true) (less : lower < higher) :
      unitsOfByte text lower < unitsOfByte text higher := by
    obtain ⟨before, after, rfl, rfl⟩ := isBoundary_iff.mp lowerBoundary
    obtain ⟨longer, rest, same, rfl⟩ := isBoundary_iff.mp higherBoundary
    obtain ⟨between, rfl⟩ := isPrefix_of_size_le (List.prefix_append before after)
      (same ▸ List.prefix_append longer rest) less.le
    have nonempty : between ≠ [] := by
      rintro rfl
      simp at less
    have positive := unitSize_pos_of_ne_nil nonempty
    rw [unitsOfByte_size_append, same, unitsOfByte_size_append, unitSize_append]
    omega
  refine ⟨fun less => ?_, lt firstBoundary secondBoundary⟩
  by_contra notLess
  rcases Nat.eq_or_lt_of_le (Nat.not_lt.mp notLess) with rfl | greater
  · exact Nat.lt_irrefl _ less
  · exact Nat.lt_asymm less (lt secondBoundary firstBoundary greater)

theorem unitsOfByte_le_unitsOfByte_iff {text : Text} {first second : Nat}
    (firstBoundary : text.isBoundary first = true) (secondBoundary : text.isBoundary second = true) :
    unitsOfByte text first ≤ unitsOfByte text second ↔ first ≤ second := by
  rw [← Nat.not_lt, unitsOfByte_lt_unitsOfByte_iff secondBoundary firstBoundary, Nat.not_lt]

theorem unitsOfByte_eq_unitsOfByte_iff {text : Text} {first second : Nat}
    (firstBoundary : text.isBoundary first = true) (secondBoundary : text.isBoundary second = true) :
    unitsOfByte text first = unitsOfByte text second ↔ first = second := by
  simp only [Nat.le_antisymm_iff, unitsOfByte_le_unitsOfByte_iff, firstBoundary, secondBoundary]

theorem isLeading_ofNat_eq_false {code : Nat} (small : code < 0x10000)
    (apart : code < 0xD800 ∨ 0xDC00 ≤ code) : isLeading (UInt16.ofNat code) = false := by
  rw [isLeading, UInt16.toNat_ofNat_of_lt' small, Bool.and_eq_false_iff,
    decide_eq_false_iff_not, decide_eq_false_iff_not, Nat.not_le, Nat.not_lt]
  exact apart

/-- The last code unit of a character begins no pair, since the codes of surrogates are no
characters. -/
theorem not_isLeading_of_getLast?_encoding (character : Char) :
    (encoding character).getLast?.any isLeading = false := by
  have valid : character.toNat < 0xD800 ∨ 0xDFFF < character.toNat ∧ character.toNat < 0x110000 :=
    character.valid
  unfold encoding
  split
  next small =>
    rw [List.getLast?_singleton, Option.any_some]
    exact isLeading_ofNat_eq_false small (by omega)
  next =>
    have low := Nat.mod_lt (character.toNat - 0x10000) (show 0x400 > 0 by decide)
    rw [List.getLast?_cons_cons, List.getLast?_singleton, Option.any_some]
    exact isLeading_ofNat_eq_false (by omega) (Or.inr (Nat.le_add_right _ _))

theorem not_isLeading_of_getLast?_units (text : Text) :
    (units text).getLast?.any isLeading = false := by
  rcases List.eq_nil_or_concat text with rfl | ⟨init, last, rfl⟩
  · rfl
  · have ends := not_isLeading_of_getLast?_encoding last
    have nonempty : encoding last ≠ [] := by
      rw [← List.length_pos_iff, length_encoding]
      exact unitCount_pos last
    obtain ⟨unit, isLast⟩ := Option.isSome_iff_exists.mp (List.getLast?_isSome.mpr nonempty)
    rw [isLast] at ends
    simpa [units, List.getLast?_append, isLast] using ends

/-- No boundary of a text lies within a surrogate pair. -/
theorem splitsPair_unitsOfByte {text : Text} {offset : Nat}
    (boundary : text.isBoundary offset = true) :
    splitsPair (units text) (unitsOfByte text offset) = false := by
  obtain ⟨before, after, rfl, rfl⟩ := isBoundary_iff.mp boundary
  rw [unitsOfByte_size_append, splitsPair, units_append, ← length_units, List.take_left,
    not_isLeading_of_getLast?_units, Bool.false_and]

/-! ## From positions to offsets -/

section Adjoint

variable {text : Text} {offset position : Nat}

theorem byteOfUnits_zero (text : Text) : byteOfUnits text 0 = 0 := by
  cases text <;> rfl

/-- A position that is not at the start lies behind the first character or within it. -/
theorem byteOfUnits_cons (head : Char) (rest : Text) (positive : 0 < position) :
    byteOfUnits (head :: rest) position
      = head.utf8Size + byteOfUnits rest (position - unitCount head) := by
  cases position with
  | zero => exact absurd positive (Nat.lt_irrefl 0)
  | succ position => rfl

/-- A position behind the front part of a text is one of the rest. -/
theorem byteOfUnits_append_of_le {front : Text} (back : Text) (behind : front.unitSize ≤ position) :
    byteOfUnits (front ++ back) position
      = front.size + byteOfUnits back (position - front.unitSize) := by
  induction front generalizing position with
  | nil => simp [unitSize]
  | cons head rest ih =>
      have positive := unitCount_pos head
      rw [unitSize] at behind
      rw [List.cons_append, byteOfUnits_cons _ _ (by omega), ih (by omega), size_cons, unitSize,
        Nat.sub_sub, Nat.add_assoc]

/-- A position within the front part of a text does not go beyond it. -/
theorem byteOfUnits_append_le {front : Text} (back : Text) (within : position ≤ front.unitSize) :
    byteOfUnits (front ++ back) position ≤ front.size := by
  induction front generalizing position with
  | nil =>
      obtain rfl : position = 0 := Nat.le_zero.mp within
      rw [byteOfUnits_zero]
      exact Nat.zero_le _
  | cons head rest ih =>
      rcases Nat.eq_zero_or_pos position with rfl | positive
      · rw [byteOfUnits_zero]
        exact Nat.zero_le _
      · rw [unitSize] at within
        rw [List.cons_append, byteOfUnits_cons _ _ positive, size_cons]
        exact Nat.add_le_add_left (ih (by omega)) _

theorem byteOfUnits_of_ge (beyond : text.unitSize ≤ position) :
    byteOfUnits text position = text.size := by
  simpa [byteOfUnits] using byteOfUnits_append_of_le [] beyond

theorem byteOfUnits_pos (nonempty : text ≠ []) (positive : 0 < position) :
    0 < byteOfUnits text position := by
  obtain ⟨head, rest, rfl⟩ := List.exists_cons_of_ne_nil nonempty
  rw [byteOfUnits_cons head rest positive]
  exact Nat.add_pos_left head.utf8Size_pos _

/-- The offset of a position is a boundary. -/
theorem isBoundary_byteOfUnits (text : Text) (position : Nat) :
    text.isBoundary (byteOfUnits text position) = true := by
  rw [isBoundary_iff]
  induction text generalizing position with
  | nil => exact ⟨[], [], rfl, rfl⟩
  | cons head rest ih =>
      rcases Nat.eq_zero_or_pos position with rfl | positive
      · exact ⟨[], head :: rest, rfl, rfl⟩
      · obtain ⟨before, after, restEq, sizeEq⟩ := ih (position - unitCount head)
        refine ⟨head :: before, after, congrArg (head :: ·) restEq, ?_⟩
        rw [byteOfUnits_cons head rest positive, size_cons, sizeEq]

/-- Up to the end of a text the two conversions are adjoint. -/
theorem byteOfUnits_le_iff (boundary : text.isBoundary offset = true)
    (within : position ≤ text.unitSize) :
    byteOfUnits text position ≤ offset ↔ position ≤ unitsOfByte text offset := by
  obtain ⟨before, after, rfl, rfl⟩ := isBoundary_iff.mp boundary
  rw [unitsOfByte_size_append]
  constructor
  · intro reached
    by_contra beyond
    rw [unitSize_append] at within
    have nonempty : after ≠ [] := by
      rintro rfl
      exact beyond within
    have positive := byteOfUnits_pos nonempty (show 0 < position - before.unitSize by omega)
    rw [byteOfUnits_append_of_le after (by omega)] at reached
    omega
  · exact byteOfUnits_append_le after

/-- The position of a boundary leads back to it. -/
theorem byteOfUnits_unitsOfByte (boundary : text.isBoundary offset = true) :
    byteOfUnits text (unitsOfByte text offset) = offset := by
  obtain ⟨before, after, rfl, rfl⟩ := isBoundary_iff.mp boundary
  rw [unitsOfByte_size_append, byteOfUnits_append_of_le after (Nat.le_refl _), Nat.sub_self,
    byteOfUnits_zero, Nat.add_zero]

theorem unitsOfByte_le (boundary : text.isBoundary offset = true) :
    unitsOfByte text offset ≤ text.unitSize := by
  obtain ⟨before, after, rfl, rfl⟩ := isBoundary_iff.mp boundary
  rw [unitsOfByte_size_append, unitSize_append]
  exact Nat.le_add_right _ _

/-- The boundaries of a text that have at least some position in code units. -/
def boundariesFrom (text : Text) (position : Nat) : Set Nat :=
  {offset | text.isBoundary offset = true ∧ position ≤ text.unitsOfByte offset}

theorem isLeast_byteOfUnits (within : position ≤ text.unitSize) :
    IsLeast (text.boundariesFrom position) (text.byteOfUnits position) := by
  have boundary := isBoundary_byteOfUnits text position
  constructor
  · exact ⟨boundary, (byteOfUnits_le_iff boundary within).mp (Nat.le_refl _)⟩
  · intro offset ⟨other, reaches⟩
    exact (byteOfUnits_le_iff other within).mpr reaches

theorem nonempty_boundariesFrom_iff :
    (text.boundariesFrom position).Nonempty ↔ position ≤ text.unitSize := by
  constructor
  · rintro ⟨offset, boundary, reaches⟩
    exact Nat.le_trans reaches (unitsOfByte_le boundary)
  · intro within
    exact ⟨_, (isLeast_byteOfUnits within).1⟩

theorem monotone_byteOfUnits (text : Text) : Monotone text.byteOfUnits := by
  intro first second ordered
  by_cases within : second ≤ text.unitSize
  · have reaches := (isLeast_byteOfUnits within).1
    exact (isLeast_byteOfUnits (Nat.le_trans ordered within)).2
      ⟨reaches.1, Nat.le_trans ordered reaches.2⟩
  · rw [byteOfUnits_of_ge (Nat.le_of_not_le within)]
    exact le_size_of_isBoundary (isBoundary_byteOfUnits text first)

/-- Within a character of two code units a position splits a surrogate pair. -/
theorem splitsPair_append (before after : Text) {character : Char}
    (two : unitCount character = 2) :
    splitsPair (units (before ++ character :: after)) (before.unitSize + 1) = true := by
  have large : ¬ character.toNat < 0x10000 := by
    intro small
    simp [unitCount, small] at two
  have valid : character.toNat < 0xD800 ∨ 0xDFFF < character.toNat ∧ character.toNat < 0x110000 :=
    character.valid
  have low := Nat.mod_lt (character.toNat - 0x10000) (show 0x400 > 0 by decide)
  have limit : UInt16.size = 0x10000 := rfl
  obtain ⟨leading, trailing, pair, isFirst, isSecond⟩ : ∃ leading trailing,
      encoding character = [leading, trailing] ∧ isLeading leading = true ∧
        isTrailing trailing = true := by
    refine ⟨_, _, if_neg large, ?_, ?_⟩
    · rw [isLeading, UInt16.toNat_ofNat_of_lt' (by omega), Bool.and_eq_true, decide_eq_true_eq,
        decide_eq_true_eq]
      omega
    · rw [isTrailing, UInt16.toNat_ofNat_of_lt' (by omega), Bool.and_eq_true, decide_eq_true_eq,
        decide_eq_true_eq]
      omega
  have unitsEq : units (before ++ character :: after)
      = (units before ++ [leading]) ++ trailing :: units after := by
    simp [units, pair]
  have front : (units before ++ [leading]).length = before.unitSize + 1 := by
    simp
  rw [splitsPair, unitsEq, ← front, List.take_left, List.drop_left]
  simp [isFirst, isSecond]

/-- The position of a boundary counts the code units in front of it and leads back to it.  Every
position leads to a boundary, the first one that has at least this position, or the end of the
text if there is none; from within a surrogate pair that is the end of its character.  Both
conversions keep the order, that of boundaries strictly. -/
theorem byteOfUnits_adjoint (text : Text) :
    (∀ offset, text.isBoundary offset = true →
      text.unitsOfByte offset = (text.takeBytes offset).units.length ∧
        text.byteOfUnits (text.unitsOfByte offset) = offset) ∧
    (∀ position, text.isBoundary (text.byteOfUnits position) = true ∧
      ((text.boundariesFrom position).Nonempty →
        IsLeast (text.boundariesFrom position) (text.byteOfUnits position)) ∧
      (text.boundariesFrom position = ∅ → text.byteOfUnits position = text.size)) ∧
    (∀ (before : Text) (character : Char) (after : Text), text = before ++ character :: after →
      unitCount character = 2 → splitsPair text.units (before.unitSize + 1) = true ∧
        text.byteOfUnits (before.unitSize + 1) = size (before ++ [character])) ∧
    Monotone text.byteOfUnits ∧
    StrictMonoOn text.unitsOfByte {offset | text.isBoundary offset = true} := by
  refine ⟨?_, ?_, ?_, monotone_byteOfUnits text, ?_⟩
  · intro offset boundary
    refine ⟨?_, byteOfUnits_unitsOfByte boundary⟩
    rw [length_units, unitsOfByte, if_pos boundary]
  · intro position
    refine ⟨isBoundary_byteOfUnits text position, ?_, ?_⟩
    · intro nonempty
      exact isLeast_byteOfUnits (nonempty_boundariesFrom_iff.mp nonempty)
    · intro empty
      have beyond : ¬ position ≤ text.unitSize := by
        rw [← nonempty_boundariesFrom_iff, empty]
        exact Set.not_nonempty_empty
      exact byteOfUnits_of_ge (Nat.le_of_not_le beyond)
  · rintro before character after rfl two
    refine ⟨splitsPair_append before after two, ?_⟩
    rw [byteOfUnits_append_of_le _ (Nat.le_add_right _ 1), Nat.add_sub_cancel_left,
      byteOfUnits_cons _ _ Nat.one_pos, two, byteOfUnits_zero, size_append, size_cons, size_nil]
  · intro first isFirst second isSecond less
    exact (unitsOfByte_lt_unitsOfByte_iff isFirst isSecond).mpr less

/-- The position within a surrogate pair leads to the end of its character, whose position leads
back to it. -/
theorem byteOfUnits_adjoint_paired :
    splitsPair (units "é𝄞b".toList) 2 = true ∧ byteOfUnits "é𝄞b".toList 2 = 6 ∧
      IsLeast (boundariesFrom "é𝄞b".toList 2) 6 ∧ unitsOfByte "é𝄞b".toList 6 = 3 ∧
      byteOfUnits "é𝄞b".toList 3 = 6 := by
  obtain ⟨undone, found, within, -⟩ := byteOfUnits_adjoint "é𝄞b".toList
  have boundary : isBoundary "é𝄞b".toList 6 = true := by decide +kernel
  have position : unitsOfByte "é𝄞b".toList 6 = 3 := by decide +kernel
  obtain ⟨splits, offset⟩ := within "é".toList '𝄞' "b".toList (by decide +kernel) (by decide +kernel)
  have one : unitSize "é".toList + 1 = 2 := by decide +kernel
  rw [one] at splits offset
  have offsetEq : byteOfUnits "é𝄞b".toList 2 = 6 := offset.trans (by decide +kernel)
  have reaches : 6 ∈ boundariesFrom "é𝄞b".toList 2 := ⟨boundary, by rw [position]; decide⟩
  have least := (found 2).2.1 ⟨6, reaches⟩
  have back := (undone 6 boundary).2
  rw [offsetEq] at least
  rw [position] at back
  exact ⟨splits, offsetEq, least, position, back⟩

end Adjoint

end LatexTabular.Text
