import LatexTabular.Text.Blank
import LatexTabular.Text.Numeral
import Mathlib.Tactic.Common

/-!
# Numerals

The numeral of a number that fits a word is read back as that number, and
trimming keeps a row of digits as it is.
-/

namespace LatexTabular.Text

/-- A row of ASCII digits that is not empty. -/
def IsNumeral (text : Text) : Prop :=
  text ≠ [] ∧ ∀ character ∈ text, isDigit character = true

theorem toNat_of_isDigit {character : Char} (digit : isDigit character = true) :
    48 ≤ character.toNat ∧ character.toNat ≤ 57 := by
  simp only [isDigit, Bool.and_eq_true, decide_eq_true_eq, Char.le_def,
    UInt32.le_iff_toNat_le] at digit
  exact digit

theorem isBlank_eq_false_of_isDigit {character : Char} (digit : isDigit character = true) :
    isBlank character = false := by
  have bounds := toNat_of_isDigit digit
  simp only [isBlank, Bool.or_eq_false_iff, Bool.and_eq_false_iff, decide_eq_false_iff_not,
    beq_eq_false_iff_ne]
  omega

theorem isNumeral_ofNumber (value : Nat) : IsNumeral (ofNumber value) := by
  constructor
  · exact Nat.toDigits_ne_nil
  · intro character member
    have digit := Nat.isDigit_of_mem_toDigits (by decide) (by decide) member
    simpa [Char.isDigit, isDigit, Char.le_def] using digit

theorem digitsValue_ofNumber (value : Nat) : digitsValue (ofNumber value) = value := by
  have inverse := @Nat.ofDigitChars_ten_toDigits value
  simp only [Nat.ofDigitChars_eq_foldl, Nat.mul_comm 10] at inverse
  exact inverse

/-- A row of digits writes its value, if that fits a word. -/
theorem number?_of_isNumeral {text : Text} (numeral : IsNumeral text)
    (fits : digitsValue text < wordLimit) : number? text = some (digitsValue text) := by
  obtain ⟨nonempty, digits⟩ := numeral
  have read : digits? text = some (digitsValue text) := by
    have all : text.all isDigit = true := List.all_eq_true.mpr digits
    simp [digits?, nonempty, all, fits]
  unfold number?
  split
  next rest =>
    have plus := digits '+' List.mem_cons_self
    exact absurd plus (by decide)
  next => exact read

end LatexTabular.Text
