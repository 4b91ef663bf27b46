import LatexTabular.Text.Basic

/-!
# Blank characters and trimming

A character is blank when it has the Unicode property White_Space.  Contents of
cells, options and lines are trimmed of blank characters at both ends.
-/

namespace LatexTabular.Text

/-- The characters with the Unicode property White_Space. -/
def isBlank (character : Char) : Bool :=
  let code := character.toNat
  (0x09 ≤ code && code ≤ 0x0D) || code == 0x20 || code == 0x85 || code == 0xA0
    || code == 0x1680 || (0x2000 ≤ code && code ≤ 0x200A) || code == 0x2028
    || code == 0x2029 || code == 0x202F || code == 0x205F || code == 0x3000

/-- The ASCII white space of the language's character class is blank. -/
theorem isBlank_of_isWhitespace {character : Char}
    (white : character.isWhitespace = true) : isBlank character = true := by
  simp only [Char.isWhitespace, Bool.or_eq_true, decide_eq_true_eq] at white
  rcases white with (((rfl | rfl) | rfl) | rfl) <;> decide

/-- An ASCII letter. -/
def isLetter (character : Char) : Bool :=
  ('a' ≤ character && character ≤ 'z') || ('A' ≤ character && character ≤ 'Z')

/-- No letter is blank. -/
theorem isLetter_eq_false_of_isBlank {character : Char} (blank : isBlank character = true) :
    isLetter character = false := by
  cases letter : isLetter character with
  | false => rfl
  | true =>
      have blankCode := blank
      simp only [isLetter, Bool.or_eq_true, Bool.and_eq_true, decide_eq_true_eq, Char.le_def,
        UInt32.le_iff_toNat_le] at letter
      have code : (65 ≤ character.toNat ∧ character.toNat ≤ 90) ∨
          (97 ≤ character.toNat ∧ character.toNat ≤ 122) := letter.symm
      simp only [isBlank, Bool.or_eq_true, Bool.and_eq_true, decide_eq_true_eq, beq_iff_eq]
        at blankCode
      omega

def trimLeft (text : Text) : Text := text.dropWhile isBlank

def trimRight (text : Text) : Text := (text.reverse.dropWhile isBlank).reverse

/-- A text without the blank characters at its ends. -/
def trim (text : Text) : Text := trimRight (trimLeft text)

/-- Whether a text is empty or wholly blank. -/
def allBlank (text : Text) : Bool := text.all isBlank

/-- The span of a text that starts at `start`, less the blank characters at its
ends.  A wholly blank text has the empty span at its start. -/
def trimmedSpan (start : Nat) (text : Text) : Span :=
  if allBlank text then .point start
  else
    ⟨start + (size text - size (trimLeft text)), start + size (trimRight text)⟩

end LatexTabular.Text
