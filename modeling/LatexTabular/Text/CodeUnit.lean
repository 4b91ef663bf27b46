import LatexTabular.Text.Basic

/-!
# Positions in UTF-16 code units

Editors often count positions in UTF-16 code units.  The two conversions here
are adjoint: `byteOfUnits` gives the first character boundary at or after a
position in units, and `unitsOfByte` the position in units of a boundary.
`units` is the text as such an editor holds it.
-/

namespace LatexTabular.Text

/-- The number of UTF-16 code units that encode a character. -/
def unitCount (character : Char) : Nat :=
  if character.toNat < 0x10000 then 1 else 2

/-- The length of a text in UTF-16 code units. -/
def unitSize : Text → Nat
  | [] => 0
  | head :: rest => unitCount head + unitSize rest

/-- The byte offset of the first character that starts at or after a position in
code units; the end of the text when there is none. -/
def byteOfUnits : Text → Nat → Nat
  | [], _ => 0
  | _ :: _, 0 => 0
  | head :: rest, units@(_ + 1) =>
      head.utf8Size + byteOfUnits rest (units - unitCount head)

/-- The position in code units of a byte offset.  An offset that is no boundary
of the text counts as its end. -/
def unitsOfByte (text : Text) (offset : Nat) : Nat :=
  if isBoundary text offset then unitSize (takeBytes text offset)
  else unitSize text

/-- The UTF-16 code units that encode a character: its code, or a surrogate pair
for a code of more than sixteen bits. -/
def encoding (character : Char) : List UInt16 :=
  if character.toNat < 0x10000 then [UInt16.ofNat character.toNat]
  else
    [UInt16.ofNat (0xD800 + (character.toNat - 0x10000) / 0x400),
      UInt16.ofNat (0xDC00 + (character.toNat - 0x10000) % 0x400)]

/-- The UTF-16 code units of a text. -/
def units (text : Text) : List UInt16 := text.flatMap encoding

/-- Whether a code unit is the first one of a surrogate pair. -/
def isLeading (unit : UInt16) : Bool := 0xD800 ≤ unit.toNat && unit.toNat < 0xDC00

/-- Whether a code unit is the second one of a surrogate pair. -/
def isTrailing (unit : UInt16) : Bool := 0xDC00 ≤ unit.toNat && unit.toNat < 0xE000

/-- Whether a position in code units lies between the two of a surrogate pair. -/
def splitsPair (units : List UInt16) (position : Nat) : Bool :=
  (units.take position).getLast?.any isLeading && (units.drop position).head?.any isTrailing

end LatexTabular.Text
