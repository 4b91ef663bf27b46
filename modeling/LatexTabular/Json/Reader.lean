import LatexTabular.Json.Basic

/-!
# Reading JSON

`Json.read?` reads one JSON value with white space around it and nothing else.
Numbers and strings must keep to the grammar: no superfluous zeros and no control
characters in strings.  A string is read as code points first, because an escaped
surrogate has a meaning only together with its partner.
-/

namespace LatexTabular.Json

/-- The white space between the tokens of JSON. -/
def isSpace (character : Char) : Bool :=
  character == ' ' || character == '\n' || character == '\t' || character == '\r'

def dropSpaces (text : Text) : Text := text.dropWhile isSpace

/-- The value of a hexadecimal digit. -/
def hexDigit? (digit : Char) : Option Nat :=
  if '0' ≤ digit && digit ≤ '9' then some (digit.toNat - '0'.toNat)
  else if 'a' ≤ digit && digit ≤ 'f' then some (digit.toNat - 'a'.toNat + 10)
  else if 'A' ≤ digit && digit ≤ 'F' then some (digit.toNat - 'A'.toNat + 10)
  else none

/-- The code unit that four hexadecimal digits write. -/
def codeUnit? (a b c d : Char) : Option Nat := do
  return ((← hexDigit? a) * 16 + (← hexDigit? b)) * 256
    + (← hexDigit? c) * 16 + (← hexDigit? d)

/-- The character of a pair of surrogates. -/
def surrogatePair? (high low : Nat) : Option Char :=
  if 0xD800 ≤ high && high < 0xDC00 && 0xDC00 ≤ low && low < 0xE000 then
    some (Char.ofNat (0x10000 + (high - 0xD800) * 0x400 + (low - 0xDC00)))
  else none

/-- Whether a code point is a surrogate and no character of its own. -/
def isSurrogate (point : Nat) : Bool := 0xD800 ≤ point && point < 0xE000

/-- The text of code points, if every surrogate among them has its partner. -/
def textOf? : List Nat → Option Text
  | [] => some []
  | point :: rest =>
      if isSurrogate point then
        match rest with
        | [] => none
        | low :: rest => do return (← surrogatePair? point low) :: (← textOf? rest)
      else do return Char.ofNat point :: (← textOf? rest)

/-- The character that a backslash with a letter stands for. -/
def shortEscape? : Char → Option Char
  | '"' => some '"'
  | '\\' => some '\\'
  | '/' => some '/'
  | 'b' => some '\x08'
  | 'f' => some '\x0c'
  | 'n' => some '\n'
  | 'r' => some '\r'
  | 't' => some '\t'
  | _ => none

/-- Read a string after its opening quote: its code points and the text behind
it. -/
def readString : Text → Option (List Nat × Text)
  | [] => none
  | '"' :: rest => some ([], rest)
  | '\\' :: 'u' :: a :: b :: c :: d :: rest => do
      let unit ← codeUnit? a b c d
      let (points, rest) ← readString rest
      return (unit :: points, rest)
  | '\\' :: letter :: rest => do
      let character ← shortEscape? letter
      let (points, rest) ← readString rest
      return (character.toNat :: points, rest)
  | head :: rest =>
      if head.toNat < 0x20 || head == '\\' then none
      else do
        let (points, rest) ← readString rest
        return (head.toNat :: points, rest)

/-- The value of a string with code points. -/
def ofPoints (points : List Nat) : Json :=
  match textOf? points with
  | some value => string value
  | none => unpaired

/-- The value of an object whose names have code points. -/
def ofNamed (members : List (List Nat × Json)) : Json :=
  match members.mapM fun (name, value) => (textOf? name).map fun name => (name, value) with
  | some members => object members
  | none => unpaired

/-- The digits at the front of a text, if there are any. -/
def digits1? (text : Text) : Option Text :=
  match text.takeWhile Text.isDigit with
  | [] => none
  | digits => some digits

/-- The integer part of a number: a zero alone or digits that start otherwise. -/
def integerPart? (text : Text) : Option Text := do
  let digits ← digits1? text
  if digits.head? == some '0' && digits.length != 1 then none else some digits

/-- The fraction of a number, if one is started. -/
def fractionPart? : Text → Option Text
  | '.' :: rest => (digits1? rest).map ('.' :: ·)
  | _ => some []

/-- The exponent of a number, if one is started. -/
def exponentPart? : Text → Option Text
  | mark :: rest =>
      if mark == 'e' || mark == 'E' then
        match rest with
        | sign :: digits =>
            if sign == '+' || sign == '-' then
              (digits1? digits).map ([mark, sign] ++ ·)
            else (digits1? rest).map (mark :: ·)
        | [] => none
      else some []
  | [] => some []

/-- Read a number: its value and the text behind it. -/
def readNumber (text : Text) : Option (Json × Text) := do
  let sign := text.takeWhile (· == '-')
  let unsigned := text.drop sign.length
  let integer ← integerPart? unsigned
  let afterInteger := unsigned.drop integer.length
  let fraction ← fractionPart? afterInteger
  let afterFraction := afterInteger.drop fraction.length
  let exponent ← exponentPart? afterFraction
  let rest := afterFraction.drop exponent.length
  let literal := sign ++ integer ++ fraction ++ exponent
  if 1 < sign.length then none
  else
    match if literal = integer then Text.digits? integer else none with
    | some value => return (natural value, rest)
    | none => return (number literal, rest)

/-- Read one of the three named values, or else a number. -/
def readScalar (text : Text) : Option (Json × Text) :=
  match Text.after? "null".toList text, Text.after? "true".toList text,
    Text.after? "false".toList text with
  | some rest, _, _ => some (null, rest)
  | _, some rest, _ => some (bool true, rest)
  | _, _, some rest => some (bool false, rest)
  | none, none, none => readNumber text

mutual

/-- Read a value at the front of a text.  The first number bounds the depth of
the recursion. -/
def readValue : Nat → Text → Option (Json × Text)
  | 0, _ => none
  | bound + 1, text =>
      match dropSpaces text with
      | '"' :: rest => (readString rest).map fun (points, rest) => (ofPoints points, rest)
      | '[' :: rest =>
          match dropSpaces rest with
          | ']' :: rest => some (array [], rest)
          | rest => do
              let (elements, rest) ← readElements bound rest
              return (array elements, rest)
      | '{' :: rest =>
          match dropSpaces rest with
          | '}' :: rest => some (object [], rest)
          | rest => do
              let (members, rest) ← readMembers bound rest
              return (ofNamed members, rest)
      | text => readScalar text

/-- Read the elements of an array up to its closing bracket. -/
def readElements : Nat → Text → Option (List Json × Text)
  | 0, _ => none
  | bound + 1, text => do
      let (element, rest) ← readValue bound text
      match dropSpaces rest with
      | ',' :: rest =>
          let (elements, rest) ← readElements bound rest
          return (element :: elements, rest)
      | ']' :: rest => return ([element], rest)
      | _ => none

/-- Read the members of an object up to its closing brace. -/
def readMembers : Nat → Text → Option (List (List Nat × Json) × Text)
  | 0, _ => none
  | bound + 1, text =>
      match dropSpaces text with
      | '"' :: rest => do
          let (name, rest) ← readString rest
          match dropSpaces rest with
          | ':' :: rest =>
              let (value, rest) ← readValue bound rest
              match dropSpaces rest with
              | ',' :: rest =>
                  let (members, rest) ← readMembers bound rest
                  return ((name, value) :: members, rest)
              | '}' :: rest => return ([(name, value)], rest)
              | _ => none
          | _ => none
      | _ => none

end

/-- Read a text that holds one JSON value.  Every character read lowers the bound
by at most two, so the bound is never reached. -/
def read? (text : Text) : Option Json := do
  let (value, rest) ← readValue (2 * text.length + 2) text
  if (dropSpaces rest).isEmpty then some value else none

end LatexTabular.Json
