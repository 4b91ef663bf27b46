import LatexTabular.Text.Numeral

/-!
# JSON values

Options and commands are read from JSON, and tables and edits are shown as JSON.
Unsigned numbers that fit a word are kept apart from all others, which have no
meaning here.
-/

namespace LatexTabular

/-- A JSON value.  Members of an object keep their order. -/
inductive Json where
  | null
  | bool (value : Bool)
  /-- An unsigned number that fits a word. -/
  | natural (value : Nat)
  /-- Any other number, as it is written. -/
  | number (literal : Text)
  | string (value : Text)
  | array (elements : List Json)
  | object (members : List (Text × Json))
  /-- A string with an unpaired surrogate, or an object with such a name: it can be
  written in JSON, but no text is its value. -/
  | unpaired
  deriving Repr, Inhabited

namespace Json

/-- The value of the last member of an object with a name. -/
def member? (name : String) : Json → Option Json
  | object members => members.reverse.lookup name.toList
  | _ => none

def asBool? : Json → Option Bool
  | bool value => some value
  | _ => none

def asNatural? : Json → Option Nat
  | natural value => some value
  | _ => none

def asString? : Json → Option Text
  | string value => some value
  | _ => none

def asArray? : Json → Option (List Json)
  | array elements => some elements
  | _ => none

/-- An object with members in the given order. -/
def ofMembers (members : List (String × Json)) : Json :=
  object (members.map fun (name, value) => (name.toList, value))

/-- The name that a JSON value selects from a list of alternatives: a string, or
an object that gives it the value null. -/
def asName? : Json → Option Text
  | string name => some name
  | object [(name, null)] => some name
  | _ => none

end Json

end LatexTabular
