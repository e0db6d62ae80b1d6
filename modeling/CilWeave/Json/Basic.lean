import CilWeave.Decimal.Numeral

/-!
Data texts as trees. Numbers are kept as they are written, and members of an object in the order in
which they are written, whether or not their names repeat. A string may be well formed and yet stand
for no text, because half of a surrogate pair is missing; it can be passed over, but not be used.
-/

namespace CilWeave

inductive Json where
  | null
  | bool (value : Bool)
  | number (numeral : String)
  | string (text : String)
  | array (elements : List Json)
  | object (members : List (String × Json))
  /-- a string that stands for no text, or an object with such a name -/
  | textless
deriving Inhabited

namespace Json

def ofNat (number : Nat) : Json := .number (Decimal.digitText number)

def ofInt (number : Int) : Json := .number (Decimal.integerText number)

def ofOption : Option Json → Json
  | none => .null
  | some json => json

/-- An object with a single member: how a tagged value is written. -/
def tagged (tag : String) (content : Json) : Json := .object [(tag, content)]

end Json

end CilWeave
