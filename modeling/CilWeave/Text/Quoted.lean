import CilWeave.Text.Hidden

/-!
Quoted text: how strings and characters are shown inside messages. Characters without a visible form
of their own are written as escapes.
-/

namespace CilWeave.Text

/-- The text of one character between the given quotes. -/
def escape (quote char : Char) : List Char :=
  if char = quote ∨ char = '\\' then ['\\', char]
  else if char = '\n' then ['\\', 'n']
  else if char = '\t' then ['\\', 't']
  else if char = '\r' then ['\\', 'r']
  else if char = '\x00' then ['\\', '0']
  else if isHidden char then
    ['\\', 'u', '\x7b'] ++ Nat.toDigits 16 char.toNat ++ ['\x7d']
  else [char]

def quoted (text : String) : String :=
  String.ofList ('"' :: text.toList.flatMap (escape '"') ++ ['"'])

def quotedChar (char : Char) : String :=
  String.ofList ('\'' :: escape '\'' char ++ ['\''])

/-- A record shown with its field names. -/
def describeRecord (name : String) (fields : List (String × String)) : String :=
  name ++ " \x7b " ++ ", ".intercalate (fields.map fun field => field.1 ++ ": " ++ field.2) ++ " \x7d"

/-- A tagged value shown with its parts. -/
def describeTagged (tag : String) (parts : List String) : String :=
  tag ++ "(" ++ ", ".intercalate parts ++ ")"

def describeList (elements : List String) : String := "[" ++ ", ".intercalate elements ++ "]"

def describeOption : Option String → String
  | none => "None"
  | some text => describeTagged "Some" [text]

def describeBool (value : Bool) : String := if value then "true" else "false"

end CilWeave.Text
