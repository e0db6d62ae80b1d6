import CilWeave.Json.Basic
import CilWeave.Text.Hexadecimal

/-!
Writing data texts, either on one line or with every element and member on a line of its own.
-/

namespace CilWeave.Json

/-- The text of one character of a string. -/
def escape (char : Char) : List Char :=
  if char = '"' then ['\\', '"']
  else if char = '\\' then ['\\', '\\']
  else if char = '\n' then ['\\', 'n']
  else if char = '\r' then ['\\', 'r']
  else if char = '\t' then ['\\', 't']
  else if char = '\x08' then ['\\', 'b']
  else if char = '\x0c' then ['\\', 'f']
  else if char.toNat < 0x20 then '\\' :: 'u' :: (Text.hexPadded 4 char.toNat).toList
  else [char]

def writeString (text : String) : String := String.ofList ('"' :: text.toList.flatMap escape ++ ['"'])

def writeScalar : Json → String
  | .null => "null"
  | .bool true => "true"
  | .bool false => "false"
  | .number numeral => numeral
  | .string text => writeString text
  | .array _ => "[]"
  | .object _ => "\x7b\x7d"
  | .textless => "\"\\ufffd\""

mutual

/-- The text without any blanks. -/
def compact : Json → String
  | .array elements => "[" ++ ",".intercalate (compactAll elements) ++ "]"
  | .object members => "\x7b" ++ ",".intercalate (compactMembers members) ++ "\x7d"
  | json => writeScalar json

def compactAll : List Json → List String
  | [] => []
  | json :: rest => compact json :: compactAll rest

def compactMembers : List (String × Json) → List String
  | [] => []
  | (name, json) :: rest => (writeString name ++ ":" ++ compact json) :: compactMembers rest

end

/-- A new line at the given depth. -/
def newLine (depth : Nat) : String := "\n" ++ String.ofList (List.replicate (2 * depth) ' ')

mutual

/-- The text with a line for each element and member, indented by two blanks for each level. -/
def indented (depth : Nat) : Json → String
  | .array (first :: rest) =>
    "[" ++ newLine (depth + 1) ++
      ("," ++ newLine (depth + 1)).intercalate (indentedAll (depth + 1) (first :: rest)) ++ newLine depth ++ "]"
  | .object (first :: rest) =>
    "\x7b" ++ newLine (depth + 1) ++
      ("," ++ newLine (depth + 1)).intercalate (indentedMembers (depth + 1) (first :: rest)) ++
      newLine depth ++ "\x7d"
  | json => writeScalar json

def indentedAll (depth : Nat) : List Json → List String
  | [] => []
  | json :: rest => indented depth json :: indentedAll depth rest

def indentedMembers (depth : Nat) : List (String × Json) → List String
  | [] => []
  | (name, json) :: rest => (writeString name ++ ": " ++ indented depth json) :: indentedMembers depth rest

end

def pretty (json : Json) : String := indented 0 json

end CilWeave.Json
