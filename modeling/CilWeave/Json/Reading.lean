import CilWeave.Json.Basic
import CilWeave.Json.Numeral
import CilWeave.Text.Hexadecimal

/-!
Reading data texts. Each reader takes a part from the front of the text and tells what is left. The
form is strict: no control characters in strings, and nothing after the value but blanks. A string
with an unpaired surrogate is read as one that stands for no text.
-/

namespace CilWeave.Json

def isSpace (char : Char) : Bool := char = ' ' || char = '\n' || char = '\t' || char = '\r'

def skipSpace (text : List Char) : List Char := text.dropWhile isSpace

/-- The 16-bit unit that four digits stand for. -/
def unit? (first second third fourth : Char) : Option Nat := Text.hexValue? [first, second, third, fourth]

/-- The character of a unit that is not half of a pair. -/
def charOfUnit? (unit : Nat) : Option Char :=
  if 0xD800 ≤ unit ∧ unit ≤ 0xDFFF then none else some (Char.ofNat unit)

/-- The character of a pair of units. -/
def charOfPair? (high low : Nat) : Option Char :=
  if 0xD800 ≤ high ∧ high ≤ 0xDBFF ∧ 0xDC00 ≤ low ∧ low ≤ 0xDFFF then
    some (Char.ofNat (0x10000 + (high - 0xD800) * 0x400 + (low - 0xDC00)))
  else none

def unescape? : Char → Option Char
  | '"' => some '"'
  | '\\' => some '\\'
  | '/' => some '/'
  | 'b' => some '\x08'
  | 'f' => some '\x0c'
  | 'n' => some '\n'
  | 'r' => some '\r'
  | 't' => some '\t'
  | _ => none

/-- The content of a string after its opening quote, with what was read before in reverse. Neither has
a text once a surrogate was found that is not in a pair. -/
def readString? (read : Option (List Char)) : List Char → Option (Option String × List Char)
  | [] => none
  | '"' :: rest => some (read.map fun read => String.ofList read.reverse, rest)
  | '\\' :: 'u' :: a :: b :: c :: d :: '\\' :: 'u' :: e :: f :: g :: h :: rest => do
    let first ← unit? a b c d
    match charOfUnit? first with
    | some char => readString? (read.map (char :: ·)) ('\\' :: 'u' :: e :: f :: g :: h :: rest)
    | none =>
      match charOfPair? first (← unit? e f g h) with
      | some char => readString? (read.map (char :: ·)) rest
      | none => readString? none ('\\' :: 'u' :: e :: f :: g :: h :: rest)
  | '\\' :: 'u' :: a :: b :: c :: d :: rest => do
    match charOfUnit? (← unit? a b c d) with
    | some char => readString? (read.map (char :: ·)) rest
    | none => readString? none rest
  | '\\' :: mark :: rest => do
    let char ← unescape? mark
    readString? (read.map (char :: ·)) rest
  | char :: rest =>
    if char.toNat < 0x20 ∨ char = '\\' then none else readString? (read.map (char :: ·)) rest

def ofText : Option String → Json
  | some text => .string text
  | none => .textless

/-- An object whose names all have a text. -/
def ofMembers (members : List (Option String × Json)) : Json :=
  match members.mapM fun (name, value) => name.map fun name => (name, value) with
  | some members => .object members
  | none => .textless

def readNumber? (text : List Char) : Option (Json × List Char) :=
  let numeral := text.takeWhile Numeral.isNumeralChar
  match Numeral.read? numeral with
  | some _ => some (.number (String.ofList numeral), text.dropWhile Numeral.isNumeralChar)
  | none => none

mutual

/-- A value; the bound is the length of the text. -/
def readValue? : (bound : Nat) → List Char → Option (Json × List Char)
  | 0, _ => none
  | bound + 1, text =>
    match skipSpace text with
    | 'n' :: 'u' :: 'l' :: 'l' :: rest => some (.null, rest)
    | 't' :: 'r' :: 'u' :: 'e' :: rest => some (.bool true, rest)
    | 'f' :: 'a' :: 'l' :: 's' :: 'e' :: rest => some (.bool false, rest)
    | '"' :: rest => (readString? (some []) rest).map fun (text, rest) => (ofText text, rest)
    | '[' :: rest =>
      match skipSpace rest with
      | ']' :: rest => some (.array [], rest)
      | _ => (readElements? bound rest []).map fun (elements, rest) => (.array elements, rest)
    | '\x7b' :: rest =>
      match skipSpace rest with
      | '\x7d' :: rest => some (.object [], rest)
      | _ => (readMembers? bound rest []).map fun (members, rest) => (ofMembers members, rest)
    | text => readNumber? text

/-- The elements of an array after its opening bracket, with those read before in reverse. -/
def readElements? : (bound : Nat) → List Char → List Json → Option (List Json × List Char)
  | 0, _, _ => none
  | bound + 1, text, read => do
    let (element, rest) ← readValue? bound text
    match skipSpace rest with
    | ',' :: rest => readElements? bound rest (element :: read)
    | ']' :: rest => some ((element :: read).reverse, rest)
    | _ => none

/-- The members of an object after its opening brace, with those read before in reverse. -/
def readMembers? :
    (bound : Nat) → List Char → List (Option String × Json) → Option (List (Option String × Json) × List Char)
  | 0, _, _ => none
  | bound + 1, text, read =>
    match skipSpace text with
    | '"' :: rest => do
      let (name, rest) ← readString? (some []) rest
      match skipSpace rest with
      | ':' :: rest =>
        let (value, rest) ← readValue? bound rest
        match skipSpace rest with
        | ',' :: rest => readMembers? bound rest ((name, value) :: read)
        | '\x7d' :: rest => some (((name, value) :: read).reverse, rest)
        | _ => none
      | _ => none
    | _ => none

end

/-- Reads a whole text. -/
def read? (text : String) : Option Json := do
  let (json, rest) ← readValue? (text.length + 1) text.toList
  if (skipSpace rest).isEmpty then some json else none

end CilWeave.Json
