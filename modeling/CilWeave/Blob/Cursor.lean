import CilWeave.Signature.Basic
import CilWeave.Text.Hexadecimal

/-!
Reading binary data from the front: little-endian numbers, packed lengths and length-prefixed text.
A read of fixed width either takes all its bytes or none. A read made of several parts keeps the
bytes of the parts that succeeded.
-/

namespace CilWeave

/-- Why binary data cannot be read. -/
inductive BlobFault where
  | outOfBounds
  | tooDeep (limit : Nat)
  | packedLength (first : UInt8)
  | notText (offset : Nat)
  | prolog (found : UInt16)
  | missingArguments
  | unsupportedParam (sig : TypeSig)
  | arrayLength (length : Int)
  | arrayTooLong (length : Nat)
  | memberKind (byte : UInt8)
  | unnamedArgument
  | unnamedEnum
  | unsupportedTag (tag : UInt8)

open Decimal Text in
def BlobFault.message : BlobFault → String
  | .outOfBounds => "Out of Bound read would have occurred!"
  | .tooDeep limit => "Maximum nesting depth of " ++ digitText limit ++ " exceeded"
  | .packedLength first => "Invalid compressed uint - " ++ digitText first.toNat
  | .notText offset => "Invalid UTF-8 in SerString at offset " ++ digitText offset
  | .prolog found =>
    "Invalid custom attribute prolog - expected 0x0001, got 0x" ++ upperHexPadded 4 found.toNat
  | .missingArguments => "Not enough data for remaining constructor parameters"
  | .unsupportedParam sig =>
    "Unsupported parameter type in custom attribute constructor: " ++ sig.fullName
  | .arrayLength length => "Invalid array length: " ++ integerText length
  | .arrayTooLong length => "Array length " ++ digitText length ++ " exceeds remaining blob data"
  | .memberKind byte => "Invalid field/property indicator: 0x" ++ upperHexPadded 2 byte.toNat
  | .unnamedArgument => "Named argument without a name"
  | .unnamedEnum => "Enum argument without a type name"
  | .unsupportedTag tag => "Unsupported serialization type tag: 0x" ++ upperHexPadded 2 tag.toNat

/-- The data is of the wrong form, rather than cut short or nested too deeply. -/
def BlobFault.isMalformed : BlobFault → Bool
  | .outOfBounds | .tooDeep _ => false
  | _ => true

/-- The kind of a fault, as reports name it. -/
def BlobFault.tag : BlobFault → String
  | .outOfBounds => "OutOfBounds"
  | .tooDeep _ => "DepthLimitExceeded"
  | _ => "Malformed"

/-- Data that is read from the front, with the number of bytes already taken. -/
structure Cursor where
  position : Nat
  rest : List UInt8

/-- A read; what a failed read took stays taken. -/
abbrev Read := ExceptT BlobFault (StateM Cursor)

/-- The number whose least significant byte comes first. -/
def littleEndian : List UInt8 → Nat
  | [] => 0
  | byte :: rest => byte.toNat + 256 * littleEndian rest

/-- The given number of bytes, least significant first. -/
def littleEndianBytes : (width number : Nat) → List UInt8
  | 0, _ => []
  | width + 1, number => (number % 256).toUInt8 :: littleEndianBytes width (number / 256)

namespace Cursor

def start (data : List UInt8) : Cursor := ⟨0, data⟩

variable (cursor : Cursor)

def remaining : Nat := cursor.rest.length

def length : Nat := cursor.position + cursor.remaining

def hasMore : Bool := !cursor.rest.isEmpty

def advance (count : Nat) : Cursor := ⟨cursor.position + count, cursor.rest.drop count⟩

end Cursor

namespace Read

def peek : Read UInt8 := do
  match (← get).rest with
  | byte :: _ => return byte
  | [] => throw .outOfBounds

def bytes (count : Nat) : Read (List UInt8) := do
  let cursor ← get
  if count ≤ cursor.remaining then
    set (cursor.advance count)
    return cursor.rest.take count
  else throw .outOfBounds

/-- An unsigned number of the given width in bytes. -/
def number (width : Nat) : Read Nat := do return littleEndian (← bytes width)

def uint8 : Read UInt8 := do return (← number 1).toUInt8

def int8 : Read Int8 := do return (← number 1).toUInt8.toInt8

def uint16 : Read UInt16 := do return (← number 2).toUInt16

def int16 : Read Int16 := do return (← number 2).toUInt16.toInt16

def uint32 : Read UInt32 := do return (← number 4).toUInt32

def int32 : Read Int32 := do return (← number 4).toUInt32.toInt32

def uint64 : Read UInt64 := do return (← number 8).toUInt64

def int64 : Read Int64 := do return (← number 8).toUInt64.toInt64

def single : Read Single := do return ⟨← uint32⟩

def double : Read Double := do return ⟨← uint64⟩

/-- A length in one, two or four bytes; the leading bits of the first byte tell which. -/
def packedLength : Read Nat := do
  let first ← uint8
  if first < 0x80 then return first.toNat
  else if first < 0xC0 then
    let second ← uint8
    return (first.toNat - 0x80) * 0x100 + second.toNat
  else if first < 0xE0 then
    let second ← uint8
    let third ← uint8
    let fourth ← uint8
    return (((first.toNat - 0xC0) * 0x100 + second.toNat) * 0x100 + third.toNat) * 0x100 + fourth.toNat
  else throw (.packedLength first)

/-- Text after its packed length; a single `0xFF` stands for no text. -/
def text? : Read (Option String) := do
  if (← peek) = 0xFF then
    modify fun cursor => cursor.advance 1
    return none
  let length ← packedLength
  let content ← bytes length
  match String.fromUTF8? ⟨content.toArray⟩ with
  | some text => return some text
  | none => throw (.notText ((← get).position - length))

/-- The same read several times over. -/
def times {α : Type} (read : Read α) : Nat → Read (List α)
  | 0 => return []
  | count + 1 => do
    let first ← read
    let others ← times read count
    return first :: others

end Read

/-- A packed length; only lengths below `2 ^ 29` can be written. -/
def packedLengthBytes (length : Nat) : List UInt8 :=
  if length < 0x80 then [length.toUInt8]
  else if length < 0x4000 then [(length / 0x100 + 0x80).toUInt8, length.toUInt8]
  else
    [(length / 0x1000000 + 0xC0).toUInt8, (length / 0x10000).toUInt8, (length / 0x100).toUInt8, length.toUInt8]

/-- Text as it is written: its packed length and its bytes, cut at the longest length there is. -/
def textBytes : Option String → List UInt8
  | none => [0xFF]
  | some text =>
    let content := text.toUTF8.data.toList
    let length := min content.length 0x1FFFFFFF
    packedLengthBytes length ++ content.take length

end CilWeave
