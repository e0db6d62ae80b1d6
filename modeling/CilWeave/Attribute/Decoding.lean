import CilWeave.Attribute.Value
import CilWeave.Blob.Cursor

/-!
Reading attribute values from their binary form. Arguments by position are read as the constructor's
parameters say; boxed and named arguments carry their type with them.
-/

namespace CilWeave

namespace TypeTag

def bool : UInt8 := 0x02

def text : UInt8 := 0x0E

def array : UInt8 := 0x1D

def type : UInt8 := 0x50

def boxed : UInt8 := 0x51

def enum : UInt8 := 0x55

def field : UInt8 := 0x53

def property : UInt8 := 0x54

end TypeTag

/-- The type that comes with a boxed or named argument. -/
inductive CarriedType where
  | simple (tag : UInt8)
  | enum (name : String)
  | array (element : CarriedType)

/-- The tag that a carried type begins with. -/
def CarriedType.leadingTag : CarriedType → UInt8
  | .simple tag => tag
  | .enum _ => TypeTag.enum
  | .array _ => TypeTag.array

/-- How deeply arguments and carried types may nest. -/
def maxNesting : Nat := 64

namespace AttributeReading

def tooDeep {α : Type} : Read α := throw (.tooDeep maxNesting)

/-- A code unit that is half of a pair stands for the replacement character. -/
def charOfUnit (unit : UInt16) : Char :=
  if (0xD800 ≤ unit ∧ unit ≤ 0xDFFF) then '\uFFFD' else Char.ofNat unit.toNat

/-- A value of a type with a tag of its own, other than a boxed one. -/
def simple (tag : UInt8) : Read Argument := do
  match tag with
  | 0x02 => return .bool ((← Read.uint8) != 0)
  | 0x03 => return .char (charOfUnit (← Read.uint16))
  | 0x04 => return .int8 (← Read.int8)
  | 0x05 => return .uint8 (← Read.uint8)
  | 0x06 => return .int16 (← Read.int16)
  | 0x07 => return .uint16 (← Read.uint16)
  | 0x08 => return .int32 (← Read.int32)
  | 0x09 => return .uint32 (← Read.uint32)
  | 0x0A => return .int64 (← Read.int64)
  | 0x0B => return .uint64 (← Read.uint64)
  | 0x0C => return .single (← Read.single)
  | 0x0D => return .double (← Read.double)
  | 0x0E => return .string (← Read.text?)
  | 0x50 => return .type (← Read.text?)
  | _ => throw (.unsupportedTag tag)

def enumValue (name : String) : Read Argument := do return .enum name (.int32 (← Read.int32))

/-- The length of an array; minus one stands for no array. -/
def arrayLength? : Read (Option Nat) := do
  let length := (← Read.int32).toInt
  if length = -1 then return none
  else if length < 0 then throw (.arrayLength length)
  else if length.toNat > (← get).remaining then throw (.arrayTooLong length.toNat)
  else return some length.toNat

def array (element : Read Argument) : Read Argument := do
  match ← arrayLength? with
  | none => return .array none
  | some length => return .array (some (← Read.times element length))

/-- A carried type, nested at most as deep as there is room. -/
def carriedType : (room : Nat) → Read CarriedType
  | 0 => tooDeep
  | room + 1 => do
    let tag ← Read.uint8
    if tag = TypeTag.enum then
      match ← Read.text? with
      | some name => return .enum name
      | none => throw .unnamedEnum
    else if tag = TypeTag.array then return .array (← carriedType room)
    else if (TypeTag.bool ≤ tag ∧ tag ≤ TypeTag.text) ∨ tag = TypeTag.type ∨ tag = TypeTag.boxed then
      return .simple tag
    else throw (.unsupportedTag tag)

/-- A value of a carried type; a boxed value brings a type of its own. -/
def carried : (room : Nat) → CarriedType → Read Argument
  | 0, _ => tooDeep
  | room + 1, .simple tag =>
    if tag = TypeTag.boxed then do carried room (← carriedType room) else simple tag
  | _ + 1, .enum name => enumValue name
  | room + 1, .array element => array (carried room element)

def boxed (room : Nat) : Read Argument := do carried room (← carriedType room)

/-- The tag of a parameter type that is read by tag alone. -/
def paramTag? : TypeSig → Option UInt8
  | .primitive kind =>
    match kind with
    | .boolean => some 0x02
    | .char => some 0x03
    | .int8 => some 0x04
    | .uint8 => some 0x05
    | .int16 => some 0x06
    | .uint16 => some 0x07
    | .int32 => some 0x08
    | .uint32 => some 0x09
    | .int64 => some 0x0A
    | .uint64 => some 0x0B
    | .single => some 0x0C
    | .double => some 0x0D
    | .string => some 0x0E
    | .void | .object | .intPtr | .uintPtr => none
  | .classType reference => if reference.fullName = "System.Type" then some TypeTag.type else none
  | _ => none

/-- A value of a parameter type. A value type is an enum over 32-bit integers: the binary form tells
nothing more about it. -/
def fixed : (room : Nat) → TypeSig → Read Argument
  | 0, _ => tooDeep
  | room + 1, .array element => array (fixed room element)
  | _ + 1, .valueType reference => enumValue reference.fullName
  | room + 1, sig =>
    if sig = .primitive .object then boxed room
    else
      match paramTag? sig with
      | some tag => simple tag
      | none => throw (.unsupportedParam sig)

def fixedAll : List TypeSig → Read (List Argument)
  | [] => return []
  | param :: params => do
    if (← get).hasMore then
      let argument ← fixed maxNesting param
      let others ← fixedAll params
      return argument :: others
    else throw .missingArguments

def named : Read NamedArgument := do
  let kind ← Read.uint8
  if kind ≠ TypeTag.field ∧ kind ≠ TypeTag.property then throw (.memberKind kind)
  let type ← carriedType maxNesting
  match ← Read.text? with
  | none => throw .unnamedArgument
  | some name => return ⟨kind = TypeTag.field, name, type.leadingTag, ← carried maxNesting type⟩

/-- The named arguments after their count; with fewer than two bytes left there are none. -/
def namedAll : Read (List NamedArgument) := do
  if (← get).remaining < 2 then return []
  else Read.times named (← Read.uint16).toNat

def value (params : List TypeSig) : Read AttributeValue := do
  let prolog ← Read.uint16
  if prolog ≠ 0x0001 then throw (.prolog prolog)
  let fixed ← fixedAll params
  let named ← namedAll
  return ⟨fixed, named⟩

end AttributeReading

/-- Reads an attribute value against the constructor's parameters. No data at all stands for no
arguments. -/
def AttributeValue.decode (data : List UInt8) (params : List TypeSig) : Except BlobFault AttributeValue :=
  if data.isEmpty then .ok ⟨[], []⟩ else ((AttributeReading.value params).run.run (.start data)).1

def Attribute.value (given : Attribute) : Except BlobFault AttributeValue :=
  match given.data with
  | .decoded value => .ok value
  | .raw data => AttributeValue.decode data given.constructor.params

end CilWeave
