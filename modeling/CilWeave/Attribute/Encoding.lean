import CilWeave.Attribute.Decoding

/-!
Writing attribute values in their binary form.
-/

namespace CilWeave

/-- Why an attribute value cannot be written against a constructor. -/
inductive EncodingFault where
  | argumentCount (given taken : Nat)
  | tooManyNamed
  | arrayTooLong
  | mismatch (argument : Argument) (param : TypeSig)

def EncodingFault.message : EncodingFault → String
  | .argumentCount given taken =>
    "Attribute has " ++ Decimal.digitText given ++ " fixed arguments but constructor takes " ++
      Decimal.digitText taken
  | .tooManyNamed => "Too many named arguments"
  | .arrayTooLong => "Array too long"
  | .mismatch argument param =>
    "Argument " ++ argument.describe ++ " does not fit constructor parameter " ++ param.fullName

namespace AttributeWriting

/-- The greatest length of an array. -/
def maxLength : Nat := 0x7FFFFFFF

def absentArray : List UInt8 := [0xFF, 0xFF, 0xFF, 0xFF]

/-- The code unit of a character; one outside the first plane is replaced. -/
def unitOfChar (char : Char) : Nat := if char.toNat ≤ 0xFFFF then char.toNat else 0xFFFD

mutual

/-- The type that goes with a boxed or named argument. An array's is that of its first element; an
array without one is written as holding boxed values. -/
def carriedType : Argument → List UInt8
  | .enum name _ => TypeTag.enum :: textBytes (some name)
  | .array none => [TypeTag.array, TypeTag.boxed]
  | .array (some elements) => TypeTag.array :: elementType elements
  | argument => [argument.tag]

def elementType : List Argument → List UInt8
  | [] => [TypeTag.boxed]
  | first :: _ => carriedType first

end

mutual

/-- A value without its type. -/
def payload : Argument → List UInt8
  | .bool value => [value.toUInt8]
  | .char value => littleEndianBytes 2 (unitOfChar value)
  | .int8 value => [value.toUInt8]
  | .uint8 value => [value]
  | .int16 value => littleEndianBytes 2 value.toUInt16.toNat
  | .uint16 value => littleEndianBytes 2 value.toNat
  | .int32 value => littleEndianBytes 4 value.toUInt32.toNat
  | .uint32 value => littleEndianBytes 4 value.toNat
  | .int64 value => littleEndianBytes 8 value.toUInt64.toNat
  | .uint64 value => littleEndianBytes 8 value.toNat
  | .single value => littleEndianBytes 4 value.bits.toNat
  | .double value => littleEndianBytes 8 value.bits.toNat
  | .string text => textBytes text
  | .type name => textBytes name
  | .enum _ value => payload value
  | .array none => absentArray
  | .array (some elements) =>
    littleEndianBytes 4 (min elements.length maxLength) ++ payloadAll elements

def payloadAll : List Argument → List UInt8
  | [] => []
  | argument :: rest => payload argument ++ payloadAll rest

end

/-- The argument is of the kind that a parameter type is read as. -/
def fits : TypeSig → Argument → Bool
  | .primitive .boolean, .bool _ | .primitive .char, .char _
  | .primitive .int8, .int8 _ | .primitive .uint8, .uint8 _
  | .primitive .int16, .int16 _ | .primitive .uint16, .uint16 _
  | .primitive .int32, .int32 _ | .primitive .uint32, .uint32 _
  | .primitive .int64, .int64 _ | .primitive .uint64, .uint64 _
  | .primitive .single, .single _ | .primitive .double, .double _
  | .primitive .string, .string _ | .classType _, .type _ | .valueType _, .enum _ _ => true
  | _, _ => false

mutual

/-- An argument as its parameter type has it read. -/
def fixed : TypeSig → Argument → Except EncodingFault (List UInt8)
  | .primitive .object, argument => .ok (carriedType argument ++ payload argument)
  | .array _, .array none => .ok absentArray
  | .array element, .array (some elements) =>
    if elements.length ≤ maxLength then
      (fixedAll element elements).map (littleEndianBytes 4 elements.length ++ ·)
    else .error .arrayTooLong
  | param, argument => if fits param argument then .ok (payload argument) else .error (.mismatch argument param)

def fixedAll (element : TypeSig) : List Argument → Except EncodingFault (List UInt8)
  | [] => .ok []
  | argument :: rest =>
    match fixed element argument with
    | .error fault => .error fault
    | .ok first => (fixedAll element rest).map (first ++ ·)

end

def fixedPairs : List (TypeSig × Argument) → Except EncodingFault (List UInt8)
  | [] => .ok []
  | (param, argument) :: rest =>
    match fixed param argument with
    | .error fault => .error fault
    | .ok first => (fixedPairs rest).map (first ++ ·)

def named (argument : NamedArgument) : List UInt8 :=
  (if argument.isField then TypeTag.field else TypeTag.property) :: carriedType argument.value ++
    textBytes (some argument.name) ++ payload argument.value

end AttributeWriting

/-- Writes an attribute value against the constructor's parameters. -/
def AttributeValue.encode (value : AttributeValue) (params : List TypeSig) : Except EncodingFault (List UInt8) := do
  if value.fixed.length ≠ params.length then
    throw (.argumentCount value.fixed.length params.length)
  let fixed ← AttributeWriting.fixedPairs (params.zip value.fixed)
  if value.named.length ≥ UInt16.size then throw .tooManyNamed
  return [0x01, 0x00] ++ fixed ++ littleEndianBytes 2 value.named.length ++
    value.named.flatMap AttributeWriting.named

end CilWeave
