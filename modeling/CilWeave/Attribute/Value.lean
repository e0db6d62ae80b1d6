import CilWeave.Signature.Describe
import CilWeave.Text.Split

/-!
Attribute values: the arguments an annotation was given, by position and by name.
-/

namespace CilWeave

inductive Argument where
  | bool (value : Bool)
  | char (value : Char)
  | int8 (value : Int8)
  | uint8 (value : UInt8)
  | int16 (value : Int16)
  | uint16 (value : UInt16)
  | int32 (value : Int32)
  | uint32 (value : UInt32)
  | int64 (value : Int64)
  | uint64 (value : UInt64)
  | single (value : Single)
  | double (value : Double)
  | string (text : Option String)
  | type (name : Option String)
  | array (elements : Option (List Argument))
  | enum (typeName : String) (value : Argument)
deriving BEq

instance : Inhabited Argument := ⟨.bool false⟩

/-- An argument for a field or property, with the tag its type was written with. -/
structure NamedArgument where
  isField : Bool
  name : String
  tag : UInt8
  value : Argument
deriving BEq, Inhabited

structure AttributeValue where
  fixed : List Argument
  named : List NamedArgument
deriving BEq, Inhabited

/-- An attribute's arguments, either still in their binary form or taken apart. -/
inductive AttributeData where
  | raw (bytes : List UInt8)
  | decoded (value : AttributeValue)
deriving BEq, Inhabited

structure Attribute where
  constructor : MethodRef
  data : AttributeData
deriving BEq, Inhabited

def Attribute.typeName (given : Attribute) : String := given.constructor.declaring.fullName

namespace AttributeValue

variable (value : AttributeValue) (name : String) (index : Nat)

/-- The first argument of the name, letters compared without regard to case. -/
def named? : Option Argument :=
  (value.named.find? fun argument => Text.sameIgnoringCase argument.name name).map (·.value)

def fixed? : Option Argument := value.fixed[index]?

/-- A named argument goes before one at the position. -/
def namedOrFixed? : Option Argument := (value.named? name).or (value.fixed? index)

end AttributeValue

namespace Argument

def bool? : Argument → Option Bool
  | .bool value => some value
  | _ => none

/-- The number an integer or enum argument stands for, where it fits 64 signed bits. -/
def integer? : Argument → Option Int
  | .int8 value => some value.toInt
  | .uint8 value => some value.toNat
  | .int16 value => some value.toInt
  | .uint16 value => some value.toNat
  | .int32 value => some value.toInt
  | .uint32 value => some value.toNat
  | .int64 value => some value.toInt
  | .uint64 value => if value.toNat < UInt64.size / 2 then some value.toNat else none
  | .enum _ value => integer? value
  | _ => none

def text? : Argument → Option String
  | .string text => text
  | .type name => name
  | _ => none

def typeName? : Argument → Option String
  | .type name => name
  | _ => none

/-- The tag that names an argument's type in binary form. -/
def tag : Argument → UInt8
  | .bool _ => 0x02
  | .char _ => 0x03
  | .int8 _ => 0x04
  | .uint8 _ => 0x05
  | .int16 _ => 0x06
  | .uint16 _ => 0x07
  | .int32 _ => 0x08
  | .uint32 _ => 0x09
  | .int64 _ => 0x0A
  | .uint64 _ => 0x0B
  | .single _ => 0x0C
  | .double _ => 0x0D
  | .string _ => 0x0E
  | .array _ => 0x1D
  | .type _ => 0x50
  | .enum _ _ => 0x55

open Text

mutual

def describe : Argument → String
  | .bool value => describeTagged "Bool" [describeBool value]
  | .char value => describeTagged "Char" [quotedChar value]
  | .int8 value => describeTagged "I1" [Decimal.integerText value.toInt]
  | .uint8 value => describeTagged "U1" [Decimal.digitText value.toNat]
  | .int16 value => describeTagged "I2" [Decimal.integerText value.toInt]
  | .uint16 value => describeTagged "U2" [Decimal.digitText value.toNat]
  | .int32 value => describeTagged "I4" [Decimal.integerText value.toInt]
  | .uint32 value => describeTagged "U4" [Decimal.digitText value.toNat]
  | .int64 value => describeTagged "I8" [Decimal.integerText value.toInt]
  | .uint64 value => describeTagged "U8" [Decimal.digitText value.toNat]
  | .single value => describeTagged "R4" [Decimal.Layout.quoted.single value]
  | .double value => describeTagged "R8" [Decimal.Layout.quoted.double value]
  | .string text => describeTagged "String" [describeOption (text.map quoted)]
  | .type name => describeTagged "Type" [describeOption (name.map quoted)]
  | .array none => describeTagged "Array" [describeOption none]
  | .array (some elements) => describeTagged "Array" [describeOption (some (describeList (describeAll elements)))]
  | .enum typeName value => describeTagged "Enum" [quoted typeName, describe value]

def describeAll : List Argument → List String
  | [] => []
  | argument :: rest => describe argument :: describeAll rest

end

end Argument

end CilWeave
