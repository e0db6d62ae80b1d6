import CilWeave.Signature.Basic
import CilWeave.Text.Quoted

/-!
Signatures as messages show them: every constructor and field by name.
-/

namespace CilWeave

open Text

def TypeRef.describe (reference : TypeRef) : String :=
  describeRecord "TypeRef"
    [("scope", describeOption (reference.scope.map quoted)),
     ("namespace", quoted reference.space),
     ("name", quoted reference.name)]

/-- The short name of a primitive, also its name in images. -/
def Primitive.tag : Primitive → String
  | .void => "Void"
  | .boolean => "Boolean"
  | .char => "Char"
  | .int8 => "I1"
  | .uint8 => "U1"
  | .int16 => "I2"
  | .uint16 => "U2"
  | .int32 => "I4"
  | .uint32 => "U4"
  | .int64 => "I8"
  | .uint64 => "U8"
  | .single => "R4"
  | .double => "R8"
  | .string => "String"
  | .object => "Object"
  | .intPtr => "I"
  | .uintPtr => "U"

namespace TypeSig

mutual

def describe : TypeSig → String
  | .primitive kind => kind.tag
  | .classType reference => describeTagged "Class" [reference.describe]
  | .valueType reference => describeTagged "ValueType" [reference.describe]
  | .generic reference arguments =>
    describeTagged "GenericInst" [reference.describe, describeList (describeAll arguments)]
  | .byRef target => describeTagged "ByRef" [describe target]
  | .array element => describeTagged "SzArray" [describe element]
  | .typeParam index => describeTagged "GenericParamType" [Decimal.digitText index.toNat]
  | .methodParam index => describeTagged "GenericParamMethod" [Decimal.digitText index.toNat]

def describeAll : List TypeSig → List String
  | [] => []
  | sig :: rest => describe sig :: describeAll rest

end

end TypeSig

def MethodRef.describe (method : MethodRef) : String :=
  describeRecord "MethodRef"
    [("declaring_type", method.declaring.describe),
     ("name", quoted method.name),
     ("return_type", method.returns.describe),
     ("params", describeList (TypeSig.describeAll method.params)),
     ("has_this", describeBool method.hasThis)]

def FieldRef.describe (field : FieldRef) : String :=
  describeRecord "FieldRef"
    [("declaring_type", field.declaring.describe),
     ("name", quoted field.name),
     ("field_type", field.type.describe)]

end CilWeave
