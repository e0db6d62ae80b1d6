import CilWeave.Attribute.Value
import CilWeave.Body.Basic
import CilWeave.Definition.Flags

/-!
Definitions: types with their fields and methods, and how members are found by name.
-/

namespace CilWeave

structure FieldDef where
  name : String
  flags : FieldFlags
  type : TypeSig
  attributes : List Attribute
deriving BEq, Inhabited

structure ParamDef where
  name : String
  type : TypeSig
  attributes : List Attribute
deriving BEq, Inhabited

structure MethodDef where
  name : String
  flags : MethodFlags
  returns : TypeSig
  params : List ParamDef
  body : Option Body
  attributes : List Attribute
deriving BEq, Inhabited

structure TypeDef where
  space : String
  name : String
  flags : TypeFlags
  base : Option TypeSig
  interfaces : List TypeSig
  fields : List FieldDef
  methods : List MethodDef
  attributes : List Attribute
deriving BEq, Inhabited

namespace FieldDef

variable (field : FieldDef)

/-- A private field without attributes. -/
def plain (name : String) (type : TypeSig) : FieldDef := ⟨name, ⟨FieldFlags.isPrivate⟩, type, []⟩

def isStatic : Bool := FlagNames.contains field.flags.bits FieldFlags.isStatic

def ref (declaring : TypeSig) : FieldRef := ⟨declaring, field.name, field.type⟩

end FieldDef

namespace MethodDef

variable (method : MethodDef)

def isStatic : Bool := FlagNames.contains method.flags.bits MethodFlags.isStatic

def paramTypes : List TypeSig := method.params.map (·.type)

/-- The full name on a declaring type of the given full name. -/
def fullNameIn (declaring : String) : String :=
  memberName method.returns declaring method.name method.paramTypes

def ref (declaring : TypeSig) : MethodRef :=
  ⟨declaring, method.name, method.returns, method.paramTypes, !method.isStatic⟩

/-- Parameters, and the instance of a method that is not static. -/
def argumentCount : Nat := method.params.length + (!method.isStatic).toNat

end MethodDef

namespace TypeDef

variable (type : TypeDef)

def empty (space name : String) (flags : TypeFlags) (base : Option TypeSig) : TypeDef :=
  ⟨space, name, flags, base, [], [], [], []⟩

def ref : TypeRef := .here type.space type.name

def fullName : String := type.ref.fullName

/-- Types derived from the value or enum base are value types. -/
def sig : TypeSig :=
  let isValue := type.base.any fun base =>
    base.fullName == "System.ValueType" || base.fullName == "System.Enum"
  if isValue then .valueType type.ref else .classType type.ref

def isInterface : Bool := FlagNames.contains type.flags.bits TypeFlags.isInterface

def methodIndex? (fullName : String) : Option Nat :=
  type.methods.findIdx? fun method => method.fullNameIn type.fullName == fullName

def method? (fullName : String) : Option MethodDef :=
  type.methods.find? fun method => method.fullNameIn type.fullName == fullName

def methodByParams? (name : String) (params : List TypeSig) : Option MethodDef :=
  type.methods.find? fun method => method.name == name && method.paramTypes == params

def hasMethodNamed (name : String) : Bool := type.methods.any fun method => method.name == name

def field? (name : String) : Option FieldDef := type.fields.find? fun field => field.name == name

/-- Interfaces are told apart by full name. -/
def implements (interface : TypeSig) : Bool :=
  type.interfaces.any fun listed => listed.fullName == interface.fullName

end TypeDef

end CilWeave
