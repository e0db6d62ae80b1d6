import CilWeave.Decimal.Numeral

/-!
Signatures: references to types, and the types, methods and fields that instructions and members
mention. Two signatures are the same only if they agree in every part, scopes included; their full
names leave scopes out.
-/

namespace CilWeave

/-- A type named by its namespace and name, with the assembly it is looked up in. A reference
without a scope is local to the module that holds it. -/
structure TypeRef where
  scope : Option String
  space : String
  name : String
deriving DecidableEq, Inhabited

/-- The types with a name of their own in every signature. -/
inductive Primitive where
  | void | boolean | char
  | int8 | uint8 | int16 | uint16 | int32 | uint32 | int64 | uint64
  | single | double
  | string | object
  | intPtr | uintPtr
deriving DecidableEq, Inhabited

inductive TypeSig where
  | primitive (kind : Primitive)
  | classType (reference : TypeRef)
  | valueType (reference : TypeRef)
  | generic (reference : TypeRef) (arguments : List TypeSig)
  | byRef (target : TypeSig)
  | array (element : TypeSig)
  | typeParam (index : UInt32)
  | methodParam (index : UInt32)
deriving Inhabited

namespace TypeSig

mutual

/-- Agreement in every part. -/
def same : TypeSig → TypeSig → Bool
  | .primitive left, .primitive right => left == right
  | .classType left, .classType right => left == right
  | .valueType left, .valueType right => left == right
  | .generic left arguments, .generic right others => left == right && sameAll arguments others
  | .byRef left, .byRef right => same left right
  | .array left, .array right => same left right
  | .typeParam left, .typeParam right => left == right
  | .methodParam left, .methodParam right => left == right
  | _, _ => false

def sameAll : List TypeSig → List TypeSig → Bool
  | [], [] => true
  | left :: lefts, right :: rights => same left right && sameAll lefts rights
  | _, _ => false

end

mutual

theorem same_iff (left right : TypeSig) : same left right = true ↔ left = right := by
  cases left <;> cases right <;> simp [same, same_iff, sameAll_iff]

theorem sameAll_iff (lefts rights : List TypeSig) : sameAll lefts rights = true ↔ lefts = rights := by
  cases lefts <;> cases rights <;> simp [sameAll, same_iff, sameAll_iff]

end

instance : DecidableEq TypeSig := fun left right => decidable_of_iff _ (same_iff left right)

end TypeSig

/-- A method as an instruction names it. -/
structure MethodRef where
  declaring : TypeSig
  name : String
  returns : TypeSig
  params : List TypeSig
  hasThis : Bool
deriving DecidableEq, Inhabited

/-- A field as an instruction names it. -/
structure FieldRef where
  declaring : TypeSig
  name : String
  type : TypeSig
deriving DecidableEq, Inhabited

def Primitive.name : Primitive → String
  | .void => "System.Void"
  | .boolean => "System.Boolean"
  | .char => "System.Char"
  | .int8 => "System.SByte"
  | .uint8 => "System.Byte"
  | .int16 => "System.Int16"
  | .uint16 => "System.UInt16"
  | .int32 => "System.Int32"
  | .uint32 => "System.UInt32"
  | .int64 => "System.Int64"
  | .uint64 => "System.UInt64"
  | .single => "System.Single"
  | .double => "System.Double"
  | .string => "System.String"
  | .object => "System.Object"
  | .intPtr => "System.IntPtr"
  | .uintPtr => "System.UIntPtr"

def Primitive.all : List Primitive :=
  [.void, .boolean, .char, .int8, .uint8, .int16, .uint16, .int32, .uint32, .int64, .uint64,
   .single, .double, .string, .object, .intPtr, .uintPtr]

def Primitive.ofName? (name : String) : Option Primitive :=
  Primitive.all.find? fun kind => kind.name == name

namespace TypeRef

/-- A reference local to the module that holds it. -/
def here (space name : String) : TypeRef := ⟨none, space, name⟩

def external (scope space name : String) : TypeRef := ⟨some scope, space, name⟩

def fullName (reference : TypeRef) : String :=
  if reference.space.isEmpty then reference.name else reference.space ++ "." ++ reference.name

def withScope (reference : TypeRef) (scope : Option String) : TypeRef := { reference with scope }

end TypeRef

namespace TypeSig

variable (rename : TypeRef → TypeRef)

abbrev void : TypeSig := .primitive .void

def isVoid : TypeSig → Bool
  | .primitive .void => true
  | _ => false

/-- The type reference at the head of a class, value type or generic instance. -/
def reference? : TypeSig → Option TypeRef
  | .classType reference | .valueType reference | .generic reference _ => some reference
  | _ => none

def arguments : TypeSig → List TypeSig
  | .generic _ arguments => arguments
  | _ => []

mutual

/-- Renames every type reference of a signature, from left to right. -/
def mapRefs : TypeSig → TypeSig
  | .classType reference => .classType (rename reference)
  | .valueType reference => .valueType (rename reference)
  | .generic reference arguments => .generic (rename reference) (mapRefsAll arguments)
  | .byRef target => .byRef (mapRefs target)
  | .array element => .array (mapRefs element)
  | .primitive kind => .primitive kind
  | .typeParam index => .typeParam index
  | .methodParam index => .methodParam index

def mapRefsAll : List TypeSig → List TypeSig
  | [] => []
  | sig :: rest => mapRefs sig :: mapRefsAll rest

end

mutual

/-- The type references of a signature, from left to right. -/
def refs : TypeSig → List TypeRef
  | .classType reference | .valueType reference => [reference]
  | .generic reference arguments => reference :: refsAll arguments
  | .byRef target => refs target
  | .array element => refs element
  | .primitive _ | .typeParam _ | .methodParam _ => []

def refsAll : List TypeSig → List TypeRef
  | [] => []
  | sig :: rest => refs sig ++ refsAll rest

end

mutual

/-- Puts the arguments of a generic type in the place of its parameters; a parameter without an
argument stays. -/
def instantiate (supplied : List TypeSig) : TypeSig → TypeSig
  | .typeParam index => (supplied[index.toNat]?).getD (.typeParam index)
  | .generic reference arguments => .generic reference (instantiateAll supplied arguments)
  | .byRef target => .byRef (instantiate supplied target)
  | .array element => .array (instantiate supplied element)
  | .classType reference => .classType reference
  | .valueType reference => .valueType reference
  | .primitive kind => .primitive kind
  | .methodParam index => .methodParam index

def instantiateAll (supplied : List TypeSig) : List TypeSig → List TypeSig
  | [] => []
  | sig :: rest => instantiate supplied sig :: instantiateAll supplied rest

end

mutual

def fullName : TypeSig → String
  | .primitive kind => kind.name
  | .classType reference | .valueType reference => reference.fullName
  | .generic reference arguments =>
    reference.fullName ++ "<" ++ ",".intercalate (fullNames arguments) ++ ">"
  | .byRef target => fullName target ++ "&"
  | .array element => fullName element ++ "[]"
  | .typeParam index => "!" ++ Decimal.digitText index.toNat
  | .methodParam index => "!!" ++ Decimal.digitText index.toNat

def fullNames : List TypeSig → List String
  | [] => []
  | sig :: rest => fullName sig :: fullNames rest

end

/-- Full names of a parameter list, separated by commas. -/
def joinNames (params : List TypeSig) : String := ",".intercalate (fullNames params)

theorem mapRefsAll_eq_map (sigs : List TypeSig) : mapRefsAll rename sigs = sigs.map (mapRefs rename) := by
  induction sigs with
  | nil => rfl
  | cons sig rest ih => rw [mapRefsAll, ih, List.map_cons]

theorem refsAll_eq_flatMap (sigs : List TypeSig) : refsAll sigs = sigs.flatMap refs := by
  induction sigs with
  | nil => rfl
  | cons sig rest ih => rw [refsAll, ih, List.flatMap_cons]

theorem fullNames_eq_map (sigs : List TypeSig) : fullNames sigs = sigs.map fullName := by
  induction sigs with
  | nil => rfl
  | cons sig rest ih => rw [fullNames, ih, List.map_cons]

end TypeSig

namespace MethodRef

variable (method : MethodRef) (rename : TypeRef → TypeRef)

/-- The return type with the declaring type's arguments put in. -/
def resolvedReturn : TypeSig := method.returns.instantiate method.declaring.arguments

def mapRefs : MethodRef :=
  { method with
    declaring := method.declaring.mapRefs rename
    returns := method.returns.mapRefs rename
    params := TypeSig.mapRefsAll rename method.params }

def refs : List TypeRef := method.declaring.refs ++ method.returns.refs ++ TypeSig.refsAll method.params

def onInstance (declaring : TypeSig) (name : String) (returns : TypeSig) (params : List TypeSig) : MethodRef :=
  ⟨declaring, name, returns, params, true⟩

end MethodRef

/-- The full name shared by method definitions and references. -/
def memberName (returns : TypeSig) (declaring name : String) (params : List TypeSig) : String :=
  returns.fullName ++ " " ++ declaring ++ "::" ++ name ++ "(" ++ TypeSig.joinNames params ++ ")"

def MethodRef.fullName (method : MethodRef) : String :=
  memberName method.returns method.declaring.fullName method.name method.params

namespace FieldRef

variable (field : FieldRef) (rename : TypeRef → TypeRef)

def fullName : String := field.type.fullName ++ " " ++ field.declaring.fullName ++ "::" ++ field.name

def mapRefs : FieldRef :=
  { field with declaring := field.declaring.mapRefs rename, type := field.type.mapRefs rename }

def refs : List TypeRef := field.declaring.refs ++ field.type.refs

end FieldRef

end CilWeave
