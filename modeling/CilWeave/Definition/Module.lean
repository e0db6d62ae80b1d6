import CilWeave.Definition.Basic

/-!
Modules: named collections of types with the assemblies they refer to, and the resolution of
references inside a module.
-/

namespace CilWeave

structure Module where
  name : String
  assemblyRefs : List String
  types : List TypeDef
deriving BEq, Inhabited

/-- A type that a module already has. -/
structure DuplicateType where
  type : String
  module : String

def DuplicateType.message (fault : DuplicateType) : String :=
  "Type " ++ fault.type ++ " already defined in " ++ fault.module

namespace Module

variable (module : Module) (fullName : String)

def empty (name : String) : Module := ⟨name, [], []⟩

def type? : Option TypeDef := module.types.find? fun type => type.fullName == fullName

def typeIndex? : Option Nat := module.types.findIdx? fun type => type.fullName == fullName

/-- Changes the first type of the name. -/
def modifyType (change : TypeDef → TypeDef) : Module :=
  match module.typeIndex? fullName with
  | some index => { module with types := module.types.modify index change }
  | none => module

/-- A type whose name is taken is refused. -/
def addType (type : TypeDef) : Except DuplicateType Module :=
  if (module.typeIndex? type.fullName).isSome then .error ⟨type.fullName, module.name⟩
  else .ok { module with types := module.types ++ [type] }

/-- The module itself is not among its references, and no reference is listed twice. -/
def isKnownAssembly (name : String) : Bool := name == module.name || module.assemblyRefs.contains name

def addAssemblyRef (name : String) : Module :=
  if module.isKnownAssembly name then module
  else { module with assemblyRefs := module.assemblyRefs ++ [name] }

/-- No scope and the module's own name both mean the module. -/
def isLocal (scope : Option String) : Bool := scope.all (· == module.name)

/-- The type that a local reference names. -/
def resolveType? (reference : TypeRef) : Option TypeDef :=
  if module.isLocal reference.scope then module.type? reference.fullName else none

/-- A method definition answers to a reference of the same name, kind, return type and parameters. -/
def answers (method : MethodDef) (reference : MethodRef) : Bool :=
  method.name == reference.name && method.isStatic != reference.hasThis &&
    method.returns == reference.returns && method.paramTypes == reference.params

def resolveMethod? (reference : MethodRef) : Option (TypeDef × MethodDef) := do
  let declaring ← reference.declaring.reference?
  let type ← module.resolveType? declaring
  let method ← type.methods.find? fun method => answers method reference
  return (type, method)

/-- A field definition answers to a reference of the same name. -/
def resolveField? (reference : FieldRef) : Option (TypeDef × FieldDef) := do
  let declaring ← reference.declaring.reference?
  let type ← module.resolveType? declaring
  let field ← type.field? reference.name
  return (type, field)

/-- Full names of the methods that have a body, in order. -/
def methodNames : List String :=
  module.types.flatMap fun type =>
    (type.methods.filter fun method => method.body.isSome).map fun method => method.fullNameIn type.fullName

/-- Every type with its fields and methods, a line each. -/
def summary : String :=
  String.join (module.types.flatMap fun type =>
    (type.fullName ++ "\n") ::
      (type.fields.map fun field => " - " ++ (field.ref type.sig).fullName ++ "\n") ++
      (type.methods.map fun method => " * " ++ method.fullNameIn type.fullName ++ "\n"))

end Module

end CilWeave
