import CilWeave.Definition.Module
import CilWeave.Mixin.Config
import CilWeave.Signature.Names
import CilWeave.Table

/-!
Moving members from the module of a mixin to the module of its target. References to a mixin type
become references to its target, other references local to the mixin module get its name as scope,
and those scoped to the target module become local. Uses of mapped fields become uses of the fields
they stand for.
-/

namespace CilWeave

/-- Where members come from and go to, and what stands for what. -/
structure Rehoming where
  config : WeaveConfig
  mixinModule : String
  targetModule : String
  mixinType : String
  /-- full names of mixin types and of their targets -/
  types : Table String
  /-- fields of the mixin type and the fields they stand for -/
  fields : Table FieldRef

namespace Rehoming

variable (home : Rehoming)

def isMixinLocal (scope : Option String) : Bool := scope.all (· == home.mixinModule)

def typeRef (reference : TypeRef) : TypeRef :=
  if home.isMixinLocal reference.scope then
    match home.types.get? reference.fullName with
    | some target => .ofFullName none target
    | none => reference.withScope (some home.mixinModule)
  else if reference.scope = some home.targetModule then reference.withScope none
  else reference

/-- The assembly that a moved reference has to be listed for. -/
def assembly? (reference : TypeRef) : Option String :=
  if home.isMixinLocal reference.scope then
    if home.types.contains reference.fullName then none else some home.mixinModule
  else if reference.scope = some home.targetModule then none
  else reference.scope

def sig : TypeSig → TypeSig := TypeSig.mapRefs home.typeRef

def methodRef (method : MethodRef) : MethodRef := method.mapRefs home.typeRef

/-- The field that a field of the mixin type stands for. -/
def mapped? (field : FieldRef) : Option FieldRef := do
  let declaring ← field.declaring.reference?
  if home.isMixinLocal declaring.scope ∧ declaring.fullName = home.mixinType then home.fields.get? field.name
  else none

def fieldRef (field : FieldRef) : FieldRef := (home.mapped? field).getD (field.mapRefs home.typeRef)

def operand : Operand → Operand
  | .method reference => .method (home.methodRef reference)
  | .field reference => .field (home.fieldRef reference)
  | .type sig => .type (home.sig sig)
  | operand => operand

def body (body : Body) : Body :=
  { body with
    locals := body.locals.map home.sig
    instructions := body.instructions.map fun instruction =>
      { instruction with operand := home.operand instruction.operand } }

def isKept (given : Attribute) : Bool :=
  !(home.config.stripAnnotations && home.config.isMarker given.typeName)

def attributes (attributes : List Attribute) : List Attribute :=
  (attributes.filter home.isKept).map fun given =>
    { given with constructor := home.methodRef given.constructor }

def param (param : ParamDef) : ParamDef :=
  ⟨param.name, home.sig param.type, home.attributes param.attributes⟩

def method (method : MethodDef) (name : String) (flags : MethodFlags) : MethodDef :=
  ⟨name, flags, home.sig method.returns, method.params.map home.param, method.body.map home.body,
    home.attributes method.attributes⟩

/-! The references that are looked at when something moves; a mapped field is replaced unseen. -/

def fieldRefs (field : FieldRef) : List TypeRef := if (home.mapped? field).isSome then [] else field.refs

def operandRefs : Operand → List TypeRef
  | .method reference => reference.refs
  | .field reference => home.fieldRefs reference
  | .type sig => sig.refs
  | _ => []

def bodyRefs (body : Body) : List TypeRef :=
  body.locals.toList.flatMap TypeSig.refs ++
    body.instructions.toList.flatMap fun instruction => home.operandRefs instruction.operand

def attributeRefs (attributes : List Attribute) : List TypeRef :=
  (attributes.filter home.isKept).flatMap fun given => given.constructor.refs

def paramRefs (param : ParamDef) : List TypeRef := param.type.refs ++ home.attributeRefs param.attributes

def methodRefs (method : MethodDef) : List TypeRef :=
  method.returns.refs ++ method.params.flatMap home.paramRefs ++
    (method.body.map home.bodyRefs).getD [] ++ home.attributeRefs method.attributes

/-- Puts a name into an ascending list without repeating it. -/
def insertName (name : String) : List String → List String
  | [] => [name]
  | head :: rest =>
    if name = head then head :: rest
    else if name < head then name :: head :: rest
    else head :: insertName name rest

/-- The assemblies of the references looked at, in ascending order and each once. -/
def assemblies (references : List TypeRef) : List String :=
  (references.filterMap home.assembly?).foldl (fun names name => insertName name names) []

end Rehoming

/-- The base name, or the first of the numbered names after it, that is not taken. -/
def uniqueName (base : String) (taken : List String) : String :=
  if taken.contains base then
    let numbered := (List.range (taken.length + 1)).map fun number =>
      base ++ "_" ++ Decimal.digitText (number + 1)
    (numbered.find? fun candidate => !taken.contains candidate).getD base
  else base

end CilWeave
