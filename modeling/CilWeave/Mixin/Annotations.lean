import CilWeave.Definition.Module
import CilWeave.Mixin.Descriptor
import CilWeave.Mixin.Fault
import CilWeave.Signature.Names

/-!
Reading the annotations of a module: each type with a mixin annotation yields a descriptor. An
argument may be given by position or by name; one given by name counts whatever stands at its
position, and one of another kind at its position belongs to something else.
-/

namespace CilWeave

/-- The arguments of an annotation, with what to call it and its owner in messages. -/
structure MarkerArgs where
  value : AttributeValue
  marker : String
  owner : String

namespace MarkerArgs

variable (args : MarkerArgs) (name : String) (position : Option Nat)

def fault (cause : MarkerFault) : WeaveFault := .malformed args.marker args.owner cause

def fixed? : Option Argument := position.bind args.value.fixed?

/-- The argument by that name, or else at that position. -/
def argument? : Option Argument := (args.value.named? name).or (args.fixed? position)

def string? : Except WeaveFault (Option String) :=
  match args.value.named? name with
  | some (.string text) => .ok text
  | some given => .error (args.fault (.wrongKind name .string given))
  | none =>
    match args.fixed? position with
    | some (.string text) => .ok text
    | _ => .ok none

def type? : Except WeaveFault (Option String) :=
  match args.value.named? name with
  | some (.type typeName) => .ok typeName
  | some given => .error (args.fault (.wrongKind name .type given))
  | none =>
    match args.fixed? position with
    | some (.type typeName) => .ok typeName
    | _ => .ok none

def present {α : Type} : Option α → Except WeaveFault α
  | some value => .ok value
  | none => .error (args.fault (.missing name))

def string : Except WeaveFault String := do args.present name (← args.string? name position)

def type : Except WeaveFault String := do args.present name (← args.type? name position)

def bool (missing : Bool) : Except WeaveFault Bool :=
  match args.argument? name position with
  | none => .ok missing
  | some given =>
    match given.bool? with
    | some value => .ok value
    | none => .error (args.fault (.wrongKind name .boolean given))

def ofInteger (given : Argument) : Except WeaveFault Int :=
  match given.integer? with
  | some value => .ok value
  | none => .error (args.fault (.wrongKind name .integer given))

def integer : Except WeaveFault Int := do
  args.ofInteger name (← args.present name (args.argument? name position))

def integerOr (missing : Int) : Except WeaveFault Int :=
  match args.argument? name position with
  | none => .ok missing
  | some given => args.ofInteger name given

/-- The index and type of a local. -/
def localSlot : Except WeaveFault (UInt16 × TypeSig) := do
  let index ← args.integer "Index" (some 0)
  if index < 0 ∨ index ≥ UInt16.size then throw (args.fault (.localIndex index))
  let type ← args.type "Type" (some 1)
  return (index.toNat.toUInt16, TypeSig.ofName type)

end MarkerArgs

namespace WeaveConfig

variable (config : WeaveConfig)

def args (given : Attribute) (marker : Marker) (owner : String) : Except WeaveFault MarkerArgs :=
  let name := config.attributeName marker.name
  match given.value with
  | .ok value => .ok ⟨value, name, owner⟩
  | .error fault => .error (.malformed name owner (.unreadable fault))

/-- The kind of carrier that a parameter type is, if it is one. -/
def carrierKind? : TypeSig → Option CarrierKind
  | .classType reference =>
    if reference.fullName = config.attributeName Marker.plainCarrier then some .plain else none
  | .generic reference [value] =>
    if reference.fullName = config.attributeName Marker.typedCarrier then some (.typed value) else none
  | _ => none

def paramRole (owner : String) (param : ParamDef) : Except WeaveFault ParamRole := do
  let owner := owner ++ "(" ++ param.name ++ ")"
  if let some given := config.marker? param.attributes .captureLocal then
    let args ← config.args given .captureLocal owner
    let (index, type) ← args.localSlot
    if param.type.fullName ≠ type.fullName then throw (args.fault (.capturedType param.type type))
    return .captureLocal index type
  if let some given := config.marker? param.attributes .storeLocal then
    let args ← config.args given .storeLocal owner
    let (index, type) ← args.localSlot
    if param.type.fullName ≠ (TypeSig.byRef type).fullName then
      throw (args.fault (.storedType param.type (.byRef type)))
    return .storeLocal index type
  match config.carrierKind? param.type with
  | some kind => return .carrier kind
  | none => return .argument

def injectDescriptor (owner : String) (index : Nat) (method : MethodDef) (given : Attribute) :
    Except WeaveFault InjectDescriptor := do
  let owner := owner ++ "::" ++ method.name
  let args ← config.args given .inject owner
  let targetMethod ← args.string "Method" (some 0)
  let location := Location.ofText (← args.string "At" (some 1))
  let cancellable ← args.bool "Cancellable" (some 2) false
  let cancelTarget :=
    match ← args.string? "CancelTarget" (some 3) with
    | some text => CancelTarget.ofText text
    | none => CancelTarget.return
  let expected ← args.integerOr "ExpectedInjections" (some 4) 1
  if expected < 0 then throw (args.fault (.negativeCount expected))
  let params ← method.params.mapM (config.paramRole owner)
  return ⟨index, method.name, targetMethod, location, cancellable, cancelTarget, expected.toNat, params⟩

def mixinTarget (owner : String) (args : MarkerArgs) : Except WeaveFault MixinTarget := do
  let type ← args.type? "TargetType" (some 0)
  let name ← args.string? "Target" (some 0)
  match type, name with
  | some type, none => return .type (TypeSig.ofName type).fullName
  | none, some name => return .name name
  | some _, some _ => throw (.configuration owner .twoTargets)
  | none, none => throw (.configuration owner .noTarget)

def mixinPriority (args : MarkerArgs) : Except WeaveFault Int32 := do
  let priority ← args.integerOr "Priority" (some 1) 0
  if priority < Int32.minValue.toInt ∨ priority > Int32.maxValue.toInt then throw (args.fault (.priority priority))
  return priority.toInt32

def fieldDescriptor (owner : String) (field : FieldDef) : Except WeaveFault FieldDescriptor := do
  match config.marker? field.attributes .captureField with
  | none => return .add field.name
  | some given =>
    let args ← config.args given .captureField (owner ++ "::" ++ field.name)
    match ← args.string? "Field" (some 0) with
    | some target => return .capture field.name target
    | none => return .capture field.name (← args.string "Name" none)

def interfaceOps (owner : String) (type : TypeDef) : Except WeaveFault (List MixinOp) :=
  (config.markers type.attributes .implements).mapM fun given => do
    let args ← config.args given .implements owner
    return .implements (TypeSig.ofName (← args.type "TargetType" (some 0)))

def overwriteOps (type : TypeDef) : List MixinOp :=
  type.methods.zipIdx.filterMap fun (method, index) =>
    (config.marker? method.attributes .overwrite).map fun _ => .overwrite index method.name

def injectOps (owner : String) (type : TypeDef) : Except WeaveFault (List MixinOp) :=
  (type.methods.zipIdx.filterMap fun (method, index) =>
    (config.marker? method.attributes .inject).map fun given => (method, index, given)).mapM
      fun (method, index, given) => return .inject (← config.injectDescriptor owner index method given)

/-- The descriptor of a type that is a mixin. -/
def mixinDescriptor? (type : TypeDef) : Except WeaveFault (Option MixinDescriptor) := do
  match config.marker? type.attributes .mixin with
  | none => return none
  | some given =>
    let owner := type.fullName
    let args ← config.args given .mixin owner
    let target ← mixinTarget owner args
    let priority ← mixinPriority args
    let fields ← type.fields.mapM (config.fieldDescriptor owner)
    let interfaces ← config.interfaceOps owner type
    let injections ← config.injectOps owner type
    return some ⟨owner, target, priority, fields, interfaces ++ config.overwriteOps type ++ injections⟩

/-- The descriptors of a module's mixins, in the order of its types. -/
def mixinDescriptors (module : Module) : Except WeaveFault (List MixinDescriptor) := do
  return (← module.types.mapM config.mixinDescriptor?).filterMap id

end WeaveConfig

end CilWeave
