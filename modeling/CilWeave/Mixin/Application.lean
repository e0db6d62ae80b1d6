import CilWeave.Mixin.Annotations
import CilWeave.Mixin.Callback
import CilWeave.Mixin.Locating
import CilWeave.Mixin.Rehoming
import CilWeave.Store.Module

/-!
Applying one mixin to its target type. Fields are mapped first; then interfaces, overwrites and
injections work on a copy of the type, which takes the type's place only if all of them succeed.
-/

namespace CilWeave

/-- What a mixin did to its target. -/
structure AppliedMixin where
  mixinType : String
  targetType : String
  fieldsAdded : Nat
  interfaces : Nat
  overwrites : Nat
  injections : Nat
  /-- full names of the methods that were added or changed, in the order of the work -/
  touched : List String
deriving DecidableEq, Inhabited

/-- The mixin at work and the type it is for. -/
structure MixinContext where
  mixin : MixinDescriptor
  mixinDef : TypeDef
  targetName : String
  targetSig : TypeSig
  home : Rehoming

/-- The target type so far, what was done to it, and the references that were moved along. -/
structure PatchState where
  type : TypeDef
  applied : AppliedMixin
  seen : List TypeRef

namespace PatchState

variable (state : PatchState)

def see (references : List TypeRef) : PatchState := { state with seen := state.seen ++ references }

def touch (name : String) : PatchState :=
  { state with applied := { state.applied with touched := state.applied.touched ++ [name] } }

def addMethod (method : MethodDef) : PatchState :=
  { state with type := { state.type with methods := state.type.methods ++ [method] } }

/-- Adds a method under the full name it has on the type. -/
def addTouched (method : MethodDef) : PatchState :=
  (state.touch (method.fullNameIn state.type.fullName)).addMethod method

def setBody (index : Nat) (body : Body) : PatchState :=
  { state with
    type :=
      { state.type with
        methods := state.type.methods.modify index fun method => { method with body := some body } } }

end PatchState

namespace MixinContext

variable (context : MixinContext) (state : PatchState)

/-- The field of the target that a mixin field stands for, adding it if it is new. -/
def mapField (state : PatchState) (descriptor : FieldDescriptor) : Except WeaveFault (PatchState × String × FieldRef) := do
  let some field := context.mixinDef.field? descriptor.field
    | throw (.descriptor (.noField descriptor.field context.mixin.mixinType))
  match descriptor with
  | .capture _ target =>
    match state.type.field? target with
    | some existing => return (state, field.name, existing.ref context.targetSig)
    | none => throw (.capturedFieldNotFound target context.targetName context.mixin.mixinType)
  | .add name =>
    if (state.type.field? name).isSome then
      throw (.duplicateMember (context.targetName ++ "::" ++ name) context.targetName context.mixin.mixinType)
    let added : FieldDef :=
      ⟨name, field.flags, context.home.sig field.type, context.home.attributes field.attributes⟩
    let extended : PatchState :=
      { state with
        type := { state.type with fields := state.type.fields ++ [added] }
        applied := { state.applied with fieldsAdded := state.applied.fieldsAdded + 1 } }
    return (extended.see (field.type.refs ++ context.home.attributeRefs field.attributes), field.name,
      added.ref context.targetSig)

/-- Maps fields in order; later ones see the fields that earlier ones added. -/
def mapFields : List FieldDescriptor → PatchState → Table FieldRef → Except WeaveFault (PatchState × Table FieldRef)
  | [], state, fields => return (state, fields)
  | descriptor :: rest, state, fields => do
    let (state, name, field) ← context.mapField state descriptor
    mapFields rest state (fields.insert name field)

/-- The method of the mixin for a method of an interface, moved to the target. -/
def portInterfaceMethod (interface : TypeDef) (expected : MethodDef) (state : PatchState) :
    Except WeaveFault (PatchState × MethodDef) := do
  let found := context.mixinDef.methods.find? fun method =>
    method.name == expected.name &&
      TypeSig.joinNames method.paramTypes == TypeSig.joinNames expected.paramTypes
  let some patch := found.filter fun method => method.body.isSome
    | throw (.interfaceMethodMissing (expected.fullNameIn interface.fullName) context.mixin.mixinType)
  let method := context.home.method patch expected.name .interfaceImplementation
  if (state.type.methodByParams? method.name method.paramTypes).isSome then
    throw (.duplicateMember (method.fullNameIn state.type.fullName) context.targetName context.mixin.mixinType)
  return (state.see (context.home.methodRefs patch), method)

/-- The methods for an interface; all of them are found before any is added. -/
def portInterfaceMethods (interface : TypeDef) :
    List MethodDef → PatchState → Except WeaveFault (PatchState × List MethodDef)
  | [], state => return (state, [])
  | expected :: rest, state => do
    let (state, method) ← context.portInterfaceMethod interface expected state
    let (state, methods) ← portInterfaceMethods interface rest state
    return (state, method :: methods)

def applyImplements (sig : TypeSig) (found : Option TypeDef) (state : PatchState) : Except WeaveFault PatchState := do
  let moved := context.home.sig sig
  let some interface := found | throw (.targetNotFound moved.fullName context.mixin.mixinType)
  let (state, methods) ← context.portInterfaceMethods interface
    (interface.methods.filter fun method => !method.isStatic) (state.see sig.refs)
  let state : PatchState :=
    if state.type.implements moved then state
    else
      { state with
        type := { state.type with interfaces := state.type.interfaces ++ [moved] }
        applied := { state.applied with interfaces := state.applied.interfaces + 1 } }
  return methods.foldl PatchState.addTouched state

def patchMethod (index : Nat) : Except WeaveFault MethodDef :=
  match context.mixinDef.methods[index]? with
  | some method => .ok method
  | none => .error (.descriptor (.noMethod index context.mixin.mixinType))

def applyOverwrite (index : Nat) (state : PatchState) : Except WeaveFault PatchState := do
  let patch ← context.patchMethod index
  let params := patch.paramTypes.map context.home.sig
  let name := memberName (context.home.sig patch.returns) context.targetName patch.name params
  let some position := state.type.methodIndex? name
    | throw (.targetMethodNotFound name .overwrite patch.name context.mixin.mixinType)
  if (state.type.methods[position]?).any fun method => method.isStatic != patch.isStatic then
    throw (.configuration context.mixin.mixinType (.overwriteKind patch.name name))
  let some body := patch.body
    | throw (.configuration context.mixin.mixinType (.overwriteWithoutBody patch.name))
  let state := state.see
    (patch.returns.refs ++ patch.paramTypes.flatMap TypeSig.refs ++ context.home.bodyRefs body)
  let state := (state.setBody position (context.home.body body)).touch name
  return { state with applied := { state.applied with overwrites := state.applied.overwrites + 1 } }

/-- Types of the parameters that receive the target's arguments. -/
def plainTypes (types : List TypeSig) (roles : List ParamRole) : List TypeSig :=
  ((types.zip roles).filter fun pair => !pair.2.isSpecial).map (·.1)

/-- The carrier of a cancellable callback is its last parameter; other callbacks have none. -/
def carrier? (patch : MethodDef) (types : List TypeSig) (descriptor : InjectDescriptor) :
    Except WeaveFault (Option (CarrierKind × TypeSig)) :=
  let fault cause := Except.error (.configuration context.mixin.mixinType cause)
  match descriptor.cancellable, descriptor.params.findIdx? ParamRole.isCarrier with
  | false, none => .ok none
  | false, some _ => fault (.carrierUnused patch.name)
  | true, none => fault (.carrierNotLast patch.name)
  | true, some position =>
    match descriptor.params[position]?, types[position]? with
    | some (.carrier kind), some type =>
      if position + 1 = descriptor.params.length then .ok (some (kind, type))
      else fault (.carrierNotLast patch.name)
    | _, _ => fault (.carrierNotLast patch.name)

/-- A plain carrier goes with a method that returns nothing, a typed one with one that returns its
value. -/
def carrierFits (kind : CarrierKind) (returns : TypeSig) : Bool :=
  match kind with
  | .plain => returns.isVoid
  | .typed value => !returns.isVoid && (context.home.sig value).fullName == returns.fullName

/-- Locals that a callback captures or stores have the types it states. -/
def checkLocals (patch : MethodDef) (target : String) (body : Body) : List ParamRole → Except WeaveFault Unit
  | [] => .ok ()
  | role :: roles =>
    match role with
    | .captureLocal index type | .storeLocal index type =>
      let declared := (context.home.sig type).fullName
      let actual := (body.locals[index.toNat]?.map TypeSig.fullName).getD "<absent>"
      if declared = actual then checkLocals patch target body roles
      else .error (.localTypeMismatch index declared actual target patch.name context.mixin.mixinType)
    | _ => checkLocals patch target body roles

/-- What the injected code does when it is cancelled. -/
def cancelAction (patch : MethodDef) (target : String) (body : Body) (returns : TypeSig)
    (cancellable : Bool) (cancelTarget : CancelTarget) : Except WeaveFault CancelAction :=
  match cancellable, cancelTarget with
  | true, .instruction line =>
    match (body.find? line).bind body.spliceId? with
    | some id => .ok (.branch id)
    | none => .error (.cancelTargetNotFound line target patch.name context.mixin.mixinType)
  | _, _ => .ok (.return (!returns.isVoid))

/-- The references that checking a callback's types looks at. -/
def checkedRefs (patch : MethodDef) (carrier : Option (CarrierKind × TypeSig)) (returns : TypeSig)
    (roles : List ParamRole) : List TypeRef :=
  let ofCarrier :=
    match carrier with
    | some (.typed value, _) => if returns.isVoid then [] else value.refs
    | _ => []
  let ofLocal : ParamRole → List TypeRef
    | .captureLocal _ type | .storeLocal _ type => type.refs
    | _ => []
  patch.paramTypes.flatMap TypeSig.refs ++ ofCarrier ++ roles.flatMap ofLocal

/-- Puts the callback in front of one instruction. Branches of the body's own instructions that went
to it go to the injected code instead; branches of injected code stay as they are. -/
def splice (site : CallbackSite) (cancel : CancelAction) (own : List InstrId) (body : Body)
    (point : InstrId) : Except WeaveFault Body := do
  let (code, body) ← (site.build body cancel).mapError WeaveFault.assembler
  match code[0]? with
  | none => return body
  | some first =>
    let (_, retargeted) := body.retargetWhere point first.id own.contains
    (retargeted.insertBefore point code).mapError WeaveFault.body

/-- Everything that has to hold before a callback is injected, and what then is to be done. -/
structure InjectPlan where
  patch : MethodDef
  index : Nat
  hasThis : Bool
  body : Body
  carrier : Option TypeSig
  points : List InstrId
  cancel : CancelAction
  refs : List TypeRef

def planInject (descriptor : InjectDescriptor) (state : PatchState) : Except WeaveFault InjectPlan := do
  let patch ← context.patchMethod descriptor.methodIndex
  let mixin := context.mixin.mixinType
  let target := descriptor.targetMethod
  let notFound := WeaveFault.targetMethodNotFound target .inject patch.name mixin
  let some index := state.type.methodIndex? target | throw notFound
  let some method := state.type.methods[index]? | throw notFound
  let some body := method.body | throw (.configuration mixin (.injectWithoutBody patch.name target))
  if method.isStatic != patch.isStatic then throw (.configuration mixin (.injectKind patch.name target))
  if patch.params.length ≠ descriptor.params.length then
    throw (.descriptor (.roleCount patch.name patch.params.length descriptor.params.length))
  let types := patch.paramTypes.map context.home.sig
  let expected := TypeSig.joinNames method.paramTypes
  let found := TypeSig.joinNames (plainTypes types descriptor.params)
  if expected ≠ found then throw (.signatureMismatch target expected found patch.name mixin)
  let carrier ← context.carrier? patch types descriptor
  if let some (kind, type) := carrier then
    if !context.carrierFits kind method.returns then
      throw (.returnTypeMismatch target method.returns.fullName type.fullName patch.name mixin)
  context.checkLocals patch target body descriptor.params
  let points := body.locate descriptor.location
  if points.length ≠ descriptor.expected then
    throw (.injectionCount descriptor.expected points.length target patch.name mixin)
  let cancel ← context.cancelAction patch target body method.returns carrier.isSome descriptor.cancelTarget
  return ⟨patch, index, !method.isStatic, body, carrier.map (·.2), points, cancel,
    checkedRefs patch carrier method.returns descriptor.params⟩

/-- The local for the carrier, if there is one, added to the body. -/
def addCarrier (body : Body) : Option TypeSig → Except WeaveFault (Option (UInt16 × CarrierMembers) × Body)
  | none => .ok (none, body)
  | some carrier => do
    let members := CarrierMembers.of carrier (context.home.config.attributeName Marker.plainCarrier)
    let (slot, body) ← (body.addLocal members.carrier).mapError WeaveFault.body
    return (some (slot, members), body)

/-- Puts a callback that is on the type by now into the target's body. -/
def spliceCallback (descriptor : InjectDescriptor) (plan : InjectPlan) (callback : MethodDef) (body : Body)
    (state : PatchState) : Except WeaveFault PatchState := do
  let (carrier, body) ← context.addCarrier body plan.carrier
  let site : CallbackSite := ⟨callback.ref context.targetSig, plan.hasThis, descriptor.params, carrier⟩
  let woven ← plan.points.foldlM (splice site plan.cancel plan.body.ids) body
  let state := (state.setBody plan.index woven.relax.2).touch descriptor.targetMethod
  return { state with applied := { state.applied with injections := state.applied.injections + plan.points.length } }

/-- The callback becomes a method of the type first. The target is looked up again then, and has to have kept its body. -/
def applyInject (descriptor : InjectDescriptor) (state : PatchState) : Except WeaveFault PatchState := do
  let plan ← context.planInject descriptor state
  let name := uniqueName (context.mixin.simpleName ++ "_" ++ plan.patch.name) (state.type.methods.map (·.name))
  let callback := context.home.method plan.patch name (.callback plan.patch.isStatic)
  let state := (state.see (plan.refs ++ context.home.methodRefs plan.patch)).addTouched callback
  match (state.type.methods[plan.index]?).bind (·.body) with
  | some body => context.spliceCallback descriptor plan callback body state
  | none => throw (.lostBody descriptor.targetMethod)

end MixinContext

/-- What mixins are applied with: the settings, the module of the mixins, and the targets of all its
mixin types. -/
structure MixinEngine where
  config : WeaveConfig
  mixinModule : Module
  types : Table String
  disk : Disk

namespace MixinEngine

variable (engine : MixinEngine)

/-- The definition of an interface: in the target, in the mixin module, or in another assembly. -/
def resolveInterface (assemblies : Assemblies) (target : Module) (interface : TypeSig) : Option TypeDef × Assemblies :=
  match interface.reference? with
  | none => (none, assemblies)
  | some reference =>
    match (target.resolveType? reference).or (engine.mixinModule.resolveType? reference) with
    | some type => (some type, assemblies)
    | none =>
      match reference.scope with
      | none => ((assemblies.findType? none reference.fullName).map (·.2), assemblies)
      | some scope =>
        match assemblies.resolve engine.disk scope with
        | (.ok module, assemblies) => (module.type? reference.fullName, assemblies)
        | (.error _, assemblies) => (none, assemblies)

def applyOp (context : MixinContext) (target : Module) (assemblies : Assemblies) (state : PatchState) :
    MixinOp → Except WeaveFault PatchState × Assemblies
  | .implements interface =>
    let (found, assemblies) := engine.resolveInterface assemblies target interface
    (context.applyImplements interface found state, assemblies)
  | .overwrite index _ => (context.applyOverwrite index state, assemblies)
  | .inject descriptor => (context.applyInject descriptor state, assemblies)

def applyOps (context : MixinContext) (target : Module) :
    List MixinOp → Assemblies → PatchState → Except WeaveFault PatchState × Assemblies
  | [], assemblies, state => (.ok state, assemblies)
  | op :: ops, assemblies, state =>
    match engine.applyOp context target assemblies state op with
    | (.ok state, assemblies) => applyOps context target ops assemblies state
    | (.error fault, assemblies) => (.error fault, assemblies)

/-- The type a mixin is for, with its position, and the type that the mixin is. -/
def subjects (target : Module) (mixin : MixinDescriptor) : Except WeaveFault (Nat × TypeDef × TypeDef) := do
  let name := mixin.target.fullName
  let notFound := WeaveFault.targetNotFound name mixin.mixinType
  let some index := target.typeIndex? name | throw notFound
  let some type := target.types[index]? | throw notFound
  let some mixinDef := engine.mixinModule.type? mixin.mixinType
    | throw (.descriptor (.noType mixin.mixinType engine.mixinModule.name))
  return (index, type, mixinDef)

/-- The state after the fields are mapped, and the context in which the operations work. -/
def begin (target : Module) (mixin : MixinDescriptor) (type mixinDef : TypeDef) :
    Except WeaveFault (PatchState × MixinContext) := do
  let name := mixin.target.fullName
  let home : Rehoming :=
    ⟨engine.config, engine.mixinModule.name, target.name, mixin.mixinType, engine.types, .empty⟩
  let context : MixinContext := ⟨mixin, mixinDef, name, type.sig, home⟩
  let (state, fields) ← context.mapFields mixin.fields ⟨type, ⟨mixin.mixinType, name, 0, 0, 0, 0, []⟩, []⟩ .empty
  return (state, { context with home := { home with fields } })

/-- Puts the patched type in its place and lists the assemblies it refers to, those of the added
fields first. -/
def finish (target : Module) (index : Nat) (home : Rehoming) (fieldRefs : List TypeRef) (state : PatchState) :
    Module :=
  let names := home.assemblies fieldRefs ++ home.assemblies state.seen
  let listed := names.foldl Module.addAssemblyRef target
  { listed with types := listed.types.set index state.type }

/-- Applies one mixin. A failure leaves the target as it was, but modules loaded on the way stay
known. -/
def apply (target : Module) (mixin : MixinDescriptor) (assemblies : Assemblies) :
    Except WeaveFault (AppliedMixin × Module) × Assemblies :=
  match engine.subjects target mixin with
  | .error fault => (.error fault, assemblies)
  | .ok (index, type, mixinDef) =>
    match engine.begin target mixin type mixinDef with
    | .error fault => (.error fault, assemblies)
    | .ok (mapped, context) =>
      match engine.applyOps context target mixin.ops assemblies { mapped with seen := [] } with
      | (.error fault, assemblies) => (.error fault, assemblies)
      | (.ok state, assemblies) =>
        (.ok (state.applied, finish target index context.home mapped.seen state), assemblies)

end MixinEngine

end CilWeave
