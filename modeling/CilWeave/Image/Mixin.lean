import CilWeave.Image.Definition
import CilWeave.Json.Reading
import CilWeave.Mixin.Config
import CilWeave.Mixin.Descriptor

/-!
Images of settings and of what mixins ask for. A setting that is not given has its usual value.
-/

namespace CilWeave

open Image

instance : Image WeaveConfig where
  write spelling config := record
    [member spelling "namespace" config.space,
     member spelling "verify_stack" config.verifyStack,
     member spelling "strip_annotations" config.stripAnnotations]
  read? room json := do
    let usual := WeaveConfig.standard
    match ← fields? ["namespace", "verify_stack", "strip_annotations"] room json with
    | (room, [space, verifyStack, stripAnnotations]) =>
      return ⟨← orElse? room usual.space space, ← orElse? room usual.verifyStack verifyStack,
        ← orElse? room usual.stripAnnotations stripAnnotations⟩
    | _ => none

/-- Settings from the text of their image. -/
def WeaveConfig.ofText? (text : String) : Option WeaveConfig := (Json.read? text).bind (read? maxImageDepth)

instance : Image MixinTarget where
  write spelling
    | .type fullName => .tagged "Type" (write spelling fullName)
    | .name fullName => .tagged "Name" (write spelling fullName)
  read? room json := do
    match ← tagged? room json with
    | ("Type", some content, room) => (read? room content).map .type
    | ("Name", some content, room) => (read? room content).map .name
    | _ => none

instance : Image Location where
  write spelling
    | .head => .string "Head"
    | .return => .string "Return"
    | .instruction line => .tagged "Instruction" (write spelling line)
  read? room json := do
    match ← tagged? room json with
    | ("Head", content, _) => if isNothing content then some .head else none
    | ("Return", content, _) => if isNothing content then some .return else none
    | ("Instruction", some content, room) => (read? room content).map .instruction
    | _ => none

instance : Image CancelTarget where
  write spelling
    | .return => .string "Return"
    | .instruction line => .tagged "Instruction" (write spelling line)
  read? room json := do
    match ← tagged? room json with
    | ("Return", content, _) => if isNothing content then some .return else none
    | ("Instruction", some content, room) => (read? room content).map .instruction
    | _ => none

instance : Image CarrierKind where
  write spelling
    | .plain => .string "Plain"
    | .typed value => .tagged "Typed" (write spelling value)
  read? room json := do
    match ← tagged? room json with
    | ("Plain", content, _) => if isNothing content then some .plain else none
    | ("Typed", some content, room) => (read? room content).map .typed
    | _ => none

/-- A local is written with its type. -/
def writeLocalSlot (spelling : NumberSpelling) (index : UInt16) (type : TypeSig) : Json :=
  record [member spelling "index" index, member spelling "local_type" type]

def readLocalSlot? (room : Nat) (json : Json) : Option (UInt16 × TypeSig) := do
  match ← fields? ["index", "local_type"] room json with
  | (room, [index, type]) => return (← required? room index, ← required? room type)
  | _ => none

instance : Image ParamRole where
  write spelling
    | .argument => .string "Argument"
    | .captureLocal index type => .tagged "CaptureLocal" (writeLocalSlot spelling index type)
    | .storeLocal index type => .tagged "StoreLocal" (writeLocalSlot spelling index type)
    | .carrier kind => .tagged "Carrier" (write spelling kind)
  read? room json := do
    match ← tagged? room json with
    | ("Argument", content, _) => if isNothing content then some .argument else none
    | ("CaptureLocal", some content, room) => (readLocalSlot? room content).map fun slot => .captureLocal slot.1 slot.2
    | ("StoreLocal", some content, room) => (readLocalSlot? room content).map fun slot => .storeLocal slot.1 slot.2
    | ("Carrier", some content, room) => (read? room content).map .carrier
    | _ => none

instance : Image InjectDescriptor where
  write spelling descriptor := record
    [member spelling "method_index" descriptor.methodIndex,
     member spelling "method_name" descriptor.methodName,
     member spelling "target_method" descriptor.targetMethod,
     member spelling "location" descriptor.location,
     member spelling "cancellable" descriptor.cancellable,
     member spelling "cancel_target" descriptor.cancelTarget,
     member spelling "expected_injections" descriptor.expected,
     member spelling "params" descriptor.params]
  read? room json := do
    let names := ["method_index", "method_name", "target_method", "location", "cancellable", "cancel_target",
      "expected_injections", "params"]
    match ← fields? names room json with
    | (room, [methodIndex, methodName, targetMethod, location, cancellable, cancelTarget, expected, params]) =>
      return ⟨← required? room methodIndex, ← required? room methodName, ← required? room targetMethod,
        ← required? room location, ← required? room cancellable, ← required? room cancelTarget,
        ← required? room expected, ← required? room params⟩
    | _ => none

instance : Image FieldDescriptor where
  write spelling
    | .capture field target =>
      .tagged "Capture" (record [member spelling "field" field, member spelling "target" target])
    | .add field => .tagged "Add" (record [member spelling "field" field])
  read? room json := do
    match ← tagged? room json with
    | ("Capture", some content, room) =>
      match ← fields? ["field", "target"] room content with
      | (room, [field, target]) => return .capture (← required? room field) (← required? room target)
      | _ => none
    | ("Add", some content, room) =>
      match ← fields? ["field"] room content with
      | (room, [field]) => return .add (← required? room field)
      | _ => none
    | _ => none

instance : Image MixinOp where
  write spelling
    | .implements interface => .tagged "Implements" (record [member spelling "interface" interface])
    | .overwrite methodIndex methodName =>
      .tagged "Overwrite"
        (record [member spelling "method_index" methodIndex, member spelling "method_name" methodName])
    | .inject descriptor => .tagged "Inject" (write spelling descriptor)
  read? room json := do
    match ← tagged? room json with
    | ("Implements", some content, room) =>
      match ← fields? ["interface"] room content with
      | (room, [interface]) => return .implements (← required? room interface)
      | _ => none
    | ("Overwrite", some content, room) =>
      match ← fields? ["method_index", "method_name"] room content with
      | (room, [methodIndex, methodName]) =>
        return .overwrite (← required? room methodIndex) (← required? room methodName)
      | _ => none
    | ("Inject", some content, room) => (read? room content).map .inject
    | _ => none

instance : Image MixinDescriptor where
  write spelling mixin := record
    [member spelling "mixin_type" mixin.mixinType,
     member spelling "target" mixin.target,
     member spelling "priority" mixin.priority,
     member spelling "fields" mixin.fields,
     member spelling "ops" mixin.ops]
  read? room json := do
    match ← fields? ["mixin_type", "target", "priority", "fields", "ops"] room json with
    | (room, [mixinType, target, priority, fields, ops]) =>
      return ⟨← required? room mixinType, ← required? room target, ← required? room priority,
        ← required? room fields, ← required? room ops⟩
    | _ => none

end CilWeave
