import CilWeave.Definition.Module
import CilWeave.Image.Attribute
import CilWeave.Image.Code

/-!
Images of definitions and modules. Flags are written as text.
-/

namespace CilWeave

open Image

/-- Flags as text over the given names. -/
def readFlags? (names : FlagNames) : Json → Option UInt32
  | .string text => names.read? text
  | _ => none

instance : Image TypeFlags where
  write _ flags := .string (TypeFlags.names.write flags.bits)
  read? _ json := (readFlags? TypeFlags.names json).map TypeFlags.mk

instance : Image FieldFlags where
  write _ flags := .string (FieldFlags.names.write flags.bits)
  read? _ json := (readFlags? FieldFlags.names json).map FieldFlags.mk

instance : Image MethodFlags where
  write _ flags := .string (MethodFlags.names.write flags.bits)
  read? _ json := (readFlags? MethodFlags.names json).map MethodFlags.mk

instance : Image FieldDef where
  write spelling field := record
    [member spelling "name" field.name,
     member spelling "flags" field.flags,
     member spelling "field_type" field.type,
     memberUnlessEmpty spelling "custom_attributes" field.attributes]
  read? room json := do
    match ← fields? ["name", "flags", "field_type", "custom_attributes"] room json with
    | (room, [name, flags, type, attributes]) =>
      return ⟨← required? room name, ← orElse? room ⟨0⟩ flags, ← required? room type,
        ← orElse? room [] attributes⟩
    | _ => none

instance : Image ParamDef where
  write spelling param := record
    [member spelling "name" param.name,
     member spelling "param_type" param.type,
     memberUnlessEmpty spelling "custom_attributes" param.attributes]
  read? room json := do
    match ← fields? ["name", "param_type", "custom_attributes"] room json with
    | (room, [name, type, attributes]) =>
      return ⟨← required? room name, ← required? room type, ← orElse? room [] attributes⟩
    | _ => none

instance : Image MethodDef where
  write spelling method := record
    [member spelling "name" method.name,
     member spelling "flags" method.flags,
     member spelling "return_type" method.returns,
     member spelling "params" method.params,
     memberIfSome spelling "body" method.body,
     memberUnlessEmpty spelling "custom_attributes" method.attributes]
  read? room json := do
    match ← fields? ["name", "flags", "return_type", "params", "body", "custom_attributes"] room json with
    | (room, [name, flags, returns, params, body, attributes]) =>
      return ⟨← required? room name, ← orElse? room ⟨0⟩ flags, ← required? room returns,
        ← orElse? room [] params, ← orElse? room none body, ← orElse? room [] attributes⟩
    | _ => none

instance : Image TypeDef where
  write spelling type := record
    [member spelling "namespace" type.space,
     member spelling "name" type.name,
     member spelling "flags" type.flags,
     memberIfSome spelling "base_type" type.base,
     memberUnlessEmpty spelling "interfaces" type.interfaces,
     member spelling "fields" type.fields,
     member spelling "methods" type.methods,
     memberUnlessEmpty spelling "custom_attributes" type.attributes]
  read? room json := do
    let names := ["namespace", "name", "flags", "base_type", "interfaces", "fields", "methods", "custom_attributes"]
    match ← fields? names room json with
    | (room, [space, name, flags, base, interfaces, fields, methods, attributes]) =>
      return ⟨← required? room space, ← required? room name, ← orElse? room ⟨0⟩ flags,
        ← orElse? room none base, ← orElse? room [] interfaces, ← orElse? room [] fields,
        ← orElse? room [] methods, ← orElse? room [] attributes⟩
    | _ => none

instance : Image Module where
  write spelling module := record
    [member spelling "name" module.name,
     member spelling "assembly_refs" module.assemblyRefs,
     member spelling "types" module.types]
  read? room json := do
    match ← fields? ["name", "assembly_refs", "types"] room json with
    | (room, [name, assemblyRefs, types]) =>
      return ⟨← required? room name, ← orElse? room [] assemblyRefs, ← orElse? room [] types⟩
    | _ => none

end CilWeave
