import CilWeave.Image.Basic
import CilWeave.Signature.Describe

/-!
Images of signatures.
-/

namespace CilWeave

open Image

instance : Image TypeRef where
  write spelling reference := record
    [memberIfSome spelling "scope" reference.scope,
     member spelling "namespace" reference.space,
     member spelling "name" reference.name]
  read? room json := do
    match ← fields? ["scope", "namespace", "name"] room json with
    | (room, [scope, space, name]) =>
      return ⟨← orElse? room none scope, ← required? room space, ← required? room name⟩
    | _ => none

def Primitive.ofTag? (tag : String) : Option Primitive := Primitive.all.find? fun kind => kind.tag == tag

namespace TypeSig

mutual

def write (spelling : NumberSpelling) : TypeSig → Json
  | .primitive kind => .string kind.tag
  | .classType reference => .tagged "Class" (Image.write spelling reference)
  | .valueType reference => .tagged "ValueType" (Image.write spelling reference)
  | .generic reference arguments =>
    .tagged "GenericInst" (.array [Image.write spelling reference, .array (writeAll spelling arguments)])
  | .byRef target => .tagged "ByRef" (write spelling target)
  | .array element => .tagged "SzArray" (write spelling element)
  | .typeParam index => .tagged "GenericParamType" (Image.write spelling index)
  | .methodParam index => .tagged "GenericParamMethod" (Image.write spelling index)

def writeAll (spelling : NumberSpelling) : List TypeSig → List Json
  | [] => []
  | sig :: rest => write spelling sig :: writeAll spelling rest

end

/-- Reads a signature. The room bounds how deeply signatures nest. -/
def read? : (room : Nat) → Json → Option TypeSig
  | _, .string tag => (Primitive.ofTag? tag).map .primitive
  | room + 1, .object [(tag, content)] =>
    match tag with
    | "Class" => (Image.read? room content).map .classType
    | "ValueType" => (Image.read? room content).map .valueType
    | "ByRef" => (read? room content).map .byRef
    | "SzArray" => (read? room content).map .array
    | "GenericParamType" => (Image.read? room content).map .typeParam
    | "GenericParamMethod" => (Image.read? room content).map .methodParam
    | "GenericInst" =>
      match room, content with
      | inner + 2, .array [reference, .array arguments] => do
        return .generic (← Image.read? (inner + 1) reference) (← arguments.mapM (read? inner))
      | _, _ => none
    | tag => if isNothing (some content) then (Primitive.ofTag? tag).map .primitive else none
  | _, _ => none

end TypeSig

instance : Image TypeSig := ⟨TypeSig.write, TypeSig.read?⟩

instance : Image MethodRef where
  write spelling method := record
    [member spelling "declaring_type" method.declaring,
     member spelling "name" method.name,
     member spelling "return_type" method.returns,
     member spelling "params" method.params,
     member spelling "has_this" method.hasThis]
  read? room json := do
    match ← fields? ["declaring_type", "name", "return_type", "params", "has_this"] room json with
    | (room, [declaring, name, returns, params, hasThis]) =>
      return ⟨← required? room declaring, ← required? room name, ← required? room returns,
        ← required? room params, ← required? room hasThis⟩
    | _ => none

instance : Image FieldRef where
  write spelling field := record
    [member spelling "declaring_type" field.declaring,
     member spelling "name" field.name,
     member spelling "field_type" field.type]
  read? room json := do
    match ← fields? ["declaring_type", "name", "field_type"] room json with
    | (room, [declaring, name, type]) =>
      return ⟨← required? room declaring, ← required? room name, ← required? room type⟩
    | _ => none

end CilWeave
