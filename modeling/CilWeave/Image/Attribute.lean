import CilWeave.Attribute.Value
import CilWeave.Image.Signature

/-!
Images of attributes and their values.
-/

namespace CilWeave

open Image

namespace Argument

mutual

def write (spelling : NumberSpelling) : Argument → Json
  | .bool value => .tagged "Bool" (Image.write spelling value)
  | .char value => .tagged "Char" (Image.write spelling value)
  | .int8 value => .tagged "I1" (Image.write spelling value)
  | .uint8 value => .tagged "U1" (Image.write spelling value)
  | .int16 value => .tagged "I2" (Image.write spelling value)
  | .uint16 value => .tagged "U2" (Image.write spelling value)
  | .int32 value => .tagged "I4" (Image.write spelling value)
  | .uint32 value => .tagged "U4" (Image.write spelling value)
  | .int64 value => .tagged "I8" (Image.write spelling value)
  | .uint64 value => .tagged "U8" (Image.write spelling value)
  | .single value => .tagged "R4" (Image.write spelling value)
  | .double value => .tagged "R8" (Image.write spelling value)
  | .string text => .tagged "String" (Image.write spelling text)
  | .type name => .tagged "Type" (Image.write spelling name)
  | .array none => .tagged "Array" .null
  | .array (some elements) => .tagged "Array" (.array (writeAll spelling elements))
  | .enum typeName value => .tagged "Enum" (.array [Image.write spelling typeName, write spelling value])

def writeAll (spelling : NumberSpelling) : List Argument → List Json
  | [] => []
  | argument :: rest => write spelling argument :: writeAll spelling rest

end

/-- Reads an argument. The room bounds how deeply arguments nest. -/
def read? : (room : Nat) → Json → Option Argument
  | room + 1, .object [(tag, content)] =>
    match tag with
    | "Bool" => (Image.read? room content).map .bool
    | "Char" => (Image.read? room content).map .char
    | "I1" => (Image.read? room content).map .int8
    | "U1" => (Image.read? room content).map .uint8
    | "I2" => (Image.read? room content).map .int16
    | "U2" => (Image.read? room content).map .uint16
    | "I4" => (Image.read? room content).map .int32
    | "U4" => (Image.read? room content).map .uint32
    | "I8" => (Image.read? room content).map .int64
    | "U8" => (Image.read? room content).map .uint64
    | "R4" => (Image.read? room content).map .single
    | "R8" => (Image.read? room content).map .double
    | "String" => (Image.read? room content).map .string
    | "Type" => (Image.read? room content).map .type
    | "Array" =>
      match room, content with
      | _, .null => some (.array none)
      | inner + 1, .array elements => (elements.mapM (read? inner)).map fun elements => .array (some elements)
      | _, _ => none
    | "Enum" =>
      match room, content with
      | inner + 1, .array [typeName, value] => do
        return .enum (← Image.read? inner typeName) (← read? inner value)
      | _, _ => none
    | _ => none
  | _, _ => none

end Argument

instance : Image Argument := ⟨Argument.write, Argument.read?⟩

instance : Image NamedArgument where
  write spelling argument := record
    [member spelling "is_field" argument.isField,
     member spelling "name" argument.name,
     member spelling "arg_type" argument.tag,
     member spelling "value" argument.value]
  read? room json := do
    match ← fields? ["is_field", "name", "arg_type", "value"] room json with
    | (room, [isField, name, tag, value]) =>
      return ⟨← required? room isField, ← required? room name, ← required? room tag, ← required? room value⟩
    | _ => none

instance : Image AttributeValue where
  write spelling value := record
    [member spelling "fixed_args" value.fixed,
     member spelling "named_args" value.named]
  read? room json := do
    match ← fields? ["fixed_args", "named_args"] room json with
    | (room, [fixed, named]) => return ⟨← required? room fixed, ← required? room named⟩
    | _ => none

instance : Image AttributeData where
  write spelling
    | .raw bytes => .tagged "Raw" (write spelling bytes)
    | .decoded value => .tagged "Decoded" (write spelling value)
  read? room json := do
    match ← tagged? room json with
    | ("Raw", some content, room) => (read? room content).map .raw
    | ("Decoded", some content, room) => (read? room content).map .decoded
    | _ => none

instance : Image Attribute where
  write spelling given := record
    [member spelling "constructor" given.constructor,
     member spelling "data" given.data]
  read? room json := do
    match ← fields? ["constructor", "data"] room json with
    | (room, [constructor, data]) => return ⟨← required? room constructor, ← required? room data⟩
    | _ => none

end CilWeave
