import CilWeave.Image.Basic
import CilWeave.Machine.Run

/-!
Images of what a machine works with. Its numbers are always written without loss, so an image reads
back as the value it was written for.
-/

namespace CilWeave

open Image

namespace Machine

def readDouble? (text : String) : Option Float :=
  if text = "nan" then some (0.0 / 0.0)
  else (Text.hexValue? text.toList).map fun bits => Float.ofBits bits.toUInt64

/-- The content of a pointer: the depth of a frame and the index of a slot. -/
def readSlot? (room : Nat) (json : Json) : Option (Nat × UInt16) := do
  match json with
  | .array [depth, index] => return (← read? room depth, ← read? room index)
  | _ => none

def writeSlot (depth : Nat) (index : UInt16) : Json := .array [.ofNat depth, .ofNat index.toNat]

instance : Image Value where
  write _
    | .void => .string "Void"
    | .null => .string "Null"
    | .int32 value => .tagged "I32" (.ofInt value.toInt)
    | .int64 value => .tagged "I64" (bitwise.int64 value)
    | .double value => .tagged "F64" (bitwise.double (.ofNumber value))
    | .string text => .tagged "String" (.string text)
    | .object address => .tagged "ObjectRef" (.ofNat address)
    | .localPointer depth index => .tagged "LocalPtr" (writeSlot depth index)
    | .argumentPointer depth index => .tagged "ArgPtr" (writeSlot depth index)
  read? room json := do
    match ← tagged? room json with
    | ("Void", none, _) => some .void
    | ("Null", none, _) => some .null
    | ("I32", some content, room) => (read? room content).map .int32
    | ("I64", some (.string text), _) => text.toInt?.map fun value => .int64 value.toInt64
    | ("F64", some (.string text), _) => (readDouble? text).map .double
    | ("String", some content, room) => (read? room content).map .string
    | ("ObjectRef", some content, room) => (read? room content).map .object
    | ("LocalPtr", some content, room) => (readSlot? room content).map fun slot => .localPointer slot.1 slot.2
    | ("ArgPtr", some content, room) => (readSlot? room content).map fun slot => .argumentPointer slot.1 slot.2
    | _ => none

instance : Image (Carrier Value) where
  write spelling
    | .notCancelled => .string "NotCancelled"
    | .cancelled value => .tagged "Cancelled" (write spelling value)
  read? room json := do
    match ← tagged? room json with
    | ("NotCancelled", none, _) => some .notCancelled
    | ("Cancelled", some content, room) => (read? room content).map .cancelled
    | _ => none

def writeFields (spelling : NumberSpelling) (fields : Table Value) : Json :=
  .object (fields.entries.map fun (name, value) => (name, write spelling value))

def readFields? (room : Nat) : Json → Option (Table Value)
  | .object members => do
    return .ofList (← members.mapM fun (name, content) => return (name, ← read? room content))
  | _ => none

instance : Image HeapObject where
  write spelling
    | .instance typeName fields =>
      .tagged "Instance" (record [member spelling "type_name" typeName, some ("fields", writeFields spelling fields)])
    | .carrier state => .tagged "Carrier" (write spelling state)
    | .array items => .tagged "Array" (write spelling items)
  read? room json := do
    match ← tagged? room json with
    | ("Instance", some content, room) =>
      match ← fields? ["type_name", "fields"] room content with
      | (room, [typeName, some fields]) => return .instance (← required? room typeName) (← readFields? room fields)
      | _ => none
    | ("Carrier", some content, room) => (read? room content).map .carrier
    | ("Array", some content, room) => (read? room content).map .array
    | _ => none

/-- A limit that is not given has its usual value. -/
instance : Image Limits where
  write spelling limits := record
    [member spelling "max_instructions" limits.maxInstructions,
     member spelling "max_call_depth" limits.maxCallDepth]
  read? room json := do
    let usual := Limits.standard
    match ← fields? ["max_instructions", "max_call_depth"] room json with
    | (room, [maxInstructions, maxCallDepth]) =>
      return ⟨← orElse? room usual.maxInstructions maxInstructions, ← orElse? room usual.maxCallDepth maxCallDepth⟩
    | _ => none

end Machine

end CilWeave
