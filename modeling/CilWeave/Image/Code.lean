import CilWeave.Body.WellFormed
import CilWeave.Image.Signature

/-!
Images of code: operands, instructions and bodies. A body's counter of fresh identities is not part
of its image.
-/

namespace CilWeave

open Image

instance : Image Opcode where
  write _ opcode := .string opcode.mnemonic
  read?
    | _, .string mnemonic => Opcode.ofMnemonic? mnemonic
    | _, _ => none

instance : Image Immediate where
  write spelling
    | .int8 value => .tagged "Int8" (write spelling value)
    | .int32 value => .tagged "Int32" (write spelling value)
    | .int64 value => .tagged "Int64" (write spelling value)
    | .single value => .tagged "Float32" (write spelling value)
    | .double value => .tagged "Float64" (write spelling value)
  read? room json := do
    match ← tagged? room json with
    | ("Int8", some content, room) => (read? room content).map .int8
    | ("Int32", some content, room) => (read? room content).map .int32
    | ("Int64", some content, room) => (read? room content).map .int64
    | ("Float32", some content, room) => (read? room content).map .single
    | ("Float64", some content, room) => (read? room content).map .double
    | _ => none

instance : Image Operand where
  write spelling
    | .none => .string "None"
    | .immediate value => .tagged "Immediate" (write spelling value)
    | .string text => .tagged "String" (write spelling text)
    | .method reference => .tagged "Method" (write spelling reference)
    | .field reference => .tagged "Field" (write spelling reference)
    | .type sig => .tagged "Type" (write spelling sig)
    | .target id => .tagged "Target" (write spelling id)
    | .switch ids => .tagged "Switch" (write spelling ids)
    | .local index => .tagged "Local" (write spelling index)
    | .argument index => .tagged "Argument" (write spelling index)
  read? room json := do
    match ← tagged? room json with
    | ("None", content, _) => if isNothing content then some .none else none
    | ("Immediate", some content, room) => (read? room content).map .immediate
    | ("String", some content, room) => (read? room content).map .string
    | ("Method", some content, room) => (read? room content).map .method
    | ("Field", some content, room) => (read? room content).map .field
    | ("Type", some content, room) => (read? room content).map .type
    | ("Target", some content, room) => (read? room content).map .target
    | ("Switch", some content, room) => (read? room content).map .switch
    | ("Local", some content, room) => (read? room content).map .local
    | ("Argument", some content, room) => (read? room content).map .argument
    | _ => none

instance : Image Instruction where
  write spelling instruction := record
    [member spelling "id" instruction.id,
     member spelling "opcode" instruction.opcode,
     match instruction.operand with
     | .none => none
     | operand => member spelling "operand" operand]
  read? room json := do
    match ← fields? ["id", "opcode", "operand"] room json with
    | (room, [id, opcode, operand]) =>
      return ⟨← required? room id, ← required? room opcode, ← orElse? room .none operand⟩
    | _ => none

instance : Image Body where
  write spelling body := record
    [member spelling "max_stack" body.maxStack,
     member spelling "init_locals" body.initLocals,
     member spelling "locals" body.locals,
     member spelling "instructions" body.instructions]
  read? room json := do
    match ← fields? ["max_stack", "init_locals", "locals", "instructions"] room json with
    | (room, [maxStack, initLocals, locals, instructions]) =>
      return ⟨← required? room maxStack, ← required? room initLocals, ← required? room locals,
        ← required? room instructions, 0⟩
    | _ => none

end CilWeave
