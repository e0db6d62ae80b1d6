import CilWeave.Body.Layout

/-!
What a body has to satisfy before anything is done with it, and the faults of bodies that do not.
-/

namespace CilWeave

inductive BodyFault where
  | tooManyLocals
  | noInstruction (id : InstrId)
  | duplicateIds
  | missingTarget (opcode : Opcode) (id target : InstrId)
  | operand (mismatch : OperandMismatch)

def BodyFault.message : BodyFault → String
  | .tooManyLocals => "Too many locals"
  | .noInstruction id => "Instruction " ++ InstrId.text id ++ " not found in body"
  | .duplicateIds => "Duplicate instruction ids in body"
  | .missingTarget opcode id target =>
    opcode.mnemonic ++ " at " ++ InstrId.text id ++ " targets missing instruction " ++ InstrId.text target
  | .operand mismatch => mismatch.message

/-- The kind of a fault, as reports name it. -/
def BodyFault.tag : BodyFault → String
  | .operand _ => OperandMismatch.tag
  | _ => "Malformed"

namespace Body

variable (body : Body)

/-- Indices of locals have to stay below this bound. -/
def maxLocals : Nat := 65535

/-- Adds a local slot and tells its index. -/
def addLocal (type : TypeSig) : Except BodyFault (UInt16 × Body) :=
  if body.locals.size < maxLocals then
    .ok (body.locals.size.toUInt16, { body with locals := body.locals.push type })
  else .error .tooManyLocals

/-- Adds local slots of one type, as many of them as there is room for. -/
def addLocals (type : TypeSig) (count : Nat) : Except BodyFault Unit × Body :=
  let room := maxLocals - body.locals.size
  let added := Array.replicate (min count room) type
  (if count ≤ room then .ok () else .error .tooManyLocals, { body with locals := body.locals ++ added })

/-- Adds an instruction with a fresh identity. The identity is used up even if the operand does not
fit. -/
def push (opcode : Opcode) (operand : Operand) : Except BodyFault InstrId × Body :=
  let (id, body) := body.allocId
  match Instruction.make id opcode operand with
  | .ok instruction => (.ok id, body.append instruction)
  | .error mismatch => (.error (.operand mismatch), body)

def insertBefore (id : InstrId) (sequence : Array Instruction) : Except BodyFault Body :=
  match body.position? id with
  | some position => .ok (body.insertAt position sequence)
  | none => .error (.noInstruction id)

def checkTargets (instruction : Instruction) : Except BodyFault Unit :=
  match instruction.targets.find? fun target => !body.ids.contains target with
  | some target => .error (.missingTarget instruction.opcode instruction.id target)
  | none => .ok ()

def checkInstruction (instruction : Instruction) : Except BodyFault Unit :=
  if instruction.wellFormed then body.checkTargets instruction
  else .error (.operand ⟨instruction.opcode, instruction.operand⟩)

/-- Identities are distinct, operands fit their opcodes, and all targets are in the body. -/
def validate : Except BodyFault Unit :=
  if body.ids.Nodup then body.instructions.toList.forM body.checkInstruction
  else .error .duplicateIds

end Body

end CilWeave
