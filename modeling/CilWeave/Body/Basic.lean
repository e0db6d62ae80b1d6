import CilWeave.Instruction

/-!
Method bodies: local slots and a sequence of instructions, with a counter that hands out fresh
instruction identities. The counter is not part of what a body means: two bodies agree whatever
their counters say.
-/

namespace CilWeave

structure Body where
  maxStack : UInt16
  initLocals : Bool
  locals : Array TypeSig
  instructions : Array Instruction
  /-- the next fresh identity; zero for a body that has handed out none -/
  nextId : InstrId

namespace Body

def empty : Body := ⟨8, true, #[], #[], 0⟩

instance : Inhabited Body := ⟨empty⟩

instance : BEq Body where
  beq left right :=
    left.maxStack == right.maxStack && left.initLocals == right.initLocals &&
      left.locals == right.locals && left.instructions == right.instructions

variable (body : Body) (id : InstrId)

def ids : List InstrId := body.instructions.toList.map (·.id)

/-- One above the greatest identity. Identities are counted in 32 bits: above the last one comes zero. -/
def freshId : InstrId := body.instructions.foldl (fun least instruction => max least (instruction.id + 1)) 0

/-- Hands out an identity. A counter at zero is first moved above all instructions, also when it came back to zero because
it was counted beyond the last identity. -/
def allocId : InstrId × Body :=
  let next := if body.nextId = 0 then body.freshId else body.nextId
  (next, { body with nextId := next + 1 })

/-- The position of the first instruction of the identity. -/
def position? : Option Nat := body.instructions.findIdx? fun instruction => instruction.id == id

/-- The first instruction of the identity. -/
def get? : Option Instruction := body.instructions.find? fun instruction => instruction.id == id

def append (instruction : Instruction) : Body :=
  { body with instructions := body.instructions.push instruction }

/-- Puts a sequence in front of a position. -/
def insertAt (position : Nat) (sequence : Array Instruction) : Body :=
  { body with
    instructions := body.instructions.take position ++ sequence ++ body.instructions.drop position }

/-- How many targets of an operand name the identity. -/
def countTargets (operand : Operand) : Nat := operand.targets.count id

/-- Branches and switches among the chosen instructions that went to one instruction go to another. -/
def retargetWhere (source destination : InstrId) (chosen : InstrId → Bool) : Nat × Body :=
  let moved := body.instructions.map fun instruction =>
    if chosen instruction.id then
      { instruction with
        operand := instruction.operand.mapTargets fun target => if target = source then destination else target }
    else instruction
  let count := body.instructions.foldl
    (fun total instruction =>
      if chosen instruction.id then total + countTargets source instruction.operand else total) 0
  (count, { body with instructions := moved })

def retarget (source destination : InstrId) : Nat × Body :=
  body.retargetWhere source destination fun _ => true

end Body

end CilWeave
