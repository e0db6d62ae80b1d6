import CilWeave.Body.Basic

/-!
Where the instructions of a body lie once it is encoded, and the widening of short branches that do
not reach their targets. Identities that occur more than once stand for their last instruction.
-/

namespace CilWeave

/-- The index of the last occurrence. -/
def lastIndex? (id : InstrId) : List InstrId → Option Nat
  | [] => none
  | head :: rest =>
    match lastIndex? id rest with
    | some index => some (index + 1)
    | none => if head = id then some 0 else none

/-- Sums of everything before each element. They are those of a counter of 32 bits as long as the whole stays below
4 GiB. -/
def offsetsFrom (start : Nat) : List Nat → List Nat
  | [] => []
  | size :: rest => start :: offsetsFrom (start + size) rest

/-- Offsets of the instructions of a body, in order. -/
structure Layout where
  ids : List InstrId
  offsets : Array Nat
  total : Nat

namespace Body

variable (body : Body)

def sizes : List Nat := body.instructions.toList.map (·.size)

def layout : Layout := ⟨body.ids, (offsetsFrom 0 body.sizes).toArray, body.sizes.foldl (· + ·) 0⟩

/-- The position of the last instruction of the identity: where a branch to it goes. -/
def target? (id : InstrId) : Option Nat := lastIndex? id body.ids

end Body

namespace Layout

variable (layout : Layout) (instruction : Instruction)

def offset? (id : InstrId) : Option Nat := (lastIndex? id layout.ids).bind fun position => layout.offsets[position]?

/-- Distance from the end of a branch to its target. -/
def displacement? : Option Int :=
  match instruction.operand with
  | .target id => do
    let source ← layout.offset? instruction.id
    let destination ← layout.offset? id
    some (destination - (source + instruction.size : Nat))
  | _ => none

def reachesShort (displacement : Int) : Bool := -128 ≤ displacement && displacement ≤ 127

/-- The opcode a short branch out of reach of its target has to take. -/
def widened? : Option Opcode := do
  let long ← instruction.opcode.longForm?
  let displacement ← layout.displacement? instruction
  if reachesShort displacement then none else some long

def widen : Instruction := { instruction with opcode := (layout.widened? instruction).getD instruction.opcode }

end Layout

namespace Body

variable (body : Body)

/-- One pass of widening on the offsets at its start, with the number of branches it widened. -/
def widenPass : Nat × Body :=
  let layout := body.layout
  let count := body.instructions.countP fun instruction => (layout.widened? instruction).isSome
  (count, { body with instructions := body.instructions.map layout.widen })

/-- Passes are repeated until one widens nothing; each earlier one uses up a short branch. -/
def relaxWithin : Nat → Body → Nat × Body
  | 0, body => (0, body)
  | bound + 1, body =>
    let (count, widened) := body.widenPass
    if count = 0 then (0, body)
    else
      let (more, relaxed) := relaxWithin bound widened
      (count + more, relaxed)

/-- Widens every short branch that does not reach its target, with the number of widened branches. -/
def relax : Nat × Body := relaxWithin (body.instructions.size + 1) body

end Body

end CilWeave
