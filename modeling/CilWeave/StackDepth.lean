import CilWeave.Body.Listing
import CilWeave.Definition.Basic

/-!
Stack depths: every instruction that control can reach is given the depth of the evaluation stack
before it, starting from an empty stack. All ways to an instruction have to agree on its depth.
-/

namespace CilWeave

/-- Why a body has no consistent stack depths. Instructions are named by their labels. -/
inductive StackFault where
  | noBody
  | noInstructions
  | noLocal (label : String) (index : UInt16) (declared : Nat)
  | noArgument (label : String) (index : UInt16) (taken : Nat)
  | underflow (label mnemonic : String) (needed held : Nat)
  | returnDepth (label : String) (depth : Nat)
  | missingTarget (label : String) (target : InstrId)
  | fallsOff (label : String)
  | inconsistent (label : String) (known found : Nat)
  | tooDeep (depth : Nat)

open Decimal in
def StackFault.message : StackFault → String
  | .noBody => "method has no body"
  | .noInstructions => "method body is empty"
  | .noLocal label index declared =>
    label ++ " uses local V_" ++ digitText index.toNat ++ " but only " ++ digitText declared ++ " are declared"
  | .noArgument label index taken =>
    label ++ " uses argument A_" ++ digitText index.toNat ++ " but the method takes " ++ digitText taken
  | .underflow label mnemonic needed held =>
    "stack underflow at " ++ label ++ ": " ++ mnemonic ++ " needs " ++ digitText needed ++
      ", stack holds " ++ digitText held
  | .returnDepth label depth => label ++ " returns with " ++ digitText depth ++ " value(s) on the stack"
  | .missingTarget label target => label ++ " branches to missing instruction " ++ InstrId.text target
  | .fallsOff label => "control falls off the end of the body after " ++ label
  | .inconsistent label known found =>
    "inconsistent stack depth at " ++ label ++ ": " ++ digitText known ++ " vs " ++ digitText found
  | .tooDeep depth => "stack depth " ++ digitText depth ++ " exceeds 65535"

/-- What the depths of a body depend on. -/
structure StackContext where
  body : Body
  argumentCount : Nat
  returnsValue : Bool

namespace StackContext

variable (context : StackContext)

/-- What an instruction takes from the stack; a return takes the value that the method returns. -/
def pops (instruction : Instruction) : Nat :=
  if instruction.opcode = .ret then context.returnsValue.toNat else instruction.pops

def label (id : InstrId) : String := context.body.layout.label id

/-- Labels of instructions by position. -/
def labelAt (position : Nat) : String :=
  match context.body.instructions[position]? with
  | some instruction => context.label instruction.id
  | none => ""

/-- Slots exist, the stack holds what is taken, and a return leaves nothing behind. -/
def checkUse (instruction : Instruction) (depth : Nat) : Except StackFault Unit := do
  if let some index := instruction.local? then
    if index.toNat ≥ context.body.locals.size then
      throw (.noLocal (context.label instruction.id) index context.body.locals.size)
  if let some index := instruction.argument? then
    if index.toNat ≥ context.argumentCount then
      throw (.noArgument (context.label instruction.id) index context.argumentCount)
  let needed := context.pops instruction
  if depth < needed then
    throw (.underflow (context.label instruction.id) instruction.mnemonic needed depth)
  if instruction.opcode = .ret ∧ depth ≠ needed then
    throw (.returnDepth (context.label instruction.id) depth)

/-- Positions of the targets of an instruction. -/
def targetPositions (instruction : Instruction) : List InstrId → Except StackFault (List Nat)
  | [] => .ok []
  | target :: rest =>
    match context.body.target? target with
    | none => .error (.missingTarget (context.label instruction.id) target)
    | some position => (targetPositions instruction rest).map (position :: ·)

/-- Positions that control may reach next: the targets, then the next instruction. -/
def successors (position : Nat) (instruction : Instruction) : Except StackFault (List Nat) := do
  let targets ← context.targetPositions instruction instruction.targets
  if instruction.fallsThrough then
    if position + 1 < context.body.instructions.size then return targets ++ [position + 1]
    else throw (.fallsOff (context.label instruction.id))
  else return targets

end StackContext

/-- Depths found so far, positions whose successors are still to be visited, and the greatest depth. -/
structure DepthSearch where
  depths : Array (Option Nat)
  pending : List Nat
  greatest : Nat

namespace StackContext

variable (context : StackContext)

/-- A successor without a depth gets one and is visited later; one that has another is a fault. -/
def reach (depth : Nat) (search : DepthSearch) (position : Nat) : Except StackFault DepthSearch :=
  match search.depths[position]?.join with
  | none =>
    .ok { search with
      depths := search.depths.setIfInBounds position (some depth)
      pending := search.pending ++ [position] }
  | some known =>
    if known = depth then .ok search
    else .error (.inconsistent (context.labelAt position) known depth)

/-- Visits one position: its instruction is checked and its successors are reached. -/
def visit (search : DepthSearch) (position : Nat) : Except StackFault DepthSearch :=
  match context.body.instructions[position]?, search.depths[position]?.join with
  | some instruction, some depth => do
    context.checkUse instruction depth
    let after := depth - context.pops instruction + instruction.pushes
    let next ← context.successors position instruction
    next.foldlM (context.reach after) { search with greatest := max search.greatest (max depth after) }
  | _, _ => .ok search

/-- Visits pending positions in turn. A position is pending only once, so as many rounds as there are
instructions are enough. -/
def explore : Nat → DepthSearch → Except StackFault DepthSearch
  | 0, search => .ok search
  | rounds + 1, search =>
    match search.pending with
    | [] => .ok search
    | position :: pending => do
      let search ← context.visit { search with pending } position
      explore rounds search

def start : DepthSearch :=
  ⟨(Array.replicate context.body.instructions.size none).setIfInBounds 0 (some 0), [0], 0⟩

/-- The greatest depth of any instruction that control can reach. -/
def maxDepth : Except StackFault UInt16 := do
  if context.body.instructions.isEmpty then throw .noInstructions
  let search ← context.explore (context.body.instructions.size + 1) context.start
  if search.greatest ≤ 65535 then return search.greatest.toUInt16
  else throw (.tooDeep search.greatest)

end StackContext

namespace MethodDef

variable (method : MethodDef)

def stackContext? : Option StackContext :=
  method.body.map fun body => ⟨body, method.argumentCount, !method.returns.isVoid⟩

def maxDepth : Except StackFault UInt16 :=
  match method.stackContext? with
  | some context => context.maxDepth
  | none => .error .noBody

/-- The method with the depth its body needs. -/
def withMaxStack (depth : UInt16) : MethodDef :=
  { method with body := method.body.map fun body => { body with maxStack := depth } }

end MethodDef

end CilWeave
