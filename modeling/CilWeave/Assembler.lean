import CilWeave.Body.WellFormed
import CilWeave.Table

/-!
Writing code with labels. Instructions take fresh identities from a body; a label stands for the next
instruction written or for an instruction of the body. Branches may name labels that are defined
later: the targets are filled in at the end.
-/

namespace CilWeave

inductive AssemblerFault where
  | unknownMnemonic (mnemonic : String)
  | operand (mismatch : OperandMismatch)
  | notABranch (mnemonic : String)
  | emptySwitch
  | duplicateLabel (label : String)
  | undefinedLabel (label : String)
  | danglingLabel (label : String)

def AssemblerFault.message : AssemblerFault → String
  | .unknownMnemonic mnemonic => "Invalid instruction mnemonic: " ++ mnemonic
  | .operand mismatch => mismatch.message
  | .notABranch mnemonic => "Invalid branch: instruction '" ++ mnemonic ++ "' is not a branch instruction"
  | .emptySwitch => "Invalid branch: switch must have at least one target"
  | .duplicateLabel label => "Duplicate label: " ++ label
  | .undefinedLabel label => "Undefined label: " ++ label
  | .danglingLabel label => "Undefined label: " ++ label ++ " (defined after the last instruction)"

/-- The kind of a fault, as reports name it. -/
def AssemblerFault.tag : AssemblerFault → String
  | .unknownMnemonic _ => "InvalidMnemonic"
  | .operand _ => OperandMismatch.tag
  | .notABranch _ | .emptySwitch => "InvalidBranch"
  | .duplicateLabel _ => "DuplicateLabel"
  | .undefinedLabel _ | .danglingLabel _ => "UndefinedLabel"

/-- The labels an instruction written at a position is to branch to. -/
structure Fixup where
  position : Nat
  labels : List String

/-- Code being written. -/
structure Assembler where
  /-- where fresh identities come from; its instructions are not touched -/
  body : Body
  code : Array Instruction
  labels : Table InstrId
  /-- labels waiting for the next instruction -/
  pending : List String
  fixups : List Fixup

/-- A step of writing code; what a failed step changed stays changed. -/
abbrev Assembly := ExceptT AssemblerFault (StateM Assembler)

namespace Assembler

/-- The target of a branch whose label is not known yet. -/
def unresolved : InstrId := 0xFFFFFFFF

def start (body : Body) : Assembler := ⟨body, #[], .empty, [], []⟩

def opcode (mnemonic : String) : Assembly Opcode :=
  match Opcode.ofMnemonic? mnemonic with
  | some opcode => pure opcode
  | none => throw (.unknownMnemonic mnemonic)

/-- Writes an instruction; pending labels come to stand for it. The identity is used up even if the
operand does not fit. -/
def emit (opcode : Opcode) (operand : Operand) : Assembly InstrId := do
  let id ← modifyGet fun assembler =>
    let (id, body) := assembler.body.allocId
    (id, { assembler with body })
  match Instruction.make id opcode operand with
  | .error mismatch => throw (.operand mismatch)
  | .ok instruction =>
    modify fun assembler =>
      { assembler with
        code := assembler.code.push instruction
        labels := assembler.pending.foldl (fun labels label => labels.insert label id) assembler.labels
        pending := [] }
    return id

/-- The last instruction written is to branch to the labels. -/
def addFixup (labels : List String) : Assembly Unit :=
  modify fun assembler =>
    { assembler with fixups := assembler.fixups ++ [⟨assembler.code.size - 1, labels⟩] }

def emitNamed (mnemonic : String) (operand : Operand) : Assembly InstrId := do
  emit (← opcode mnemonic) operand

def emitBranch (mnemonic label : String) : Assembly InstrId := do
  let branch ← opcode mnemonic
  if branch.isBranch then
    let id ← emit branch (.target unresolved)
    addFixup [label]
    return id
  else throw (.notABranch mnemonic)

def emitSwitch (labels : List String) : Assembly InstrId := do
  if labels.isEmpty then throw .emptySwitch
  else
    let id ← emit .switch (.switch (labels.map fun _ => unresolved))
    addFixup labels
    return id

def isTaken (assembler : Assembler) (label : String) : Bool :=
  assembler.labels.contains label || assembler.pending.contains label

/-- The label stands for the next instruction written. -/
def define (label : String) : Assembly Unit := do
  if (← get).isTaken label then throw (.duplicateLabel label)
  else modify fun assembler => { assembler with pending := assembler.pending ++ [label] }

/-- The label stands for an instruction of the body. -/
def bindLabel (label : String) (target : InstrId) : Assembly Unit := do
  if (← get).isTaken label then throw (.duplicateLabel label)
  else modify fun assembler => { assembler with labels := assembler.labels.insert label target }

/-- Indices below four have opcodes of their own, those of one byte a short form. -/
def indexed (own : List Opcode) (short long : Opcode) (operand : UInt16 → Operand) (index : UInt16) :
    Assembly InstrId :=
  match own[index.toNat]? with
  | some opcode => emit opcode .none
  | none => emit (if index ≤ 255 then short else long) (operand index)

def loadArgument : UInt16 → Assembly InstrId := indexed [.ldarg0, .ldarg1, .ldarg2, .ldarg3] .ldargS .ldarg .argument

def loadLocal : UInt16 → Assembly InstrId := indexed [.ldloc0, .ldloc1, .ldloc2, .ldloc3] .ldlocS .ldloc .local

def storeLocal : UInt16 → Assembly InstrId := indexed [.stloc0, .stloc1, .stloc2, .stloc3] .stlocS .stloc .local

def loadLocalAddress : UInt16 → Assembly InstrId := indexed [] .ldlocaS .ldloca .local

/-- The opcode that loads a small constant by itself. -/
def constantOpcode? (value : Int32) : Option Opcode :=
  [.ldcI4M1, .ldcI40, .ldcI41, .ldcI42, .ldcI43, .ldcI44, .ldcI45, .ldcI46, .ldcI47, .ldcI48].find?
    fun opcode => opcode.impliedConstant? == some value

def loadConstant (value : Int32) : Assembly InstrId :=
  match constantOpcode? value with
  | some opcode => emit opcode .none
  | none =>
    if -128 ≤ value ∧ value ≤ 127 then emit .ldcI4S (.immediate (.int8 value.toInt8))
    else emit .ldcI4 (.immediate (.int32 value))

def label? (assembler : Assembler) (label : String) : Option InstrId := assembler.labels.get? label

/-- The first label that stands for nothing is the one reported. -/
def resolve (labels : Table InstrId) : List String → Except AssemblerFault (List InstrId)
  | [] => .ok []
  | label :: rest =>
    match labels.get? label with
    | none => .error (.undefinedLabel label)
    | some id => (resolve labels rest).map (id :: ·)

def patched (instruction : Instruction) (ids : List InstrId) : Instruction :=
  { instruction with
    operand :=
      match instruction.operand, ids with
      | .switch _, ids => .switch ids
      | _, id :: _ => .target id
      | operand, [] => operand }

def patchAll (labels : Table InstrId) : List Fixup → Array Instruction → Except AssemblerFault (Array Instruction)
  | [], code => .ok code
  | fixup :: rest, code => do
    let ids ← resolve labels fixup.labels
    patchAll labels rest (code.modify fixup.position fun instruction => patched instruction ids)

/-- The code with all labels filled in. -/
def finish (assembler : Assembler) : Except AssemblerFault (Array Instruction) :=
  match assembler.pending with
  | label :: _ => .error (.danglingLabel label)
  | [] => patchAll assembler.labels assembler.fixups assembler.code

end Assembler

end CilWeave
