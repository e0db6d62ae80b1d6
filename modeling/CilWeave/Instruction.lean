import CilWeave.Opcode
import CilWeave.Signature.Describe

/-!
Instructions: an opcode with an operand and an identity that stays the same wherever the instruction
moves. Branches and switches name their targets by identity.
-/

namespace CilWeave

/-- The identity of an instruction within its body: one of 32 bits. -/
abbrev InstrId := UInt32

/-- What is asked of listed identities is decided one listed identity at a time, and not for all that there are. -/
instance (priority := 2000) (ids : List InstrId) (holds : InstrId → Prop) [DecidablePred holds] :
    Decidable (∀ id ∈ ids, holds id) :=
  List.decidableBAll holds ids

inductive Immediate where
  | int8 (value : Int8)
  | int32 (value : Int32)
  | int64 (value : Int64)
  | single (value : Single)
  | double (value : Double)
deriving BEq

inductive Operand where
  | none
  | immediate (value : Immediate)
  | string (text : String)
  | method (reference : MethodRef)
  | field (reference : FieldRef)
  | type (sig : TypeSig)
  | target (id : InstrId)
  | switch (ids : List InstrId)
  | local (index : UInt16)
  | argument (index : UInt16)
deriving BEq

instance : Inhabited Operand := ⟨.none⟩

structure Instruction where
  id : InstrId
  opcode : Opcode
  operand : Operand
deriving BEq, Inhabited

/-- Numbers as listings show them. -/
def Immediate.text : Immediate → String
  | .int8 value => Decimal.integerText value.toInt
  | .int32 value => Decimal.integerText value.toInt
  | .int64 value => Decimal.integerText value.toInt
  | .single value => Decimal.Layout.plain.single value
  | .double value => Decimal.Layout.plain.double value

def InstrId.text (id : InstrId) : String := "#" ++ Decimal.digitText id.toNat

open Text

def Immediate.describe : Immediate → String
  | .int8 value => describeTagged "Int8" [Decimal.integerText value.toInt]
  | .int32 value => describeTagged "Int32" [Decimal.integerText value.toInt]
  | .int64 value => describeTagged "Int64" [Decimal.integerText value.toInt]
  | .single value => describeTagged "Float32" [Decimal.Layout.quoted.single value]
  | .double value => describeTagged "Float64" [Decimal.Layout.quoted.double value]

def InstrId.describe (id : InstrId) : String := describeTagged "InstrId" [Decimal.digitText id.toNat]

namespace Operand

def describe : Operand → String
  | .none => "None"
  | .immediate value => describeTagged "Immediate" [value.describe]
  | .string text => describeTagged "String" [quoted text]
  | .method reference => describeTagged "Method" [reference.describe]
  | .field reference => describeTagged "Field" [reference.describe]
  | .type sig => describeTagged "Type" [sig.describe]
  | .target id => describeTagged "Target" [InstrId.describe id]
  | .switch ids => describeTagged "Switch" [describeList (ids.map InstrId.describe)]
  | .local index => describeTagged "Local" [Decimal.digitText index.toNat]
  | .argument index => describeTagged "Argument" [Decimal.digitText index.toNat]

/-- The operand is of the kind; the short kinds only hold indices of one byte. -/
def fits : Operand → OperandKind → Bool
  | .none, .none => true
  | .immediate (.int8 _), .int8 => true
  | .immediate (.int32 _), .int32 => true
  | .immediate (.int64 _), .int64 => true
  | .immediate (.single _), .single => true
  | .immediate (.double _), .double => true
  | .method _, .method => true
  | .field _, .field => true
  | .type _, .type => true
  | .string _, .string => true
  | .target _, .target | .target _, .shortTarget => true
  | .switch _, .switch => true
  | .local _, .local => true
  | .argument _, .argument => true
  | .local index, .shortLocal | .argument index, .shortArgument => index.toNat ≤ 0xFF
  | _, _ => false

/-- The instructions control may go to. -/
def targets : Operand → List InstrId
  | .target id => [id]
  | .switch ids => ids
  | _ => []

def method? : Operand → Option MethodRef
  | .method reference => some reference
  | _ => Option.none

/-- Renames the targets of a branch or switch. -/
def mapTargets (rename : InstrId → InstrId) : Operand → Operand
  | .target id => .target (rename id)
  | .switch ids => .switch (ids.map rename)
  | operand => operand

end Operand

/-- An operand of a kind that its opcode does not take. -/
structure OperandMismatch where
  opcode : Opcode
  operand : Operand

def OperandMismatch.message (mismatch : OperandMismatch) : String :=
  "Invalid operand for " ++ mismatch.opcode.mnemonic ++ ": " ++ mismatch.operand.describe ++
    " does not fit " ++ mismatch.opcode.operandKind.tag

/-- The kind of every operand mismatch. -/
def OperandMismatch.tag : String := "InvalidOperand"

namespace Instruction

/-- An instruction whose operand fits its opcode. -/
def make (id : InstrId) (opcode : Opcode) (operand : Operand) : Except OperandMismatch Instruction :=
  if operand.fits opcode.operandKind then .ok ⟨id, opcode, operand⟩ else .error ⟨opcode, operand⟩

variable (instruction : Instruction)

def mnemonic : String := instruction.opcode.mnemonic

/-- The operand is of the kind that the opcode takes. -/
def wellFormed : Bool := instruction.operand.fits instruction.opcode.operandKind

/-- Encoded width of opcode and operand, a number that 32 bits hold unless a switch has some 2³⁰ targets. -/
def size : Nat :=
  let targets :=
    match instruction.operand with
    | .switch ids => ids.length
    | _ => 0
  instruction.opcode.size + instruction.opcode.operandKind.size targets

def targets : List InstrId := instruction.operand.targets

/-- The local the instruction works on. -/
def local? : Option UInt16 :=
  match instruction.operand with
  | .local index => some index
  | _ => instruction.opcode.impliedLocal?

/-- The argument the instruction works on. -/
def argument? : Option UInt16 :=
  match instruction.operand with
  | .argument index => some index
  | _ => instruction.opcode.impliedArgument?

def method? : Option MethodRef := instruction.operand.method?

/-- Something is left on the stack; a call leaves nothing unless its method returns a value. -/
def pushesValue : Bool :=
  match instruction.opcode.info.push with
  | .fixed count => count > 0
  | .perMethod => instruction.method?.any fun method => !method.returns.isVoid

/-- How many values are taken from the stack. A constructor's instance is not among them. -/
def pops : Nat :=
  match instruction.opcode.info.pop with
  | .fixed count => count
  | .perMethod =>
    match instruction.method? with
    | none => 0
    | some method =>
      if instruction.opcode = .newobj then method.params.length
      else method.params.length + method.hasThis.toNat

/-- How many values are left on the stack. -/
def pushes : Nat :=
  match instruction.opcode.info.push with
  | .fixed count => count
  | .perMethod => instruction.pushesValue.toNat

/-- Control may go on to the next instruction. -/
def fallsThrough : Bool :=
  match instruction.opcode.flow with
  | .return | .throw | .unconditional => false
  | .sequential | .call | .conditional | .switch => true

end Instruction

end CilWeave
