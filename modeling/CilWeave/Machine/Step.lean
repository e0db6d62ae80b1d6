import CilWeave.Body.Layout
import CilWeave.Definition.Module
import CilWeave.Machine.State
import CilWeave.Mixin.Config

/-!
What one instruction does. An instruction that starts a call only says so; entering the method and
returning from it are steps of the run. An instruction that fails leaves what it changed before.
-/

namespace CilWeave.Machine

/-- The modules of a program, the one that is run first, and the names of its carriers. -/
structure Program where
  modules : List Module
  plainCarrier : String
  typedCarrier : String

/-- A method about to be entered. -/
structure Call where
  type : TypeDef
  method : MethodDef
  args : List Value
  completion : Completion

/-- How control goes on after an instruction. -/
inductive Control where
  | next
  | jump (target : InstrId)
  | return (value : Value)
  | call (call : Call)

abbrev Action := ExceptT Fault (StateM State)

namespace Program

variable (program : Program)

def ofModules (config : WeaveConfig) (modules : List Module) : Program :=
  ⟨modules, config.attributeName Marker.plainCarrier, config.attributeName Marker.typedCarrier⟩

/-- The modules that a scope stands for: the first one if there is no scope. -/
def modulesOf (scope : Option String) : List Module :=
  match scope with
  | none => program.modules.take 1
  | some name => program.modules.filter fun module => module.name == name

def type? (scope : Option String) (fullName : String) : Option TypeDef :=
  (program.modulesOf scope).findSome? fun module => module.type? fullName

def method? (reference : MethodRef) : Option (TypeDef × MethodDef) := do
  let declaring ← reference.declaring.reference?
  (program.modulesOf declaring.scope).findSome? fun module => module.resolveMethod? reference

/-- The first method of the full name in the first module. -/
def entry? (fullName : String) : Option (TypeDef × MethodDef) :=
  (program.modules.take 1).findSome? fun module =>
    module.types.findSome? fun type => (type.method? fullName).map fun method => (type, method)

/-- Whether a type is a carrier, and then whether it carries a value. -/
def carrierKind? (declaring : TypeSig) : Option Bool := do
  let name := (← declaring.reference?).fullName
  if name = program.plainCarrier then some false
  else if name = program.typedCarrier then some true
  else none

end Program

/-- A new instance of a type: its fields hold the defaults of their types. -/
def newInstance (type : TypeDef) : HeapObject :=
  .instance type.fullName
    (.ofList ((type.fields.filter fun field => !field.isStatic).map fun field =>
      (field.name, Value.default field.type)))

namespace Action

def onStore {α : Type} (change : Store → α × Store) : Action α :=
  modifyGet fun state =>
    let (result, store) := change state.store
    (result, { state with store })

def onFrame (change : Frame → Frame) : Action Unit := modify fun state => { state with active := change state.active }

/-- A result that may be missing. -/
def orThrow {α : Type} (fault : Fault) : Option α → Action α
  | some result => return result
  | none => throw fault

def push (value : Value) : Action Unit := onFrame fun frame => frame.push value

def pop : Action Value := do
  let state ← get
  match state.active.stack with
  | [] => throw .underflow
  | value :: stack =>
    set { state with active := { state.active with stack } }
    return value

/-- Pops values that were pushed in order. -/
def popMany : Nat → Action (List Value)
  | 0 => return []
  | count + 1 => do
    let last ← pop
    return (← popMany count) ++ [last]

def popInt32 : Action Int32 := do
  match ← pop with
  | .int32 value => return value
  | found => throw (.notInt32 found)

/-- The index of an element; negative numbers are none. -/
def index? (index : Int32) : Option Nat := if index < 0 then none else some index.toInt.toNat

def popBinary (operation : BinaryOp) : Action Unit := do
  let right ← pop
  let left ← pop
  push (← orThrow (.notApplicable operation left right) (Value.binary operation left right))

def popCompare (operation : CompareOp) : Action Bool := do
  let right ← pop
  let left ← pop
  orThrow (.notComparable left right) (Value.compare operation left right)

def pushCompare (operation : CompareOp) : Action Unit := do
  push (.int32 (if ← popCompare operation then 1 else 0))

def load (pointer : Value) : Action Value := do
  orThrow (.invalidAddress pointer) ((← get).load? pointer)

def store (pointer value : Value) : Action Unit := do
  match (← get).store? pointer value with
  | some state => set state
  | none => throw (.invalidAddress pointer)

def alloc (object : HeapObject) : Action Value := onStore fun store => store.alloc object

def depth : Action Nat := return (← get).depth

def loadArgument (index : UInt16) : Action Unit := do
  push (← orThrow (.noArgument index) ((← get).active.args[index.toNat]?))

def storeArgument (index : UInt16) : Action Unit := do
  let value ← pop
  store (.argumentPointer (← depth) index) value

def loadLocal (index : UInt16) : Action Unit := do push (← load (.localPointer (← depth) index))

def storeLocal (index : UInt16) : Action Unit := do
  let value ← pop
  store (.localPointer (← depth) index) value

def constant? : Operand → Option Value
  | .immediate (.int8 value) => some (.int32 value.toInt32)
  | .immediate (.int32 value) => some (.int32 value)
  | .immediate (.int64 value) => some (.int64 value)
  | .immediate (.single value) => some (.double value.widen.number)
  | .immediate (.double value) => some (.double value.number)
  | _ => none

/-- What a slot of the operand's type holds before anything is stored. -/
def defaultOf : Operand → Value
  | .type sig => Value.default sig
  | _ => .null

def negate : Action Unit := do
  match ← pop with
  | .int32 value => push (.int32 (-value))
  | .int64 value => push (.int64 (-value))
  | .double value => push (.double (-value))
  | found => throw (.notNegatable found)

def complement : Action Unit := do
  match ← pop with
  | .int32 value => push (.int32 (~~~value))
  | .int64 value => push (.int64 (~~~value))
  | found => throw (.notComplementable found)

def toInt32? : Value → Option Value
  | .double value => some (.int32 (saturate Int32.minValue.toInt Int32.maxValue.toInt value).toInt32)
  | value => value.int64?.map fun value => .int32 value.toInt32

def toInt64? : Value → Option Value
  | .double value => some (.int64 (saturate Int64.minValue.toInt Int64.maxValue.toInt value).toInt64)
  | value => value.int64?.map .int64

def toDouble? : Value → Option Value
  | .double value => some (.double value)
  | value => value.int64?.map fun value => .double value.toFloat

def convert (conversion : Value → Option Value) : Action Unit := do
  let value ← pop
  push (← orThrow (.notConvertible value) (conversion value))

/-- Goes to the operand's target if the branch is taken. -/
def branch (operand : Operand) (taken : Bool) : Control :=
  match operand, taken with
  | .target id, true => .jump id
  | _, _ => .next

def branchIf (operand : Operand) (condition : Bool) : Action Control := do
  return branch operand ((← pop).isTrue == condition)

def branchCompare (operand : Operand) (operation : CompareOp) : Action Control := do
  return branch operand (← popCompare operation)

/-- Goes to the target of the popped index, if there is one. -/
def switch (operand : Operand) : Action Control := do
  let index ← popInt32
  match operand with
  | .switch targets => return ((index? index).bind fun index => targets[index]?).elim .next .jump
  | _ => return .next

def fieldOperand (operand : Operand) : Action FieldRef :=
  match operand with
  | .field field => return field
  | _ => throw .noFieldOperand

def loadField (operand : Operand) : Action Unit := do
  let field ← fieldOperand operand
  let object ← pop
  push (← orThrow (.noField field.fullName object) ((← get).store.field? object field.name))

def storeField (operand : Operand) : Action Unit := do
  let field ← fieldOperand operand
  let value ← pop
  let object ← pop
  let (address, _) ← orThrow (.noField field.fullName object) ((← get).store.instance? object)
  onStore fun store => ((), store.setField address field.name value)

/-- A static field holds the default of its type until it is stored. -/
def loadStatic : Operand → Action Unit
  | .field field => do
    push (((← get).store.statics.get? field.fullName).getD (Value.default field.type))
  | _ => return ()

def storeStatic (operand : Operand) : Action Unit := do
  let value ← pop
  match operand with
  | .field field =>
    onStore fun store => ((), { store with statics := store.statics.insert field.fullName value })
  | _ => return ()

def newArray (operand : Operand) : Action Unit := do
  let length ← orThrow .negativeLength (index? (← popInt32))
  push (← alloc (.array (Array.replicate length (defaultOf operand))))

def arrayLength : Action Unit := do
  let array ← pop
  let (_, items) ← orThrow .lengthOfNonArray ((← get).store.array? array)
  push (.int32 (min items.size 0x7FFFFFFF).toInt32)

def loadItem : Action Unit := do
  let index ← popInt32
  let array ← pop
  let index ← orThrow .indexOutOfRange (index? index)
  let (_, items) ← orThrow .indexOutOfRange ((← get).store.array? array)
  push (← orThrow .indexOutOfRange items[index]?)

def storeItem : Action Unit := do
  let value ← pop
  let index ← popInt32
  let array ← pop
  let index ← orThrow .indexOutOfRange (index? index)
  let address ← orThrow .indexOutOfRange ((← get).store.arrayAt? array index)
  onStore fun store => ((), store.setItem address index value)

/-- What a member of a carrier gives; there is a carrier for a value and one without. -/
def carrierMember (reference : MethodRef) (typed : Bool) (args : List Value) : Action Value := do
  let some carrier := args.head? | throw (.carrierWithoutInstance reference.fullName)
  let some (address, state) := (← get).store.carrier? carrier | throw (.notACarrier carrier)
  let update (state : Carrier Value) : Action Value :=
    onStore fun store => (.void, store.put address (.carrier state))
  match reference.name, typed with
  | "get_IsCancelled", _ => return .int32 (if state.isCancelled then 1 else 0)
  | "Cancel", _ => update state.cancel
  | "get_ReturnValue", true => return state.value?.getD (Value.default reference.resolvedReturn)
  | "set_ReturnValue", true => update (state.setValue ((args[1]?).getD .null))
  | _, _ => throw (.unsupportedCarrierMember reference.fullName)

/-- Members that need no definition, with their results. -/
def builtin? (program : Program) (reference : MethodRef) (args : List Value) : Action (Option Value) := do
  match program.carrierKind? reference.declaring with
  | some typed => return some (← carrierMember reference typed args)
  | none =>
    match reference.declaring.fullName, reference.name with
    | "System.Console", "WriteLine" =>
      let line := (args.head?.map Value.text).getD ""
      onStore fun store => (some .void, { store with output := store.output.push line })
    | "System.String", "Concat" => return some (.string (String.join (args.map Value.text)))
    | "System.Object", ".ctor" => return some .void
    | _, _ => return none

/-- Calls a method; a method that returns nothing leaves nothing on the stack. -/
def call (program : Program) (operand : Operand) : Action Control := do
  let some reference := operand.method? | throw .noMethodOperand
  let args ← popMany (reference.params.length + reference.hasThis.toNat)
  match ← builtin? program reference args with
  | some result =>
    if !reference.returns.isVoid then push result
    return .next
  | none =>
    let (type, method) ← orThrow (.unresolvedCall reference.fullName) (program.method? reference)
    return .call ⟨type, method, args, if reference.returns.isVoid then .drop else .push⟩

/-- Makes an object and calls its constructor, if the constructor is defined. -/
def construct (program : Program) (operand : Operand) : Action Control := do
  let some constructor := operand.method? | throw .noConstructorOperand
  let args ← popMany constructor.params.length
  if (program.carrierKind? constructor.declaring).isSome then
    push (← alloc (.carrier .notCancelled))
    return .next
  let reference ← orThrow (.notConstructible constructor.declaring.fullName) constructor.declaring.reference?
  let type ← orThrow (.unknownType reference.fullName) (program.type? reference.scope reference.fullName)
  let object ← alloc (newInstance type)
  match program.method? constructor with
  | some (type, method) => return .call ⟨type, method, object :: args, .pushInstead object⟩
  | none =>
    push object
    return .next

/-- Does what an opcode says when it neither branches, calls nor returns, and goes on. -/
def andNext (action : Action Unit) : Action Control := do
  action
  return .next

end Action

open CilWeave.Machine.Action in
/-- What an instruction does in the active frame. -/
def execute (program : Program) (instruction : Instruction) : Action Control :=
  let operand := instruction.operand
  let argument := instruction.argument?.getD 0
  let slot := instruction.local?.getD 0
  match instruction.opcode with
  | .nop | .box | .unboxAny | .castclass | .isinst => return .next
  | .ldcI4M1 | .ldcI40 | .ldcI41 | .ldcI42 | .ldcI43 | .ldcI44 | .ldcI45 | .ldcI46 | .ldcI47 | .ldcI48 =>
    andNext (push (.int32 (instruction.opcode.impliedConstant?.getD 0)))
  | .ldarg0 | .ldarg1 | .ldarg2 | .ldarg3 | .ldargS | .ldarg => andNext (loadArgument argument)
  | .stargS | .starg => andNext (storeArgument argument)
  | .ldargaS | .ldarga => andNext do push (.argumentPointer (← depth) argument)
  | .ldloc0 | .ldloc1 | .ldloc2 | .ldloc3 | .ldlocS | .ldloc => andNext (loadLocal slot)
  | .stloc0 | .stloc1 | .stloc2 | .stloc3 | .stlocS | .stloc => andNext (storeLocal slot)
  | .ldlocaS | .ldloca => andNext do push (.localPointer (← depth) slot)
  | .ldnull => andNext (push .null)
  | .ldcI4S | .ldcI4 | .ldcI8 | .ldcR4 | .ldcR8 => andNext do push (← orThrow .noConstant (constant? operand))
  | .ldstr => andNext (match operand with
    | .string text => push (.string text)
    | _ => return ())
  | .dup => andNext do
    let value ← pop
    push value
    push value
  | .pop => andNext do
    let _ ← pop
  | .add => andNext (popBinary .add)
  | .sub => andNext (popBinary .sub)
  | .mul => andNext (popBinary .mul)
  | .div => andNext (popBinary .div)
  | .rem => andNext (popBinary .rem)
  | .and => andNext (popBinary .and)
  | .or => andNext (popBinary .or)
  | .xor => andNext (popBinary .xor)
  | .shl => andNext (popBinary .shl)
  | .shr => andNext (popBinary .shr)
  | .neg => andNext negate
  | .not => andNext complement
  | .convI4 => andNext (convert toInt32?)
  | .convI8 => andNext (convert toInt64?)
  | .convR8 => andNext (convert toDouble?)
  | .ceq => andNext (pushCompare .eq)
  | .cgt => andNext (pushCompare .gt)
  | .clt => andNext (pushCompare .lt)
  | .br | .brS => return branch operand true
  | .brtrue | .brtrueS => branchIf operand true
  | .brfalse | .brfalseS => branchIf operand false
  | .beq | .beqS => branchCompare operand .eq
  | .bneUn | .bneUnS => branchCompare operand .ne
  | .bge | .bgeS => branchCompare operand .ge
  | .bgt | .bgtS => branchCompare operand .gt
  | .ble | .bleS => branchCompare operand .le
  | .blt | .bltS => branchCompare operand .lt
  | .switch => switch operand
  | .ldindI1 | .ldindU1 | .ldindI4 | .ldindI8 | .ldindR8 | .ldindRef | .ldobj => andNext do
    let pointer ← pop
    push (← load pointer)
  | .stindI1 | .stindI4 | .stindI8 | .stindR8 | .stindRef | .stobj => andNext do
    let value ← pop
    let pointer ← pop
    store pointer value
  | .initobj => andNext do
    let pointer ← pop
    store pointer (defaultOf operand)
  | .ldfld => andNext (loadField operand)
  | .stfld => andNext (storeField operand)
  | .ldsfld => andNext (loadStatic operand)
  | .stsfld => andNext (storeStatic operand)
  | .newarr => andNext (newArray operand)
  | .ldlen => andNext arrayLength
  | .ldelemRef => andNext loadItem
  | .stelemRef => andNext storeItem
  | .call | .callvirt => call program operand
  | .newobj => construct program operand
  | .ret => do
    if (← get).active.returnsValue then return .return (← pop) else return .return .void
  | .throw => do throw (.unhandledException (← pop))
  | .ldflda | .ldsflda => throw (.unsupportedInstruction instruction.mnemonic)

end CilWeave.Machine
