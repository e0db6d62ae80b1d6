import CilWeave.Body.Basic
import CilWeave.Machine.Carrier
import CilWeave.Machine.Fault
import CilWeave.Table

/-!
The state of a run: what outlives every call (heap, static fields, console, counters), the frame of the
active method, and the frames of its callers. Pointers name a slot by the depth of its frame.
-/

namespace CilWeave.Machine

inductive HeapObject where
  | instance (typeName : String) (fields : Table Value)
  | carrier (state : Carrier Value)
  | array (items : Array Value)
deriving Inhabited

/-- An array with one element replaced; other objects stay as they are. -/
def HeapObject.setItem (index : Nat) (value : Value) : HeapObject → HeapObject
  | .array items => .array (items.setIfInBounds index value)
  | object => object

/-- An instance with one field written; other objects stay as they are. -/
def HeapObject.setField (name : String) (value : Value) : HeapObject → HeapObject
  | .instance typeName fields => .instance typeName (fields.insert name value)
  | object => object

/-- What calls leave behind. -/
structure Store where
  heap : Array HeapObject
  /-- static fields by full name -/
  statics : Table Value
  /-- console lines -/
  output : Array String
  /-- how many instructions have been counted: a counter of 64 bits, assumed not to wrap (it is bounded by the limits) -/
  executed : Nat
  /-- full name of the active method, or of the one that failed last -/
  method : String
deriving Inhabited

/-- What the caller does with the result of a call. -/
inductive Completion where
  | push
  | drop
  /-- the caller goes on with this value in place of the result -/
  | pushInstead (value : Value)
deriving Inhabited

structure Frame where
  body : Body
  /-- position of the instruction that is next -/
  position : Nat
  args : Array Value
  locals : Array Value
  /-- evaluation stack, the top first -/
  stack : List Value
  returnsValue : Bool
  completion : Completion
  /-- full name of the method that was active before -/
  caller : String
deriving Inhabited

structure State where
  store : Store
  active : Frame
  /-- frames of the callers, the innermost first -/
  callers : List Frame
deriving Inhabited

namespace Store

variable (store : Store)

def empty : Store := ⟨#[], .empty, #[], 0, ""⟩

/-- The address of a new object, and the store that has it. -/
def alloc (object : HeapObject) : Value × Store :=
  (.object store.heap.size, { store with heap := store.heap.push object })

def object? : Value → Option HeapObject
  | .object address => store.heap[address]?
  | _ => none

/-- The address and fields of an instance. -/
def instance? (value : Value) : Option (Nat × Table Value) :=
  match value with
  | .object address =>
    match store.heap[address]? with
    | some (.instance _ fields) => some (address, fields)
    | _ => none
  | _ => none

def carrier? (value : Value) : Option (Nat × Carrier Value) :=
  match value with
  | .object address =>
    match store.heap[address]? with
    | some (.carrier state) => some (address, state)
    | _ => none
  | _ => none

def array? (value : Value) : Option (Nat × Array Value) :=
  match value with
  | .object address =>
    match store.heap[address]? with
    | some (.array items) => some (address, items)
    | _ => none
  | _ => none

def put (address : Nat) (object : HeapObject) : Store :=
  { store with heap := store.heap.setIfInBounds address object }

def field? (object : Value) (name : String) : Option Value :=
  (store.instance? object).bind fun (_, fields) => fields.get? name

/-- Writes a field of an instance, adding it if the instance lacks it. -/
def setField (address : Nat) (name : String) (value : Value) : Store :=
  { store with heap := store.heap.modify address (HeapObject.setField name value) }

/-- The address of an array that has an element of the index. -/
def arrayAt? (array : Value) (index : Nat) : Option Nat :=
  (store.array? array).bind fun (address, items) => if index < items.size then some address else none

/-- Writes an element of an array. -/
def setItem (address index : Nat) (value : Value) : Store :=
  { store with heap := store.heap.modify address (HeapObject.setItem index value) }

end Store

namespace Frame

variable (frame : Frame)

def instruction? : Option Instruction := frame.body.instructions[frame.position]?

def advance : Frame := { frame with position := frame.position + 1 }

def goTo (position : Nat) : Frame := { frame with position }

def push (value : Value) : Frame := { frame with stack := value :: frame.stack }

def setLocal? (index : UInt16) (value : Value) : Option Frame :=
  if index.toNat < frame.locals.size then
    some { frame with locals := frame.locals.setIfInBounds index.toNat value }
  else none

def setArgument? (index : UInt16) (value : Value) : Option Frame :=
  if index.toNat < frame.args.size then
    some { frame with args := frame.args.setIfInBounds index.toNat value }
  else none

/-- Goes on after a call that has returned. -/
def resume (completion : Completion) (result : Value) : Frame :=
  match completion with
  | .push => (frame.push result).advance
  | .drop => frame.advance
  | .pushInstead value => (frame.push value).advance

end Frame

namespace State

variable (state : State)

/-- The depth of the active frame; the outermost frame has depth zero. -/
def depth : Nat := state.callers.length

/-- The frame of a depth. -/
def frame? (depth : Nat) : Option Frame :=
  if depth = state.depth then some state.active
  else if depth < state.depth then state.callers[state.depth - 1 - depth]?
  else none

def setFrame (depth : Nat) (frame : Frame) : State :=
  if depth = state.depth then { state with active := frame }
  else { state with callers := state.callers.set (state.depth - 1 - depth) frame }

/-- The content of the slot that a pointer names. -/
def load? : Value → Option Value
  | .localPointer depth index => (state.frame? depth).bind fun frame => frame.locals[index.toNat]?
  | .argumentPointer depth index => (state.frame? depth).bind fun frame => frame.args[index.toNat]?
  | _ => none

/-- Writes the slot that a pointer names. -/
def store? (pointer value : Value) : Option State :=
  match pointer with
  | .localPointer depth index => do
    let frame ← state.frame? depth
    return state.setFrame depth (← frame.setLocal? index value)
  | .argumentPointer depth index => do
    let frame ← state.frame? depth
    return state.setFrame depth (← frame.setArgument? index value)
  | _ => none

/-- Counts one more instruction. -/
def count : State := { state with store := { state.store with executed := state.store.executed + 1 } }

end State

end CilWeave.Machine
