import CilWeave.Machine.Step

/-!
Runs: a call is carried out one instruction at a time, each counted before it is done, so the limit on
their number bounds every run. A machine keeps what its calls leave behind for the next one, after a
failure too.
-/

namespace CilWeave.Machine

/-- Numbers of 64 bits; nothing depends on their width as long as the counter of instructions does not wrap. -/
structure Limits where
  maxInstructions : Nat
  maxCallDepth : Nat
deriving DecidableEq, Inhabited

def Limits.standard : Limits := ⟨1000000, 256⟩

/-- Where a step leads to. -/
inductive Outcome where
  | running (state : State)
  | finished (value : Value) (store : Store)
  | failed (fault : Fault) (store : Store)

/-- The frame of a method about to run, unless the call is not allowed. -/
def enterFrame (limits : Limits) (depth : Nat) (caller : String) (call : Call) : Except Fault Frame := do
  let name := call.method.fullNameIn call.type.fullName
  if limits.maxCallDepth ≤ depth then throw (.callDepth limits.maxCallDepth name)
  let some body := call.method.body | throw (.noBody name)
  if call.args.length ≠ call.method.argumentCount then
    throw (.argumentCount name call.method.argumentCount call.args.length)
  return {
    body
    position := 0
    args := call.args.toArray
    locals := body.locals.map Value.default
    stack := []
    returnsValue := !call.method.returns.isVoid
    completion := call.completion
    caller }

def Store.enter (store : Store) (call : Call) : Store :=
  { store with method := call.method.fullNameIn call.type.fullName }

namespace State

variable (limits : Limits) (state : State)

def enter (call : Call) : Outcome :=
  match enterFrame limits (state.depth + 1) state.store.method call with
  | .error fault => .failed fault state.store
  | .ok frame => .running ⟨state.store.enter call, frame, state.active :: state.callers⟩

/-- Leaves the active method; its caller goes on, if it has one. -/
def leave (value : Value) : Outcome :=
  let store := { state.store with method := state.active.caller }
  match state.callers with
  | [] => .finished value store
  | caller :: callers => .running ⟨store, caller.resume state.active.completion value, callers⟩

def jump (target : InstrId) : Outcome :=
  match state.active.body.target? target with
  | some position => .running { state with active := state.active.goTo position }
  | none => .failed (.missingTarget target) state.store

/-- Goes on as an instruction says. -/
def follow : Control → Outcome
  | .next => .running { state with active := state.active.advance }
  | .jump target => state.jump target
  | .return value => state.leave value
  | .call call => state.enter limits call

end State

/-- One instruction of a run. -/
def step (program : Program) (limits : Limits) (state : State) : Outcome :=
  match state.active.instruction? with
  | none => .failed .endOfBody state.store
  | some instruction =>
    let counted := state.count
    if limits.maxInstructions < counted.store.executed then
      .failed (.instructionLimit limits.maxInstructions) counted.store
    else
      match (execute program instruction).run.run counted with
      | (.error fault, after) => .failed fault after.store
      | (.ok control, after) => after.follow limits control

/-- Steps until the call has finished or failed, a given number of times at most. -/
def run (program : Program) (limits : Limits) : Nat → State → Except Fault Value × Store
  | 0, state => (.error (.instructionLimit limits.maxInstructions), state.store)
  | steps + 1, state =>
    match step program limits state with
    | .running next => run program limits steps next
    | .finished value store => (.ok value, store)
    | .failed fault store => (.error fault, store)

/-- How many steps a run can take: one for each instruction still allowed and one that fails. -/
def Limits.steps (limits : Limits) (executed : Nat) : Nat := limits.maxInstructions - executed + 1

/-- Calls a method that nothing else called. -/
def Store.call (store : Store) (program : Program) (limits : Limits) (call : Call) : Except Fault Value × Store :=
  match enterFrame limits 0 store.method call with
  | .error fault => (.error fault, store)
  | .ok frame => run program limits (limits.steps store.executed) ⟨store.enter call, frame, []⟩

end CilWeave.Machine

namespace CilWeave

/-- A machine that runs methods of a program, with what earlier calls left behind. -/
structure Machine where
  program : Machine.Program
  limits : Machine.Limits
  store : Machine.Store

namespace Machine

variable (machine : Machine)

def ofModules (config : WeaveConfig) (limits : Limits) (modules : List Module) : Machine :=
  ⟨Program.ofModules config modules, limits, .empty⟩

/-- A fault together with the method it is reported for. -/
def failure (fault : Fault) : Failure := ⟨machine.store.method, fault⟩

/-- A new instance of a type of the first module. -/
def newObject (typeName : String) : Except Failure Value × Machine :=
  match machine.program.type? none typeName with
  | none => (.error (machine.failure (.unknownType typeName)), machine)
  | some type =>
    let (object, store) := machine.store.alloc (newInstance type)
    (.ok object, { machine with store })

/-- The call of a method by full name; an instance is needed unless the method is static, which
ignores it. -/
def entryCall (fullName : String) (this : Option Value) (args : List Value) : Except Fault Call :=
  match machine.program.entry? fullName with
  | none => .error (.unknownMethod fullName)
  | some (type, method) =>
    if method.isStatic then .ok ⟨type, method, args, .drop⟩
    else
      match this with
      | some object => .ok ⟨type, method, object :: args, .drop⟩
      | none => .error (.noInstance fullName)

/-- Calls a method of the first module. -/
def call (fullName : String) (this : Option Value) (args : List Value) : Except Failure Value × Machine :=
  match machine.entryCall fullName this args with
  | .error fault => (.error (machine.failure fault), machine)
  | .ok call =>
    match machine.store.call machine.program machine.limits call with
    | (.ok value, store) => (.ok value, { machine with store })
    | (.error fault, store) => (.error ⟨store.method, fault⟩, { machine with store })

/-- Writes a field that an instance has. -/
def setField (object : Value) (name : String) (value : Value) : Except Failure Unit × Machine :=
  match machine.store.instance? object with
  | some (address, fields) =>
    if fields.contains name then (.ok (), { machine with store := machine.store.setField address name value })
    else (.error (machine.failure (.noField name object)), machine)
  | none => (.error (machine.failure (.noField name object)), machine)

end Machine

end CilWeave
