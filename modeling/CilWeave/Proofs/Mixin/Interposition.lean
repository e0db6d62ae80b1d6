import CilWeave.Proofs.Machine.Action
import CilWeave.Proofs.Machine.Trace
import CilWeave.Proofs.Mixin.Layering

/-!
The interposed machine is what a woven method is meant to do. Where the woven body would run, it runs the
original one; each time control comes to one of the places, the callback is called first. Other methods
run as they always do, and so does whatever a callback calls, the woven method included.
-/

namespace CilWeave

deriving instance DecidableEq for Single, Double, Immediate, Operand, Instruction

open Machine

/-- A splice together with the method that is called. -/
structure Interposition extends Splice where
  host : TypeDef
  callback : MethodDef
  /-- whether the woven method returns a value -/
  returnsValue : Bool
  /-- what a cancelled method returns if no value was set -/
  unset : Value

/-- Where the active frame is. -/
inductive Phase where
  /-- in another method -/
  | other
  /-- in front of an instruction before which the callback has to be called -/
  | due
  /-- behind a callback that may have cancelled -/
  | returned
  /-- in front of an instruction that may be executed -/
  | ready
deriving DecidableEq

/-- What a caller waits for. -/
inductive Pending where
  /-- a frame of another method -/
  | other
  /-- the callback -/
  | callback
  /-- a call of the original body's own -/
  | own
deriving DecidableEq

structure Interposed where
  state : State
  phase : Phase
  /-- for each caller, the innermost first -/
  pending : List Pending

namespace Interposed

variable (interposed : Interposed)

def jump (target : InstrId) (arrive : Frame → Phase) : Interposed ⊕ Ending :=
  match interposed.state.active.body.target? target with
  | some position =>
    let frame := interposed.state.active.goTo position
    .inl ⟨{ interposed.state with active := frame }, arrive frame, interposed.pending⟩
  | none => .inr (.error (.missingTarget target), interposed.state.store)

/-- A state about to execute an instruction, without the frames' places in their code but with the
identity of the instruction. -/
abbrev View := State × Option InstrId

def shows : List View :=
  match interposed.phase with
  | .other | .ready => [(interposed.state.bare, interposed.state.active.instruction?.map (·.id))]
  | .due | .returned => []

end Interposed

/-- The value that a source has. -/
def Source.read (state : State) : Source → Except Fault Value
  | .argument index =>
    match state.active.args[index.toNat]? with
    | some value => .ok value
    | none => .error (.noArgument index)
  | .slot index =>
    match state.load? (.localPointer state.depth index) with
    | some value => .ok value
    | none => .error (.invalidAddress (.localPointer state.depth index))
  | .slotAddress index => .ok (.localPointer state.depth index)
  | .nothing => .ok .null

namespace Interposition

variable (interposition : Interposition) (limits : Limits)

/-- Frames of the woven body, which run the original one instead. -/
def Recognizes (frame : Frame) : Prop :=
  frame.body.instructions = interposition.woven.instructions ∧ frame.body.locals = interposition.woven.locals ∧
    frame.returnsValue = interposition.returnsValue

instance (frame : Frame) : Decidable (interposition.Recognizes frame) := by
  unfold Recognizes
  infer_instance

/-- What control finds at a position of the original body. -/
def phaseAt (position : Nat) : Phase :=
  match interposition.original.idAt? position with
  | some id => if id ∈ interposition.points then .due else .ready
  | none => .ready

/-- The phase once a frame has moved. -/
def settle (phase : Phase) (frame : Frame) : Phase :=
  if phase = .other then .other else interposition.phaseAt frame.position

/-- A frame that is entered. -/
def receive (frame : Frame) : Frame × Phase :=
  if interposition.Recognizes frame then
    ({ frame with body := interposition.original }, interposition.phaseAt frame.position)
  else (frame, .other)

/-- How a caller goes on. What the callback returns is dropped. -/
def resume (frame : Frame) (completion : Completion) (value : Value) : Pending → Frame × Phase
  | .other => (frame.resume completion value, .other)
  | .own =>
    let resumed := frame.resume completion value
    (resumed, interposition.phaseAt resumed.position)
  | .callback => (frame, if interposition.site.carrier.isSome then .returned else .ready)

/-- The callback returns to its caller as from any call. -/
def completion : Completion := if interposition.callback.returns.isVoid then .drop else .push

/-- A fresh carrier is put into its local, if there is one. -/
def equip : Action Unit :=
  match interposition.site.carrier with
  | none => return ()
  | some (slot, _) => do
    let carrier ← Action.alloc (.carrier .notCancelled)
    Action.store (.localPointer (← Action.depth) slot) carrier

/-- The call of the callback with the values of its sources. -/
def invoke : Action Call := do
  interposition.equip
  match (interposition.site.sources).mapM (Source.read (← get)) with
  | .ok args => return ⟨interposition.host, interposition.callback, args, interposition.completion⟩
  | .error fault => throw fault

/-- Asks the carrier whether the method is cancelled, and then for the value, if there is one. -/
def ask (slot : UInt16) : Action (Option (Option Value)) := do
  let carrier ← Action.load (.localPointer (← Action.depth) slot)
  match (← get).store.carrier? carrier with
  | some (_, state) => return if state.isCancelled then some state.value? else none
  | none => throw (.notACarrier carrier)

variable (interposed : Interposed)

def enter (pending : Pending) (call : Call) : Interposed ⊕ Ending :=
  match enterFrame limits (interposed.state.depth + 1) interposed.state.store.method call with
  | .error fault => .inr (.error fault, interposed.state.store)
  | .ok frame =>
    let (frame, phase) := interposition.receive frame
    .inl ⟨⟨interposed.state.store.enter call, frame, interposed.state.active :: interposed.state.callers⟩, phase,
      pending :: interposed.pending⟩

def leave (value : Value) : Interposed ⊕ Ending :=
  let store := { interposed.state.store with method := interposed.state.active.caller }
  match interposed.state.callers, interposed.pending with
  | caller :: callers, pending :: rest =>
    let (frame, phase) := interposition.resume caller interposed.state.active.completion value pending
    .inl ⟨⟨store, frame, callers⟩, phase, rest⟩
  | _, _ => .inr (.ok value, store)

def follow : Control → Interposed ⊕ Ending
  | .next =>
    let frame := interposed.state.active.advance
    .inl ⟨{ interposed.state with active := frame }, interposition.settle interposed.phase frame, interposed.pending⟩
  | .jump target => interposed.jump target (interposition.settle interposed.phase)
  | .return value => interposition.leave interposed value
  | .call call => interposition.enter limits interposed (if interposed.phase = .other then .other else .own) call

/-- A cancelled method returns, or goes on elsewhere without another call of the callback. -/
def cancelled (value? : Option Value) : Interposed ⊕ Ending :=
  match interposition.cancel with
  | .return _ =>
    interposition.leave interposed
      (if interposed.state.active.returnsValue then value?.getD interposition.unset else .void)
  | .branch target => interposed.jump target fun _ => .ready

/-- The next instruction is executed. -/
def proceed (program : Program) : Interposed ⊕ Ending :=
  match interposed.state.active.instruction? with
  | none => .inr (.error .endOfBody, interposed.state.store)
  | some instruction =>
    match (execute program instruction).run.run interposed.state with
    | (.error fault, after) => .inr (.error fault, after.store)
    | (.ok control, after) => interposition.follow limits { interposed with state := after } control

/-- A step of the interposed machine. -/
def go (program : Program) : Interposed ⊕ Ending :=
  match interposed.phase, interposition.site.carrier with
  | .due, _ =>
    match interposition.invoke.run.run interposed.state with
    | (.error fault, after) => .inr (.error fault, after.store)
    | (.ok call, after) => interposition.enter limits { interposed with state := after } .callback call
  | .returned, some (slot, _) =>
    match (ask slot).run.run interposed.state with
    | (.error fault, after) => .inr (.error fault, after.store)
    | (.ok none, after) => .inl { interposed with state := after, phase := .ready }
    | (.ok (some value?), after) => interposition.cancelled { interposed with state := after } value?
  | _, _ => interposition.proceed limits interposed program

/-- Members of a carrier are what the interpreter takes them for. -/
structure Carries (program : Program) (members : CarrierMembers) : Prop where
  made : (program.carrierKind? members.constructor.declaring).isSome = true
  bare : members.constructor.params = []
  known : (program.carrierKind? members.isCancelled.declaring).isSome = true
  question : members.isCancelled.name = "get_IsCancelled" ∧ members.isCancelled.params = [] ∧
    members.isCancelled.hasThis = true ∧ members.isCancelled.returns.isVoid = false
  value : ∀ getter, members.returnValue = some getter → program.carrierKind? getter.declaring = some true ∧
    getter.name = "get_ReturnValue" ∧ getter.params = [] ∧ getter.hasThis = true ∧ getter.returns.isVoid = false ∧
    Value.default getter.resolvedReturn = interposition.unset

/-- In the program, injected calls go where the interposed machine calls. -/
structure Serves (program : Program) : Prop where
  resolves : program.method? interposition.site.callback = some (interposition.host, interposition.callback)
  defined : ∀ args, Action.builtin? program interposition.site.callback args = pure none
  arity : interposition.site.callback.params.length + interposition.site.callback.hasThis.toNat =
    interposition.site.sources.length
  returns : interposition.site.callback.returns = interposition.callback.returns
  carries : ∀ slot members, interposition.site.carrier = some (slot, members) → interposition.Carries program members
  returning : ∀ slot members withValue, interposition.site.carrier = some (slot, members) →
    interposition.cancel = .return withValue → withValue = interposition.returnsValue ∧
      (withValue = true → members.returnValue.isSome = true)
  branching : ∀ target, interposition.cancel = .branch target → target ∈ interposition.original.ids

/-- The states of the woven run, less those in injected code. -/
def sees (state : State) : List Interposed.View :=
  match state.active.instruction? with
  | some instruction =>
    if interposition.Recognizes state.active ∧ instruction.id ∉ interposition.original.ids then []
    else [(state.bare, some instruction.id)]
  | none => [(state.bare, none)]

end Interposition

end CilWeave
