import CilWeave.Proofs.Machine.Nesting

/-!
What machines do in their lives. However many requests are made, the limits hold for all of them together, and each call ends
and leaves no frame behind.
-/

namespace CilWeave.Machine

namespace Store

variable {program : Program} {limits : Limits} {store : Store} {call : Call}

/-- The states that a call goes through. -/
def visits (store : Store) (program : Program) (limits : Limits) (call : Call) : List State :=
  match enterFrame limits 0 store.method call with
  | .error _ => []
  | .ok frame => trace program limits (limits.steps store.executed) ⟨store.enter call, frame, []⟩

theorem visits_ends {frame : Frame} (entered : enterFrame limits 0 store.method call = .ok frame) :
    Ends (go program limits) ⟨store.enter call, frame, []⟩ (store.visits program limits call)
      (store.call program limits call) := by
  rw [visits, Store.call, entered]
  exact run_ends_at program limits _

theorem call_spends (program : Program) (limits : Limits) (store : Store) (call : Call) :
    Spends limits store.executed (executions limits (store.visits program limits call))
      (store.call program limits call).2.executed := by
  cases entered : enterFrame limits 0 store.method call with
  | error fault =>
      rw [visits, Store.call, entered]
      exact .nothing limits store.executed
  | ok frame => exact Ends.spends (visits_ends entered)

theorem visits_shallow (program : Program) (limits : Limits) (store : Store) (call : Call) :
    ∀ state ∈ store.visits program limits call, state.frames.length ≤ limits.maxCallDepth := by
  cases entered : enterFrame limits 0 store.method call with
  | error fault =>
      rw [visits, entered]
      nofun
  | ok frame =>
      have ended : Ends (go program limits) _ (store.visits program limits call) _ := visits_ends entered
      exact ended.shallow (enterFrame_depth entered)

end Store

/-- What can be asked of a machine. -/
inductive Request where
  | newObject (typeName : String)
  | call (fullName : String) (this : Option Value) (args : List Value)
  | setField (object : Value) (name : String) (value : Value)

section

variable (machine : Machine)

/-- The machine that a request leaves. -/
def serve : Request → Machine
  | .newObject typeName => (machine.newObject typeName).2
  | .call fullName this args => (machine.call fullName this args).2
  | .setField object name value => (machine.setField object name value).2

/-- The states that a request goes through. Only calls go through any. -/
def visits : Request → List State
  | .call fullName this args =>
    match machine.entryCall fullName this args with
    | .ok call => machine.store.visits machine.program machine.limits call
    | .error _ => []
  | _ => []

/-- The request is a call that is made when the limit has been hit. -/
def isLate : Request → Bool
  | .call _ _ _ => decide (machine.limits.maxInstructions < machine.store.executed)
  | _ => false

end

def serveAll (machine : Machine) : List Request → Machine
  | [] => machine
  | request :: rest => (machine.serve request).serveAll rest

def visitsAll (machine : Machine) : List Request → List State
  | [] => []
  | request :: rest => machine.visits request ++ (machine.serve request).visitsAll rest

/-- How many calls are made after the limit has been hit. -/
def late (machine : Machine) : List Request → Nat
  | [] => 0
  | request :: rest => (machine.isLate request).toNat + (machine.serve request).late rest

section

variable {machine : Machine}

theorem call_eq {fullName : String} {this : Option Value} {args : List Value} {call : Call} {result : Except Fault Value}
    {after : Store} (entry : machine.entryCall fullName this args = .ok call)
    (called : machine.store.call machine.program machine.limits call = (result, after)) :
    machine.call fullName this args = (result.mapError (Failure.mk after.method), { machine with store := after }) := by
  rw [Machine.call, entry]
  dsimp only
  rw [called]
  cases result <;> rfl

/-- A request leaves the counter as it is, unless it is a call that can be made. -/
theorem serve_cases (machine : Machine) (request : Request) :
    (∃ store, machine.serve request = { machine with store } ∧ store.executed = machine.store.executed ∧
        machine.visits request = []) ∨
      ∃ fullName this args call, request = .call fullName this args ∧
        machine.serve request = { machine with store := (machine.store.call machine.program machine.limits call).2 } ∧
        machine.visits request = machine.store.visits machine.program machine.limits call := by
  cases request with
  | newObject typeName =>
      simp only [serve, newObject]
      cases machine.program.type? none typeName <;> exact .inl ⟨_, rfl, rfl, rfl⟩
  | call fullName this args =>
      rw [serve, visits]
      cases entry : machine.entryCall fullName this args with
      | error fault =>
          rw [Machine.call, entry]
          exact .inl ⟨_, rfl, rfl, rfl⟩
      | ok call =>
          rw [call_eq entry rfl]
          exact .inr ⟨fullName, this, args, call, rfl, rfl, rfl⟩
  | setField object name value =>
      simp only [serve, setField]
      split
      · split <;> exact .inl ⟨_, rfl, rfl, rfl⟩
      · exact .inl ⟨_, rfl, rfl, rfl⟩

theorem serve_limits (machine : Machine) (request : Request) : (machine.serve request).limits = machine.limits := by
  rcases machine.serve_cases request with ⟨store, same, -⟩ | ⟨_, _, _, _, -, same, -⟩ <;> rw [same]

theorem serve_spends (machine : Machine) (request : Request) :
    Spends machine.limits machine.store.executed (executions machine.limits (machine.visits request))
      (machine.serve request).store.executed := by
  rcases machine.serve_cases request with ⟨store, same, counter, nowhere⟩ | ⟨_, _, _, call, -, same, states⟩
  · rw [same, nowhere, counter]
    exact .nothing _ _
  · rw [same, states]
    exact machine.store.call_spends machine.program machine.limits call

/-- The counter goes past the limit by one, and then only with calls. -/
theorem serve_executed_le (machine : Machine) (request : Request) : (machine.serve request).store.executed ≤
    max machine.store.executed (machine.limits.maxInstructions + 1) + (machine.isLate request).toNat := by
  obtain ⟨within, counted⟩ := machine.serve_spends request
  by_cases hit : machine.limits.maxInstructions < machine.store.executed
  · rcases machine.serve_cases request with ⟨store, same, counter, -⟩ | ⟨_, _, _, _, rfl, -, -⟩
    · rw [same, counter]
      exact Nat.le_trans (Nat.le_max_left _ _) (Nat.le_add_right _ _)
    · rw [isLate, decide_eq_true hit, Bool.toNat_true]
      omega
  · omega

theorem visits_shallow (machine : Machine) (request : Request) :
    ∀ state ∈ machine.visits request, state.frames.length ≤ machine.limits.maxCallDepth := by
  rcases machine.serve_cases request with ⟨store, -, -, nowhere⟩ | ⟨_, _, _, call, -, -, states⟩
  · rw [nowhere]
    nofun
  · rw [states]
    exact machine.store.visits_shallow machine.program machine.limits call

theorem executions_le (machine : Machine) (requests : List Request) :
    executions machine.limits (machine.visitsAll requests) ≤ machine.limits.maxInstructions - machine.store.executed := by
  induction requests generalizing machine with
  | nil => exact Nat.zero_le _
  | cons request rest ih =>
      obtain ⟨within, counted⟩ := machine.serve_spends request
      have later := ih (machine.serve request)
      rw [serve_limits] at later
      have both : executions machine.limits (machine.visitsAll (request :: rest)) =
          executions machine.limits (machine.visits request) +
            executions machine.limits ((machine.serve request).visitsAll rest) := List.countP_append
      omega

theorem executed_le (machine : Machine) (requests : List Request) : (machine.serveAll requests).store.executed ≤
    max machine.store.executed (machine.limits.maxInstructions + 1) + machine.late requests := by
  induction requests generalizing machine with
  | nil => exact Nat.le_max_left _ _
  | cons request rest ih =>
      have first := machine.serve_executed_le request
      have later := ih (machine.serve request)
      rw [serve_limits] at later
      rw [serveAll, late]
      omega

/-- A counter of 64 bits does not wrap: for that the limit and the calls made after it would have to come to 2⁶⁴. -/
theorem executed_lt_size {requests : List Request} (fresh : machine.store.executed = 0)
    (small : machine.limits.maxInstructions + 1 + machine.late requests < UInt64.size) :
    (machine.serveAll requests).store.executed < UInt64.size := by
  have counted := machine.executed_le requests
  omega

theorem visitsAll_shallow (machine : Machine) (requests : List Request) :
    ∀ state ∈ machine.visitsAll requests, state.frames.length ≤ machine.limits.maxCallDepth := by
  induction requests generalizing machine with
  | nil => nofun
  | cons request rest ih =>
      have later := ih (machine.serve request)
      rw [serve_limits] at later
      exact fun state member => (List.mem_append.mp member).elim (machine.visits_shallow request state) (later state)

/-- A call is answered in one way only and leaves no frame, and the states of its request are all that it goes through. -/
structure Completes (machine : Machine) (fullName : String) (this : Option Value) (args : List Value) (call : Call)
    (result : Except Fault Value) (after : Store) : Prop where
  answered : machine.call fullName this args = (result.mapError (Failure.mk after.method), { machine with store := after })
  cleared : ∀ outcome store frames, Invokes machine.program machine.limits machine.store [] call outcome store frames ↔
    outcome = result ∧ store = after ∧ frames = []
  visited : ∀ frame, enterFrame machine.limits 0 machine.store.method call = .ok frame →
    Ends (go machine.program machine.limits) ⟨machine.store.enter call, frame, []⟩
      (machine.visits (.call fullName this args)) (result, after)

theorem exists_completes {fullName : String} {this : Option Value} {args : List Value} {call : Call}
    (entry : machine.entryCall fullName this args = .ok call) :
    ∃ result after, machine.Completes fullName this args call result after := by
  rcases called : machine.store.call machine.program machine.limits call with ⟨result, after⟩
  refine ⟨result, after, call_eq entry called, fun outcome store frames => ?_, fun frame entered => ?_⟩
  · rw [invokes_iff, called, Prod.mk.injEq, and_assoc, eq_comm, @eq_comm _ after]
  · rw [visits, entry, ← called]
    exact Store.visits_ends entered

/-- However long a machine lives, it executes no more instructions than it may, and counts one more at the limit and one for
each call that is made after that. It never has more frames than it may, and each call ends with none. -/
theorem life_bounded (fresh : machine.store.executed = 0) (requests : List Request) :
    executions machine.limits (machine.visitsAll requests) ≤ machine.limits.maxInstructions ∧
      (machine.serveAll requests).store.executed ≤ machine.limits.maxInstructions + 1 + machine.late requests ∧
      (∀ state ∈ machine.visitsAll requests, state.frames.length ≤ machine.limits.maxCallDepth) ∧
      ∀ fullName this args call, (machine.serveAll requests).entryCall fullName this args = .ok call →
        ∃ result after, (machine.serveAll requests).Completes fullName this args call result after := by
  have executions := machine.executions_le requests
  have executed := machine.executed_le requests
  rw [fresh] at executions executed
  refine ⟨executions, ?_, machine.visitsAll_shallow requests, fun _ _ _ _ entry => exists_completes entry⟩
  rwa [Nat.zero_max] at executed

end

namespace Spinning

def spin : MethodDef :=
  ⟨"Spin", ⟨MethodFlags.isStatic⟩, .void, [], some ⟨8, true, #[], #[⟨0, .brS, .target 0⟩], 0⟩, []⟩

/-- A method that calls itself. -/
def dive : MethodDef :=
  { spin with
    name := "Dive"
    body := some ⟨8, true, #[],
      #[⟨0, .call, .method ⟨.classType ⟨none, "", "T"⟩, "Dive", .void, [], false⟩⟩, ⟨1, .ret, .none⟩], 0⟩ }

def type : TypeDef := { TypeDef.empty "" "T" ⟨0⟩ none with methods := [spin, dive] }

def machine : Machine := .ofModules .standard ⟨3, 2⟩ [⟨"Game", [], [type]⟩]

def requests : List Request := [.call "System.Void T::Spin()" none [], .call "System.Void T::Dive()" none []]

/-- The limit is hit by the first call, so the second is a late one. -/
theorem life_bounded_spinning : machine.store.executed = 0 ∧ machine.late requests = 1 ∧
    (machine.serveAll requests).store.executed = 5 ∧
    (machine.serveAll requests).store.executed ≤ 3 + 1 + machine.late requests ∧
    executions machine.limits (machine.visitsAll requests) ≤ 3 ∧
    (machine.call "System.Void T::Dive()" none []).1.isOk = false ∧
    ∃ result after, machine.Completes "System.Void T::Dive()" none [] ⟨type, dive, [], .drop⟩ result after := by
  have fresh : machine.store.executed = 0 := rfl
  obtain ⟨executions, executed, -⟩ := life_bounded fresh requests
  obtain ⟨-, -, -, completes⟩ := life_bounded fresh []
  have entry : machine.entryCall "System.Void T::Dive()" none [] = .ok ⟨type, dive, [], .drop⟩ := rfl
  exact ⟨fresh, by decide +kernel, by decide +kernel, executed, executions, by decide +kernel, completes _ _ _ _ entry⟩

end Spinning

end CilWeave.Machine
