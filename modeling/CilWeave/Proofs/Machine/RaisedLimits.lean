import CilWeave.Proofs.Machine.Nesting

/-!
Runs under other limits. Limits are looked at when an instruction is counted and when a frame is entered, and
then only to refuse: what came to its end without a refusal comes to the same end where more is allowed.
-/

open CilWeave.Stateful

namespace CilWeave.Machine

/-- What the limits allow the raised ones allow as well. -/
structure Limits.Raised (limits raised : Limits) : Prop where
  instructions : limits.maxInstructions ≤ raised.maxInstructions
  callDepth : limits.maxCallDepth ≤ raised.maxCallDepth

/-- The fault is that a limit was hit. -/
def Fault.isLimit : Fault → Bool
  | .callDepth _ _ | .instructionLimit _ => true
  | _ => false

/-- No limit was hit; what came of it may be a fault of another kind. -/
def WithinLimits {α : Type} (result : Except Fault α) : Prop := ∀ fault, result = .error fault → fault.isLimit = false

theorem WithinLimits.ok {α : Type} {value : α} : WithinLimits (.ok value) := by
  intro fault failed
  cases failed

theorem WithinLimits.error {α β : Type} {fault : Fault} (within : WithinLimits (.error fault : Except Fault α)) :
    WithinLimits (.error fault : Except Fault β) := by
  rintro _ ⟨⟩
  exact within fault rfl

variable {program : Program} {limits raised : Limits}

theorem enterFrame_raised (raises : limits.Raised raised) {depth : Nat} {caller : String} {call : Call}
    (within : WithinLimits (enterFrame limits depth caller call)) :
    enterFrame raised depth caller call = enterFrame limits depth caller call := by
  by_cases deep : limits.maxCallDepth ≤ depth
  · have refused : enterFrame limits depth caller call =
        .error (.callDepth limits.maxCallDepth (call.method.fullNameIn call.type.fullName)) := by
      rw [enterFrame, if_pos deep]
      rfl
    cases within _ refused
  · have allowed : ¬raised.maxCallDepth ≤ depth := fun refused => deep (Nat.le_trans raises.callDepth refused)
    rw [enterFrame, enterFrame, if_neg deep, if_neg allowed]

theorem act_raised (raises : limits.Raised raised) {state : State} (within : WithinLimits (act program limits state).1) :
    act program raised state = act program limits state := by
  unfold act at within ⊢
  cases found : state.active.instruction? with
  | none => rfl
  | some instruction =>
      by_cases past : limits.maxInstructions < state.count.store.executed
      · simp only [found, if_pos past] at within
        cases within _ rfl
      · have allowed : ¬raised.maxInstructions < state.count.store.executed :=
          fun refused => past (Nat.lt_of_le_of_lt raises.instructions refused)
        simp only [if_neg past, if_neg allowed]

theorem acted_raised (raises : limits.Raised raised) {state after : State} {outcome : Except Fault Control}
    (acted : act program limits state = (outcome, after)) (within : WithinLimits outcome) :
    act program raised state = (outcome, after) := by
  rw [act_raised raises (by rwa [acted]), acted]

theorem entered_raised (raises : limits.Raised raised) {depth : Nat} {caller : String} {call : Call}
    {outcome : Except Fault Frame} (entered : enterFrame limits depth caller call = outcome) (within : WithinLimits outcome) :
    enterFrame raised depth caller call = outcome := by
  rw [enterFrame_raised raises (by rwa [entered]), entered]

mutual

/-- A call that hits no limit, with the calls that it makes, is the same call under raised limits. -/
theorem Invokes.raise (raises : limits.Raised raised) {store after : Store} {frames others : List Frame} {call : Call}
    {result : Except Fault Value} : Invokes program limits store frames call result after others → WithinLimits result →
      Invokes program raised store frames call result after others
  | .refused refuses, within => .refused (entered_raised raises refuses within.error)
  | .failed entered inner, within => .failed (entered_raised raises entered .ok) (inner.raise raises within)
  | .returned entered inner, _ => .returned (entered_raised raises entered .ok) (inner.raise raises .ok)

theorem Executes.raise (raises : limits.Raised raised) {state : State} {after : Store} {others : List Frame}
    {result : Except Fault Value} : Executes program limits state result after others → WithinLimits result →
      Executes program raised state result after others
  | .failed acted, within => .failed (acted_raised raises acted within.error)
  | .returned acted, _ => .returned (acted_raised raises acted .ok)
  | .next acted rest, within => .next (acted_raised raises acted .ok) (rest.raise raises within)
  | .jump acted found rest, within => .jump (acted_raised raises acted .ok) found (rest.raise raises within)
  | .lost acted missing, _ => .lost (acted_raised raises acted .ok) missing
  | .raised acted invoked, within => .raised (acted_raised raises acted .ok) (invoked.raise raises within)
  | .resumed acted invoked rest, within =>
      .resumed (acted_raised raises acted .ok) (invoked.raise raises .ok) (rest.raise raises within)

end

theorem Store.call_raised (raises : limits.Raised raised) {store after : Store} {call : Call} {result : Except Fault Value}
    (called : store.call program limits call = (result, after)) (within : WithinLimits result) :
    store.call program raised call = (result, after) := by
  have invokes : Invokes program limits store [] call result after [] := invokes_iff.mpr ⟨called, rfl⟩
  exact (invokes_iff.mp (invokes.raise raises within)).1

/-- A call that returns a value returns it under raised limits too, and leaves the same behind: the heap, the static fields,
the console and the number of instructions executed. -/
theorem raising_keeps {machine after : Machine} {raised : Limits} {fullName : String} {this : Option Value}
    {args : List Value} {value : Value} (raises : machine.limits.Raised raised)
    (called : machine.call fullName this args = (.ok value, after)) :
    Machine.call { machine with limits := raised } fullName this args = (.ok value, { after with limits := raised }) := by
  have entryCall : Machine.entryCall { machine with limits := raised } fullName this args =
      machine.entryCall fullName this args := rfl
  rw [Machine.call] at called ⊢
  rw [entryCall]
  cases entry : machine.entryCall fullName this args with
  | error fault =>
      rw [entry] at called
      cases called
  | ok call =>
      rw [entry] at called
      dsimp only at called ⊢
      rcases ran : machine.store.call machine.program machine.limits call with ⟨fault | result, store⟩
      · rw [ran] at called
        cases called
      · rw [ran] at called
        rw [Store.call_raised raises ran .ok]
        cases called
        rfl

namespace Errand

def give : MethodDef :=
  ⟨"Give", ⟨MethodFlags.isStatic⟩, .primitive .int32, [],
    some ⟨8, true, #[], #[⟨0, .ldcI45, .none⟩, ⟨1, .ret, .none⟩], 0⟩, []⟩

/-- Writes a line, keeps a new object in a static field and returns what another method gives. -/
def run : MethodDef :=
  { give with
    name := "Run"
    body := some ⟨8, true, #[], #[
      ⟨0, .ldstr, .string "on the way"⟩,
      ⟨1, .call, .method ⟨.classType ⟨none, "System", "Console"⟩, "WriteLine", .void, [.primitive .string], false⟩⟩,
      ⟨2, .newobj, .method ⟨.classType ⟨none, "", "T"⟩, ".ctor", .void, [], true⟩⟩,
      ⟨3, .stsfld, .field ⟨.classType ⟨none, "", "T"⟩, "last", .primitive .object⟩⟩,
      ⟨4, .call, .method ⟨.classType ⟨none, "", "T"⟩, "Give", .primitive .int32, [], false⟩⟩,
      ⟨5, .ret, .none⟩], 0⟩ }

def type : TypeDef := { TypeDef.empty "" "T" ⟨0⟩ none with methods := [give, run] }

/-- The limits are just what the call takes. -/
def machine : Machine := .ofModules .standard ⟨8, 2⟩ [⟨"Game", [], [type]⟩]

def given : Except Failure Value × Machine := machine.call "System.Int32 T::Run()" none []

theorem raising_keeps_errand : machine.limits.Raised .standard ∧
    ∃ value after, machine.call "System.Int32 T::Run()" none [] = (.ok value, after) ∧
      Machine.call { machine with limits := .standard } "System.Int32 T::Run()" none [] =
        (.ok value, { after with limits := .standard }) ∧
      value.int32? = some 5 ∧ after.store.output = #["on the way"] ∧ after.store.heap.size = 1 ∧
      after.store.executed = 8 := by
  have raises : machine.limits.Raised .standard := ⟨by decide, by decide⟩
  have succeeds : given.1.isOk = true := by decide +kernel
  have called : given = (.ok (given.1.toOption.getD .void), given.2) := eq_of_isOk given .void succeeds
  have result : (given.1.toOption.getD .void).int32? = some 5 := by decide +kernel
  have output : given.2.store.output = #["on the way"] := by decide +kernel
  have heap : given.2.store.heap.size = 1 := by decide +kernel
  have executed : given.2.store.executed = 8 := by decide +kernel
  exact ⟨raises, _, _, called, raising_keeps raises called, result, output, heap, executed⟩

end Errand

end CilWeave.Machine
