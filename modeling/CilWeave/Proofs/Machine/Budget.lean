import CilWeave.Proofs.Machine.Activation
import CilWeave.Proofs.Machine.Trace

/-!
What runs take. Each step but the last counts an instruction that is still allowed, and each call is only entered below the
limit on frames: every run ends, within the number of steps that it is given, and no state on its way is deeper than allowed.
-/

namespace CilWeave.Machine

variable {program : Program} {limits : Limits} {state next : State} {history : List State} {ending : Ending}

/-- The frames that are active, the innermost first. -/
def State.frames (state : State) : List Frame := state.active :: state.callers

theorem State.frames_of_outline {after : State} (same : after.outline = state.outline) :
    after.frames.length = state.frames.length := by
  have callers := congrArg List.length (Prod.mk.inj same).2
  simpa [frames] using callers

/-- An instruction comes next, and the limit allows it. -/
def State.executes (limits : Limits) (state : State) : Bool :=
  state.active.instruction?.isSome && decide (state.store.executed < limits.maxInstructions)

/-- What the next instruction does, before control goes on as it says. -/
def act (program : Program) (limits : Limits) (state : State) : Except Fault Control × State :=
  match state.active.instruction? with
  | none => (.error .endOfBody, state)
  | some instruction =>
    if limits.maxInstructions < state.count.store.executed then
      (.error (.instructionLimit limits.maxInstructions), state.count)
    else (execute program instruction).run.run state.count

theorem step_of_go (moved : go program limits state = .inl next) : step program limits state = .running next := by
  rw [go] at moved
  cases stepped : step program limits state <;> rw [stepped] at moved <;> cases moved
  rfl

theorem go_eq_conclude (program : Program) (limits : Limits) (state : State) :
    go program limits state = conclude limits (act program limits state) := by
  unfold go step act
  cases state.active.instruction? with
  | none => rfl
  | some instruction =>
      dsimp only
      split
      · rfl
      · rcases (execute program instruction).run.run state.count with ⟨_ | control, after⟩ <;> rfl

theorem act_outline (program : Program) (limits : Limits) (state : State) :
    (act program limits state).2.outline = state.outline := by
  unfold act
  split
  · rfl
  · split
    · rfl
    · exact (composed_execute program _).keeps state.count

theorem act_method (program : Program) (limits : Limits) (state : State) :
    (act program limits state).2.store.method = state.store.method := by
  unfold act
  split
  · rfl
  · split
    · rfl
    · exact (composed_execute program _).keepsMethod state.count

/-- An instruction is counted and executed, or the run fails, at the end of the code or at the limit. -/
theorem act_executed (program : Program) (limits : Limits) (state : State) :
    (state.executes limits = true ∧ (act program limits state).2.store.executed = state.store.executed + 1) ∨
      state.executes limits = false ∧ (∃ fault, (act program limits state).1 = .error fault) ∧
        ((act program limits state).2.store.executed = state.store.executed ∨
          (act program limits state).2.store.executed = state.store.executed + 1 ∧
            limits.maxInstructions ≤ state.store.executed) := by
  unfold act State.executes
  cases state.active.instruction? with
  | none => exact .inr ⟨rfl, ⟨_, rfl⟩, .inl rfl⟩
  | some instruction =>
      have counted : state.count.store.executed = state.store.executed + 1 := rfl
      dsimp only
      split
      · rename_i past
        rw [counted] at past
        exact .inr ⟨by simp; omega, ⟨_, rfl⟩, .inr ⟨rfl, by omega⟩⟩
      · rename_i within
        rw [counted] at within
        exact .inl ⟨by simp; omega, ((composed_execute program instruction).counts _).trans counted⟩

/-- How many instructions have been counted where a step leads to. -/
def counter : State ⊕ Ending → Nat
  | .inl next => next.store.executed
  | .inr ending => ending.2.executed

theorem counter_conclude (limits : Limits) (outcome : Except Fault Control × State) :
    counter (conclude limits outcome) = outcome.2.store.executed := by
  obtain ⟨_ | control, after⟩ := outcome
  · rfl
  · cases control with
    | next => rfl
    | jump target =>
        simp only [conclude, State.follow, State.jump]
        cases after.active.body.target? target <;> rfl
    | «return» value =>
        simp only [conclude, State.follow, State.leave]
        cases after.callers <;> rfl
    | call call =>
        simp only [conclude, State.follow, State.enter]
        cases enterFrame limits (after.depth + 1) after.store.method call <;> rfl

theorem go_inl (moved : go program limits state = .inl next) :
    state.executes limits = true ∧ next.store.executed = state.store.executed + 1 := by
  rw [go_eq_conclude] at moved
  have counted := counter_conclude limits (act program limits state)
  rw [moved] at counted
  rcases act_executed program limits state with ⟨executes, executed⟩ | ⟨-, ⟨fault, failed⟩, -⟩
  · exact ⟨executes, counted.trans executed⟩
  · rw [show act program limits state = (.error fault, (act program limits state).2) from Prod.ext failed rfl] at moved
    cases moved

theorem go_inr (stopped : go program limits state = .inr ending) :
    (state.executes limits = true ∧ ending.2.executed = state.store.executed + 1) ∨
      state.executes limits = false ∧ (ending.2.executed = state.store.executed ∨
        ending.2.executed = state.store.executed + 1 ∧ limits.maxInstructions ≤ state.store.executed) := by
  rw [go_eq_conclude] at stopped
  have counted := counter_conclude limits (act program limits state)
  rw [stopped] at counted
  rw [show ending.2.executed = _ from counted]
  exact (act_executed program limits state).imp_right fun ⟨stays, _, executed⟩ => ⟨stays, executed⟩

theorem State.executes_lt (executes : state.executes limits = true) : state.store.executed < limits.maxInstructions := by
  simpa using (Bool.and_eq_true_iff.mp executes).2

/-- How many of the states execute an instruction. -/
def executions (limits : Limits) (history : List State) : Nat := history.countP (State.executes limits)

theorem executions_cons (executes : state.executes limits = true) :
    executions limits (state :: history) = executions limits history + 1 := List.countP_cons_of_pos executes

/-- Instructions that are executed are still allowed. They are counted, and so is one more that is refused at the limit. -/
structure Spends (limits : Limits) (before spent after : Nat) : Prop where
  within : spent ≤ limits.maxInstructions - before
  counted : after = before + spent ∨ after = before + spent + 1 ∧ limits.maxInstructions ≤ before + spent

theorem Spends.nothing (limits : Limits) (before : Nat) : Spends limits before 0 before := ⟨Nat.zero_le _, .inl rfl⟩

/-- Every run ends. -/
theorem exists_ends (program : Program) (limits : Limits) (state : State) :
    ∃ history ending, Ends (go program limits) state history ending := by
  generalize left : limits.maxInstructions - state.store.executed = allowed
  induction allowed using Nat.strongRecOn generalizing state with
  | ind allowed ih =>
      cases moved : go program limits state with
      | inr ending => exact ⟨_, ending, .now moved⟩
      | inl next =>
          obtain ⟨executes, executed⟩ := go_inl moved
          have within := State.executes_lt executes
          obtain ⟨history, ending, ended⟩ := ih _ (by omega) next rfl
          exact ⟨_, ending, .on moved ended⟩

namespace Ends

variable (ended : Ends (go program limits) state history ending)

include ended

/-- All states but the last execute an instruction. -/
theorem length_le : history.length ≤ executions limits history + 1 := by
  induction ended with
  | now stopped => simp
  | on moved _ ih =>
      rw [List.length_cons, executions_cons (go_inl moved).1]
      omega

theorem spends : Spends limits state.store.executed (executions limits history) ending.2.executed := by
  induction ended with
  | now stopped =>
      rcases go_inr stopped with ⟨executes, executed⟩ | ⟨stays, executed⟩
      · have within := State.executes_lt executes
        rw [executions_cons executes, executed]
        exact ⟨by simp only [executions, List.countP_nil]; omega, .inl rfl⟩
      · rw [executions, List.countP_cons_of_neg (by simp [stays])]
        exact ⟨Nat.zero_le _, executed⟩
  | on moved _ ih =>
      obtain ⟨executes, executed⟩ := go_inl moved
      have within := State.executes_lt executes
      obtain ⟨left, counted⟩ := ih
      rw [executions_cons executes]
      exact ⟨by omega, by omega⟩

end Ends

/-- The states that a run goes through, as many as it has steps for. -/
def trace (program : Program) (limits : Limits) : Nat → State → List State
  | 0, _ => []
  | steps + 1, state =>
    match step program limits state with
    | .running next => state :: trace program limits steps next
    | _ => [state]

theorem Ends.run {steps : Nat} (ended : Ends (go program limits) state history ending) (enough : history.length ≤ steps) :
    run program limits steps state = ending ∧ trace program limits steps state = history := by
  induction ended generalizing steps with
  | now stopped =>
      rename_i state ending
      cases steps with
      | zero => exact absurd enough (Nat.not_succ_le_zero _)
      | succ steps =>
          rw [go] at stopped
          rw [Machine.run, trace]
          cases stepped : step program limits state <;> rw [stepped] at stopped <;> cases stopped <;> exact ⟨rfl, rfl⟩
  | on moved _ ih =>
      rename_i state next history ending _
      cases steps with
      | zero => exact absurd enough (Nat.not_succ_le_zero _)
      | succ steps =>
          obtain ⟨same, states⟩ := ih (Nat.le_of_succ_le_succ enough)
          rw [Machine.run, trace, step_of_go moved]
          exact ⟨same, congrArg _ states⟩

/-- The steps that a run is given are as many as it takes. -/
theorem run_ends_at (program : Program) (limits : Limits) (state : State) :
    Ends (go program limits) state (trace program limits (limits.steps state.store.executed) state)
      (run program limits (limits.steps state.store.executed) state) := by
  obtain ⟨history, ending, ended⟩ := exists_ends program limits state
  have enough : history.length ≤ limits.steps state.store.executed :=
    Nat.le_trans ended.length_le (Nat.succ_le_succ ended.spends.within)
  obtain ⟨same, states⟩ := ended.run enough
  rw [same, states]
  exact ended

theorem enterFrame_depth {depth : Nat} {caller : String} {call : Call} {frame : Frame}
    (entered : enterFrame limits depth caller call = .ok frame) : depth < limits.maxCallDepth := by
  unfold enterFrame at entered
  refine Nat.lt_of_not_le fun deep => ?_
  simp only [deep, if_true, bind, Except.bind, throw, throwThe, MonadExceptOf.throw] at entered
  cases entered

theorem go_shallow (moved : go program limits state = .inl next) (shallow : state.frames.length ≤ limits.maxCallDepth) :
    next.frames.length ≤ limits.maxCallDepth := by
  obtain ⟨instruction, control, after, -, -, kept, followed⟩ := step_running (step_of_go moved)
  have same := State.frames_of_outline kept
  cases follow_running followed with
  | next => exact same ▸ shallow
  | jump found => exact same ▸ shallow
  | «return» waiting =>
      simp only [State.frames, waiting, List.length_cons] at same shallow ⊢
      omega
  | call entered =>
      have deep := enterFrame_depth entered
      simp only [State.frames, State.depth, List.length_cons] at deep ⊢
      omega

theorem Ends.shallow (ended : Ends (go program limits) state history ending)
    (shallow : state.frames.length ≤ limits.maxCallDepth) :
    ∀ passed ∈ history, passed.frames.length ≤ limits.maxCallDepth := by
  induction ended with
  | now stopped => simpa using shallow
  | on moved _ ih => exact List.forall_mem_cons.mpr ⟨shallow, ih (go_shallow moved shallow)⟩

end CilWeave.Machine
