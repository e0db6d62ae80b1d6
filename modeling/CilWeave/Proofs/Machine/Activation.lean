import CilWeave.Proofs.Machine.Action

/-!
One activation of a method within a run: the steps from its entry that never leave its frame. Its own
frame goes on step by step, and while it waits for a call nothing but the values of its slots changes.
-/

namespace CilWeave.Machine

variable {program : Program} {limits : Limits} {state next start : State}

theorem Frame.completion_of_outline {frame same : Frame} (agree : same.outline = frame.outline) :
    same.completion = frame.completion :=
  show same.outline.completion = frame.outline.completion from agree ▸ rfl

theorem Frame.kept_of_outline {frame same : Frame} (agree : same.outline = frame.outline) :
    same.body = frame.body ∧ same.position = frame.position ∧ same.returnsValue = frame.returnsValue :=
  ⟨show same.outline.body = frame.outline.body from agree ▸ rfl,
    show same.outline.position = frame.outline.position from agree ▸ rfl,
    show same.outline.returnsValue = frame.outline.returnsValue from agree ▸ rfl⟩

theorem State.kept_of_outline {state same : State} (agree : same.outline = state.outline) :
    same.active.body = state.active.body ∧ same.active.position = state.active.position ∧
      same.active.returnsValue = state.active.returnsValue ∧ same.active.completion = state.active.completion ∧
      same.callers.map Frame.outline = state.callers.map Frame.outline := by
  obtain ⟨active, callers⟩ := Prod.mk.inj agree
  simp only [Frame.outline, Frame.mk.injEq] at active
  exact ⟨active.1, active.2.1, active.2.2.2.2.2.1, active.2.2.2.2.2.2.1, callers⟩

@[simp] theorem Frame.resume_completion (frame : Frame) (completion : Completion) (result : Value) :
    (frame.resume completion result).completion = frame.completion := by
  cases completion <;> rfl

theorem Frame.resume_place (frame : Frame) (completion : Completion) (result : Value) :
    (frame.resume completion result).body = frame.body ∧
      (frame.resume completion result).position = frame.position + 1 ∧
      (frame.resume completion result).returnsValue = frame.returnsValue := by
  cases completion <;> exact ⟨rfl, rfl, rfl⟩

theorem Frame.resume_bare {woven frame : Frame} (same : woven.bare = frame.bare) (completion : Completion)
    (value : Value) : (woven.resume completion value).bare = (frame.resume completion value).bare := by
  simp only [Frame.bare, Frame.mk.injEq] at same
  cases completion <;> simp [Frame.resume, Frame.push, Frame.advance, Frame.bare, same]

/-- What a step that goes on has done. -/
theorem step_running (stepped : step program limits state = .running next) :
    ∃ instruction control after, state.active.instruction? = some instruction ∧
      (execute program instruction).run.run state.count = (.ok control, after) ∧
      after.outline = state.outline ∧ after.follow limits control = .running next := by
  unfold step at stepped
  cases found : state.active.instruction? with
  | none => simp [found] at stepped
  | some instruction =>
      simp only [found] at stepped
      split at stepped
      · cases stepped
      · have kept := (composed_execute program instruction).keeps state.count
        rcases ran : (execute program instruction).run.run state.count with ⟨_ | control, after⟩
        · simp [ran] at stepped
        · simp only [ran] at stepped kept
          exact ⟨instruction, control, after, rfl, ran, kept, stepped⟩

/-- How a state goes on after an instruction. -/
inductive Goes (limits : Limits) (state : State) : Control → State → Prop
  | next : Goes limits state .next { state with active := state.active.advance }
  | jump {target : InstrId} {position : Nat} (found : state.active.body.target? target = some position) :
      Goes limits state (.jump target) { state with active := state.active.goTo position }
  | return {value : Value} {caller : Frame} {callers : List Frame} (waiting : state.callers = caller :: callers) :
      Goes limits state (.return value)
        ⟨{ state.store with method := state.active.caller }, caller.resume state.active.completion value, callers⟩
  | call {call : Call} {frame : Frame}
      (entered : enterFrame limits (state.depth + 1) state.store.method call = .ok frame) :
      Goes limits state (.call call) ⟨state.store.enter call, frame, state.active :: state.callers⟩

theorem follow_running {control : Control} (followed : state.follow limits control = .running next) :
    Goes limits state control next := by
  cases control with
  | next => cases followed; exact .next
  | jump target =>
      simp only [State.follow, State.jump] at followed
      cases found : state.active.body.target? target with
      | none => simp [found] at followed
      | some position =>
          simp only [found, Outcome.running.injEq] at followed
          exact followed ▸ .jump found
  | «return» value =>
      simp only [State.follow, State.leave] at followed
      cases waiting : state.callers with
      | nil => simp [waiting] at followed
      | cons caller callers =>
          simp only [waiting, Outcome.running.injEq] at followed
          exact followed ▸ .return waiting
  | call call =>
      simp only [State.follow, State.enter] at followed
      cases entered : enterFrame limits (state.depth + 1) state.store.method call with
      | error fault => simp [entered] at followed
      | ok frame =>
          simp only [entered, Outcome.running.injEq] at followed
          exact followed ▸ .call entered

/-- What a step that goes on does to the frames: it stays in the active one, resumes the caller, or enters
a frame above the active one. Up to the values of slots, the frames below stay as they are. -/
theorem step_frames (stepped : step program limits state = .running next) :
    (next.active.completion = state.active.completion ∧
        next.callers.map Frame.outline = state.callers.map Frame.outline) ∨
      (∃ (caller waiting : Frame) (callers : List Frame) (value : Value),
        state.callers = waiting :: callers ∧ caller.outline = waiting.outline ∧
        next.active = caller.resume state.active.completion value ∧
        next.callers.map Frame.outline = callers.map Frame.outline) ∨
      ∃ (frame : Frame) (callers : List Frame), next.callers = frame :: callers ∧
      frame.completion = state.active.completion ∧
        callers.map Frame.outline = state.callers.map Frame.outline := by
  obtain ⟨instruction, control, after, -, -, kept, followed⟩ := step_running stepped
  obtain ⟨active, callers⟩ := Prod.mk.inj kept
  have completion : after.active.completion = state.active.completion := by
    simpa [Frame.outline] using congrArg Frame.completion active
  cases follow_running followed with
  | next => exact .inl ⟨completion, callers⟩
  | jump found => exact .inl ⟨completion, callers⟩
  | «return» waiting =>
      rename_i value caller rest
      rw [waiting] at callers
      cases below : state.callers with
      | nil => simp [below] at callers
      | cons frame others =>
          rw [below] at callers
          obtain ⟨head, tail⟩ := List.cons.inj callers
          exact .inr (.inl ⟨caller, frame, others, value, rfl, head, by rw [completion], tail⟩)
  | call entered => exact .inr (.inr ⟨after.active, after.callers, rfl, completion, callers⟩)

/-- The frame a call is given. -/
theorem enterFrame_ok {depth : Nat} {caller : String} {call : Call} {frame : Frame}
    (entered : enterFrame limits depth caller call = .ok frame) :
    ∃ body, call.method.body = some body ∧ call.args.length = call.method.argumentCount ∧
      frame =
        { body
          position := 0
          args := call.args.toArray
          locals := body.locals.map Value.default
          stack := []
          returnsValue := !call.method.returns.isVoid
          completion := call.completion
          caller } := by
  unfold enterFrame at entered
  simp only [bind, Except.bind, throw, throwThe, MonadExceptOf.throw, pure, Except.pure] at entered
  split at entered
  · cases entered
  · cases defined : call.method.body with
    | none => simp [defined] at entered
    | some body =>
        simp only [defined, ne_eq, ite_not] at entered
        split at entered
        · rename_i count
          cases entered
          exact ⟨body, rfl, count, rfl⟩
        · cases entered

/-- The steps of one activation from its entry, with the states of its own frame that it has left
behind. -/
inductive Activation (program : Program) (limits : Limits) (start : State) : List State → State → Prop
  | enter : Activation program limits start [] start
  | own {visited : List State} {state next : State} : Activation program limits start visited state →
      state.depth = start.depth → step program limits state = .running next → start.depth ≤ next.depth →
      Activation program limits start (visited ++ [state]) next
  | inner {visited : List State} {state next : State} : Activation program limits start visited state →
      start.depth < state.depth → step program limits state = .running next →
      Activation program limits start visited next

/-- Follows an activation for a number of steps, from a state it has come to. -/
def walk? (program : Program) (limits : Limits) (depth : Nat) : Nat → List State → State → Option (List State × State)
  | 0, visited, state => some (visited, state)
  | steps + 1, visited, state =>
    match step program limits state with
    | .running next =>
      if state.depth = depth then
        if depth ≤ next.depth then walk? program limits depth steps (visited ++ [state]) next else none
      else if depth < state.depth then walk? program limits depth steps visited next
      else none
    | _ => none

theorem Activation.walk {steps : Nat} {visited later : List State} {last : State}
    (activation : Activation program limits start visited state)
    (walked : walk? program limits start.depth steps visited state = some (later, last)) :
    Activation program limits start later last := by
  induction steps generalizing visited state with
  | zero =>
      cases walked
      exact activation
  | succ steps ih =>
      unfold walk? at walked
      split at walked
      · rename_i next stepped
        split at walked
        · rename_i here
          split at walked
          · rename_i above
            exact ih (.own activation here stepped above) walked
          · cases walked
        · split at walked
          · rename_i above
            exact ih (.inner activation above stepped) walked
          · cases walked
      · cases walked

/-- The states left behind are states in which the own frame went on. -/
theorem Activation.went_on {visited : List State} (activation : Activation program limits start visited state) {called : State}
    (member : called ∈ visited) :
    ∃ earlier next, Activation program limits start earlier called ∧ called.depth = start.depth ∧
      step program limits called = .running next := by
  induction activation with
  | enter => cases member
  | @own visited state next activation here stepped above ih =>
      rcases List.mem_append.mp member with earlier | last
      · exact ih earlier
      · cases List.mem_singleton.mp last
        exact ⟨visited, next, activation, here, stepped⟩
  | inner activation above stepped ih => exact ih member

/-- The frame at a depth waits: the frame above it will complete as given. -/
def Waits (depth : Nat) (waiting : Completion → Frame → Prop) : Completion → List Frame → Prop
  | _, [] => False
  | completion, frame :: rest =>
    if rest.length = depth then waiting completion frame else Waits depth waiting frame.completion rest

variable {depth : Nat} {waiting : Completion → Frame → Prop}

/-- Frames that agree up to the values of their slots wait for the same. -/
theorem Waits.of_outline (respects : ∀ completion frame same, Frame.outline same = frame.outline →
      waiting completion frame → waiting completion same)
    {completion : Completion} {frames others : List Frame} (same : others.map Frame.outline = frames.map Frame.outline)
    (waits : Waits depth waiting completion frames) : Waits depth waiting completion others := by
  induction frames generalizing completion others with
  | nil => exact waits.elim
  | cons frame rest ih =>
      cases others with
      | nil => cases same
      | cons other others =>
          obtain ⟨head, tail⟩ := List.cons.inj same
          have length : others.length = rest.length := by simpa using congrArg List.length tail
          have completes := Frame.completion_of_outline head
          unfold Waits at waits ⊢
          rw [length, completes]
          split at waits
          · rename_i own
            rw [if_pos own]
            exact respects _ _ _ head waits
          · rename_i below
            rw [if_neg below]
            exact ih tail waits

/-- A property of an activation's own frame holds whenever the frame is about to go on, if a step that
stays in the frame preserves it and a call leaves the frame waiting for what its return restores. Both
properties may speak of the states left behind. -/
theorem Activation.own_frame {visited : List State} (activation : Activation program limits start visited state)
    (ready : List State → Frame → Prop) (waiting : List State → Completion → Frame → Prop)
    (respects : ∀ visited completion frame same, Frame.outline same = frame.outline →
      waiting visited completion frame → waiting visited completion same)
    (entered : ready [] start.active)
    (goes : ∀ visited state next, ready visited state.active → step program limits state = .running next →
      next.depth = state.depth → ready (visited ++ [state]) next.active)
    (calls : ∀ visited state next frame callers, ready visited state.active →
      step program limits state = .running next → next.callers = frame :: callers → next.depth = state.depth + 1 →
      waiting (visited ++ [state]) next.active.completion frame)
    (resumes : ∀ visited completion frame value, waiting visited completion frame →
      ready visited (frame.resume completion value)) :
    if state.depth = start.depth then ready visited state.active
    else Waits start.depth (waiting visited) state.active.completion state.callers := by
  have sameDepth {callers others : List Frame} (same : callers.map Frame.outline = others.map Frame.outline) :
      callers.length = others.length := by simpa using congrArg List.length same
  induction activation with
  | enter => rw [if_pos rfl]; exact entered
  | @own visited state next activation here stepped above ih =>
      rw [if_pos here] at ih
      rcases step_frames stepped with ⟨-, below⟩ | ⟨caller, frame, callers, value, waits, -, -, below⟩ |
          ⟨frame, callers, waits, -, below⟩
      · have depth : next.depth = state.depth := sameDepth below
        rw [if_pos (depth.trans here)]
        exact goes visited state next ih stepped depth
      · have depth := sameDepth below
        simp only [State.depth, waits, List.length_cons] at depth above here
        omega
      · have depth : callers.length = state.depth := sameDepth below
        rw [if_neg (by simp only [State.depth, waits, List.length_cons] at depth here ⊢; omega), waits]
        unfold Waits
        rw [if_pos (depth.trans here)]
        refine calls visited state next frame callers ih stepped waits ?_
        simp only [State.depth, waits, List.length_cons] at depth ⊢
        omega
  | @inner visited state next activation above stepped ih =>
      rw [if_neg (Nat.ne_of_gt above)] at ih
      rcases step_frames stepped with ⟨completion, below⟩ | ⟨caller, frame, callers, value, waits,
        same, resumed, below⟩ |
          ⟨frame, callers, waits, completion, below⟩
      · have depth : next.depth = state.depth := sameDepth below
        rw [if_neg (by omega), completion]
        exact ih.of_outline (respects visited) below
      · rw [waits] at ih
        have depth : next.depth = callers.length := sameDepth below
        unfold Waits at ih
        split at ih
        · rename_i own
          rw [if_pos (depth.trans own), resumed]
          exact resumes visited _ caller value (respects visited _ _ _ same ih)
        · rename_i inside
          rw [if_neg (by omega), resumed]
          have completes : (caller.resume state.active.completion value).completion = frame.completion := by
            rw [Frame.resume_completion]
            exact Frame.completion_of_outline same
          rw [completes]
          exact ih.of_outline (respects visited) below
      · have depth : callers.length = state.depth := sameDepth below
        rw [if_neg (by simp only [State.depth, waits, List.length_cons] at depth above ⊢; omega), waits]
        unfold Waits
        rw [if_neg (by omega), completion]
        exact ih.of_outline (respects visited) below

end CilWeave.Machine
