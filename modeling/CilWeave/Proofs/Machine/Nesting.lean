import CilWeave.Proofs.Machine.Budget

/-!
Runs as calls nest. A call puts its frame on those that are active, its code is carried out, with the calls that it makes in
between, and whatever comes of that the frame is taken away again. A run that goes on from state to state and keeps the frames
of its callers itself comes to the same.
-/

namespace CilWeave.Machine

variable {program : Program} {limits : Limits}

mutual

/-- A call: what comes of it, and the store and the frames after it. Its frame is on those that are active while its code is
carried out, and is taken away whatever comes of that. -/
inductive Invokes (program : Program) (limits : Limits) :
    Store → List Frame → Call → Except Fault Value → Store → List Frame → Prop
  | refused {store : Store} {frames : List Frame} {call : Call} {fault : Fault}
      (refuses : enterFrame limits frames.length store.method call = .error fault) :
      Invokes program limits store frames call (.error fault) store frames
  | failed {store after : Store} {frames others : List Frame} {call : Call} {frame : Frame} {fault : Fault}
      (entered : enterFrame limits frames.length store.method call = .ok frame)
      (inner : Executes program limits ⟨store.enter call, frame, frames⟩ (.error fault) after others) :
      Invokes program limits store frames call (.error fault) after others.tail
  | returned {store after : Store} {frames others : List Frame} {call : Call} {frame : Frame} {value : Value}
      (entered : enterFrame limits frames.length store.method call = .ok frame)
      (inner : Executes program limits ⟨store.enter call, frame, frames⟩ (.ok value) after others) :
      Invokes program limits store frames call (.ok value) { after with method := store.method } others.tail

/-- What comes of the code of the active frame, with the store and the frames that it leaves. -/
inductive Executes (program : Program) (limits : Limits) : State → Except Fault Value → Store → List Frame → Prop
  | failed {state after : State} {fault : Fault} (acted : act program limits state = (.error fault, after)) :
      Executes program limits state (.error fault) after.store after.frames
  | returned {state after : State} {value : Value} (acted : act program limits state = (.ok (.return value), after)) :
      Executes program limits state (.ok value) after.store after.frames
  | next {state after : State} {result : Except Fault Value} {store : Store} {frames : List Frame}
      (acted : act program limits state = (.ok .next, after))
      (rest : Executes program limits { after with active := after.active.advance } result store frames) :
      Executes program limits state result store frames
  | jump {state after : State} {target : InstrId} {position : Nat} {result : Except Fault Value} {store : Store}
      {frames : List Frame} (acted : act program limits state = (.ok (.jump target), after))
      (found : after.active.body.target? target = some position)
      (rest : Executes program limits { after with active := after.active.goTo position } result store frames) :
      Executes program limits state result store frames
  | lost {state after : State} {target : InstrId} (acted : act program limits state = (.ok (.jump target), after))
      (missing : after.active.body.target? target = none) :
      Executes program limits state (.error (.missingTarget target)) after.store after.frames
  | raised {state after : State} {call : Call} {fault : Fault} {store : Store} {frames : List Frame}
      (acted : act program limits state = (.ok (.call call), after))
      (invoked : Invokes program limits after.store after.frames call (.error fault) store frames) :
      Executes program limits state (.error fault) store frames
  | resumed {state after : State} {call : Call} {value : Value} {store last : Store} {caller : Frame}
      {callers frames : List Frame} {result : Except Fault Value}
      (acted : act program limits state = (.ok (.call call), after))
      (invoked : Invokes program limits after.store after.frames call (.ok value) store (caller :: callers))
      (rest : Executes program limits ⟨store, caller.resume call.completion value, callers⟩ result last frames) :
      Executes program limits state result last frames

end

/-- What a frame goes back to. -/
def Frame.link (frame : Frame) : Completion × String := (frame.completion, frame.caller)

/-- Instructions keep what can be seen of frames apart from the values of slots and the active stack. -/
theorem map_frames_of_act {α : Type} {view : Frame → α}
    (plain : ∀ (frame : Frame) (stack : List Value), view { frame.outline with stack } = view frame) {state after : State}
    {outcome : Except Fault Control} (acted : act program limits state = (outcome, after)) :
    after.frames.map view = state.frames.map view := by
  have kept := act_outline program limits state
  rw [acted] at kept
  obtain ⟨active, callers⟩ := Prod.mk.inj kept
  have head := congrArg view active
  have tail := congrArg (List.map view) callers
  have whole : view ∘ Frame.outline = view := funext fun frame => plain frame frame.stack
  rw [plain, plain] at head
  rw [List.map_map, List.map_map, whole] at tail
  exact congrArg₂ List.cons head tail

theorem links_of_act {state after : State} {outcome : Except Fault Control}
    (acted : act program limits state = (outcome, after)) : after.frames.map Frame.link = state.frames.map Frame.link :=
  map_frames_of_act (fun _ _ => rfl) acted

theorem Frame.resume_link (frame : Frame) (completion : Completion) (result : Value) :
    (frame.resume completion result).link = frame.link := by
  cases completion <;> rfl

mutual

/-- A call leaves the frames that were active, and no other. -/
theorem Invokes.links {store after : Store} {frames others : List Frame} {call : Call} {result : Except Fault Value} :
    Invokes program limits store frames call result after others → others.map Frame.link = frames.map Frame.link
  | .refused _ => rfl
  | .failed _ inner | .returned _ inner => by rw [List.map_tail, inner.links]; rfl

theorem Executes.links {state : State} {after : Store} {others : List Frame} {result : Except Fault Value} :
    Executes program limits state result after others → others.map Frame.link = state.frames.map Frame.link
  | .failed acted | .returned acted | .lost acted _ => links_of_act acted
  | .next acted rest | .jump acted _ rest => by
      have kept := links_of_act acted
      rw [rest.links, ← kept]
      rfl
  | .raised acted invoked => invoked.links.trans (links_of_act acted)
  | .resumed acted invoked rest => by
      rw [rest.links, ← links_of_act acted, ← invoked.links]
      simp only [State.frames, List.map_cons, Frame.resume_link]

end

theorem Invokes.exists_frames {store after : Store} {active : Frame} {callers others : List Frame} {call : Call}
    {result : Except Fault Value} (invokes : Invokes program limits store (active :: callers) call result after others) :
    ∃ caller rest, others = caller :: rest := by
  cases others with
  | nil => cases invokes.links
  | cons caller rest => exact ⟨caller, rest, rfl⟩

theorem enterFrame_link {depth : Nat} {caller : String} {call : Call} {frame : Frame}
    (entered : enterFrame limits depth caller call = .ok frame) : frame.link = (call.completion, caller) := by
  obtain ⟨_, -, -, rfl⟩ := enterFrame_ok entered
  rfl

/-- What the end of an active frame's code leads to. -/
def settle (store : Store) (active : Frame) (callers : List Frame) : Except Fault Value → State ⊕ Ending
  | .error fault => .inr (.error fault, store)
  | .ok value => (State.leave ⟨store, active, callers⟩ value).progress

/-- What the end of a call leads to, in the frame that made it if there is one. -/
def proceed (store : Store) (completion : Completion) : List Frame → Except Fault Value → State ⊕ Ending
  | caller :: callers, .ok value => .inl ⟨store, caller.resume completion value, callers⟩
  | _, result => .inr (result, store)

theorem settle_returned {store : Store} {active : Frame} {callers : List Frame} {value : Value} {call : Call} {name : String}
    (link : active.link = (call.completion, name)) :
    settle store active callers (.ok value) = proceed { store with method := name } call.completion callers (.ok value) := by
  obtain ⟨completion, caller⟩ := Prod.mk.inj link
  rw [← completion, ← caller]
  cases callers <;> rfl

theorem go_of_act {state after : State} {outcome : Except Fault Control}
    (acted : act program limits state = (outcome, after)) : go program limits state = conclude limits (outcome, after) := by
  rw [go_eq_conclude, acted]

theorem goes_of_go {state next : State} (moved : go program limits state = .inl next) : ∃ control after,
    act program limits state = (.ok control, after) ∧ after.depth = state.depth ∧ Goes limits after control next := by
  have kept := State.frames_of_outline (act_outline program limits state)
  rw [go_eq_conclude] at moved
  rcases acted : act program limits state with ⟨fault | control, after⟩
  · rw [acted] at moved
    cases moved
  · rw [acted] at moved kept
    refine ⟨control, after, rfl, by simpa [State.frames, State.depth] using kept, follow_running ?_⟩
    rw [conclude] at moved
    cases followed : after.follow limits control <;> rw [followed] at moved <;> cases moved
    rfl

/-- How a run ends after an instruction that has not failed itself. -/
inductive Halts (limits : Limits) (state : State) : Control → Ending → Prop
  | lost {target : InstrId} (missing : state.active.body.target? target = none) :
      Halts limits state (.jump target) (.error (.missingTarget target), state.store)
  | finished {value : Value} (outermost : state.callers = []) :
      Halts limits state (.return value) (.ok value, { state.store with method := state.active.caller })
  | refused {call : Call} {fault : Fault}
      (refuses : enterFrame limits (state.depth + 1) state.store.method call = .error fault) :
      Halts limits state (.call call) (.error fault, state.store)

theorem follow_halts {state : State} {control : Control} {ending : Ending}
    (followed : (state.follow limits control).progress = .inr ending) : Halts limits state control ending := by
  cases control with
  | next => cases followed
  | jump target =>
      rw [State.follow, State.jump] at followed
      cases found : state.active.body.target? target <;> rw [found] at followed <;> cases followed
      exact .lost found
  | «return» value =>
      rw [State.follow, State.leave] at followed
      cases waiting : state.callers <;> rw [waiting] at followed <;> cases followed
      exact .finished waiting
  | call call =>
      rw [State.follow, State.enter] at followed
      cases entered : enterFrame limits (state.depth + 1) state.store.method call <;>
        rw [entered] at followed <;> cases followed
      exact .refused entered

/-- A run ends with an instruction that fails, or after one that leads nowhere. -/
theorem halts_of_go {state : State} {ending : Ending} (stopped : go program limits state = .inr ending) :
    ∃ outcome after, act program limits state = (outcome, after) ∧
      ((∃ fault, outcome = .error fault ∧ ending = (.error fault, after.store)) ∨
        ∃ control, outcome = .ok control ∧ Halts limits after control ending) := by
  rw [go_eq_conclude] at stopped
  rcases acted : act program limits state with ⟨fault | control, after⟩ <;> rw [acted] at stopped
  · exact ⟨_, after, rfl, .inl ⟨fault, rfl, (Sum.inr.inj stopped).symm⟩⟩
  · exact ⟨_, after, rfl, .inr ⟨control, rfl, follow_halts stopped⟩⟩

/-- How a run comes from the entry of a call to where it ends. -/
inductive Carried (program : Program) (limits : Limits) (store : Store) (frames : List Frame) (call : Call)
    (ended : State ⊕ Ending) : Prop
  | refused {fault : Fault} (refuses : enterFrame limits frames.length store.method call = .error fault)
      (ends : ended = .inr (.error fault, store))
  | entered {frame : Frame} {history : List State} {last : State}
      (entered : enterFrame limits frames.length store.method call = .ok frame)
      (passes : Passes (go program limits) ⟨store.enter call, frame, frames⟩ history last)
      (ends : go program limits last = ended)

/-- In the code that makes a call the run comes to its end. -/
theorem Carried.passes {state after : State} {call : Call} {ended : State ⊕ Ending}
    (acted : act program limits state = (.ok (.call call), after))
    (carried : Carried program limits after.store after.frames call ended) :
    ∃ history last, Passes (go program limits) state history last ∧ go program limits last = ended := by
  have enters := go_of_act acted
  rw [conclude, State.follow, State.enter, show after.depth + 1 = after.frames.length from rfl] at enters
  cases carried with
  | refused refuses ends =>
      rw [refuses] at enters
      exact ⟨[], state, .here state, enters.trans ends.symm⟩
  | entered entered passes ends =>
      rw [entered] at enters
      exact ⟨_, _, .on enters passes, ends⟩

mutual

theorem Invokes.carried {store after : Store} {frames others : List Frame} {call : Call} {result : Except Fault Value} :
    Invokes program limits store frames call result after others →
      Carried program limits store frames call (proceed after call.completion others result)
  | .refused refuses => .refused refuses (by cases frames <;> rfl)
  | .failed entered inner => by
      obtain ⟨history, last, own, callers, same, passes, lands⟩ := inner.reaches
      rw [same]
      exact .entered entered passes (lands.trans (by cases callers <;> rfl))
  | .returned entered inner => by
      obtain ⟨history, last, own, callers, same, passes, lands⟩ := inner.reaches
      have links := inner.links
      rw [same] at links ⊢
      exact .entered entered passes (lands.trans (settle_returned ((List.cons.inj links).1.trans (enterFrame_link entered))))

theorem Executes.reaches {state : State} {after : Store} {others : List Frame} {result : Except Fault Value} :
    Executes program limits state result after others →
    ∃ history last active callers, others = active :: callers ∧ Passes (go program limits) state history last ∧
      go program limits last = settle after active callers result
  | .failed acted | .returned acted => ⟨[], state, _, _, rfl, .here state, go_of_act acted⟩
  | .lost acted missing => by
      refine ⟨[], state, _, _, rfl, .here state, ?_⟩
      rw [go_of_act acted, conclude, State.follow, State.jump, missing]
      rfl
  | .next acted rest => by
      obtain ⟨history, last, active, callers, same, passes, lands⟩ := rest.reaches
      exact ⟨_, last, active, callers, same, .on (go_of_act acted) passes, lands⟩
  | .jump acted found rest => by
      obtain ⟨history, last, active, callers, same, passes, lands⟩ := rest.reaches
      refine ⟨_, last, active, callers, same, .on ?_ passes, lands⟩
      rw [go_of_act acted, conclude, State.follow, State.jump, found]
      rfl
  | .raised acted invoked => by
      obtain ⟨history, last, passes, lands⟩ := invoked.carried.passes acted
      obtain ⟨active, callers, same⟩ := invoked.exists_frames
      exact ⟨history, last, active, callers, same, passes, lands.trans (by rw [same]; rfl)⟩
  | .resumed acted invoked rest => by
      obtain ⟨history, middle, passes, lands⟩ := invoked.carried.passes acted
      obtain ⟨later, last, active, others, same, goesOn, stops⟩ := rest.reaches
      exact ⟨_, last, active, others, same, passes.trans (.on lands goesOn), stops⟩

end

/-- A call comes to an end where the code that it enters does. -/
theorem exists_invokes (store : Store) (frames : List Frame) (call : Call)
    (inner : ∀ frame, enterFrame limits frames.length store.method call = .ok frame → ∃ result after others,
      Executes program limits ⟨store.enter call, frame, frames⟩ result after others ∧ store.executed ≤ after.executed) :
    ∃ result after others,
      Invokes program limits store frames call result after others ∧ store.executed ≤ after.executed := by
  cases entered : enterFrame limits frames.length store.method call with
  | error fault => exact ⟨_, _, _, .refused entered, Nat.le_refl _⟩
  | ok frame =>
      obtain ⟨result, after, others, executes, more⟩ := inner frame entered
      cases result with
      | error fault => exact ⟨_, _, _, .failed entered executes, more⟩
      | ok value => exact ⟨_, _, _, .returned entered executes, more⟩

/-- All code is carried out in the end, whatever comes of it: what is called has fewer instructions left, and so has what comes
after the call. -/
theorem exists_executes (program : Program) (limits : Limits) (state : State) :
    ∃ result store frames, Executes program limits state result store frames ∧ state.store.executed ≤ store.executed := by
  generalize left : limits.maxInstructions - state.store.executed = allowed
  induction allowed using Nat.strongRecOn generalizing state with
  | ind allowed ih =>
      have counts := act_executed program limits state
      rcases acted : act program limits state with ⟨fault | control, after⟩
      · rw [acted] at counts
        dsimp only at counts
        exact ⟨_, _, _, .failed acted, by omega⟩
      · rw [acted] at counts
        rcases counts with ⟨executes, counted⟩ | ⟨-, ⟨fault, failed⟩, -⟩
        · dsimp only at counted
          have within := State.executes_lt executes
          have more : state.store.executed ≤ after.store.executed := by omega
          have later (next : State) (counted : after.store.executed ≤ next.store.executed) :=
            ih (limits.maxInstructions - next.store.executed) (by omega) next rfl
          cases control with
          | next =>
              obtain ⟨_, _, _, rest, most⟩ := later { after with active := after.active.advance } (Nat.le_refl _)
              exact ⟨_, _, _, .next acted rest, Nat.le_trans more most⟩
          | jump target =>
              cases found : after.active.body.target? target with
              | none => exact ⟨_, _, _, .lost acted found, more⟩
              | some position =>
                  obtain ⟨_, _, _, rest, most⟩ := later { after with active := after.active.goTo position } (Nat.le_refl _)
                  exact ⟨_, _, _, .jump acted found rest, Nat.le_trans more most⟩
          | «return» value => exact ⟨_, _, _, .returned acted, more⟩
          | call call =>
              obtain ⟨result, store, others, invoked, most⟩ := exists_invokes after.store after.frames call fun frame _ =>
                later ⟨after.store.enter call, frame, after.frames⟩ (Nat.le_refl _)
              cases result with
              | error fault => exact ⟨_, _, _, .raised acted invoked, Nat.le_trans more most⟩
              | ok value =>
                  obtain ⟨caller, callers, rfl⟩ := invoked.exists_frames
                  obtain ⟨_, _, _, rest, last⟩ := later ⟨store, caller.resume call.completion value, callers⟩ most
                  exact ⟨_, _, _, .resumed acted invoked rest, Nat.le_trans more (Nat.le_trans most last)⟩
        · cases failed

/-- A call that nothing else made comes to one end, that of the run from its entry, and leaves no frame. -/
theorem invokes_iff {store after : Store} {call : Call} {result : Except Fault Value} {frames : List Frame} :
    Invokes program limits store [] call result after frames ↔
      store.call program limits call = (result, after) ∧ frames = [] := by
  have sound {result : Except Fault Value} {after : Store} {frames : List Frame}
      (invokes : Invokes program limits store [] call result after frames) :
      store.call program limits call = (result, after) ∧ frames = [] := by
    have cleared : frames = [] := List.map_eq_nil_iff.mp invokes.links
    refine ⟨?_, cleared⟩
    have lands : proceed after call.completion frames result = .inr (result, after) := by
      rw [cleared]
      cases result <;> rfl
    unfold Store.call
    cases invokes.carried with
    | refused refuses ends =>
        rw [show enterFrame limits 0 store.method call = _ from refuses]
        exact Sum.inr.inj (ends.symm.trans lands)
    | entered entered passes ends =>
        rw [show enterFrame limits 0 store.method call = _ from entered]
        exact ((run_ends_at program limits _).deterministic (passes.ends (.now (ends.trans lands)))).2
  refine ⟨sound, fun ⟨called, cleared⟩ => ?_⟩
  obtain ⟨result, after, frames, invokes, -⟩ := exists_invokes store [] call fun frame _ =>
    exists_executes program limits ⟨store.enter call, frame, []⟩
  obtain ⟨same, rfl⟩ := sound invokes
  obtain ⟨rfl, rfl⟩ := Prod.mk.inj (called.symm.trans same)
  exact cleared ▸ invokes

end CilWeave.Machine
