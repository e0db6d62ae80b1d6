import CilWeave.Proofs.Body.Redirection
import CilWeave.Proofs.Machine.Activation
import CilWeave.Proofs.Mixin.InjectedRun

/-!
The woven machine does what the interposed machine does: each step of the interposed machine is matched
by the steps of the woven one through the code in front of an instruction, or by the instruction itself.
-/

open CilWeave.Stateful

namespace CilWeave

open Machine

namespace Interposition

/-- Where the injected call lies in the code of a place. -/
def callOffset (interposition : Interposition) : Nat :=
  interposition.site.carrierDrafts.length + interposition.site.sources.length

/-- Where the code goes on after the callback. -/
def askOffset (interposition : Interposition) : Nat :=
  interposition.site.carrierDrafts.length + interposition.site.callDrafts.length

variable (interposition : Interposition) (entry : InstrId → InstrId) (start : Nat → Nat)

/-- A woven frame stands at an offset into the block of a position. -/
structure Stands (frame : Frame) (position offset : Nat) : Prop where
  recognized : interposition.Recognizes frame
  position : frame.position = start position + offset

/-- How the active frames of the two machines correspond. -/
inductive Placed : Phase → Frame → Frame → Prop
  | other {reference woven : Frame} : woven.body = reference.body → woven.position = reference.position →
      ¬interposition.Recognizes woven → Placed .other reference woven
  | due {reference woven : Frame} : reference.body = interposition.original →
      interposition.phaseAt reference.position = .due → interposition.Stands start woven reference.position 0 →
      Placed .due reference woven
  | returned {reference woven : Frame} : interposition.site.carrier.isSome = true →
      reference.body = interposition.original → interposition.phaseAt reference.position = .due →
      interposition.Stands start woven reference.position interposition.askOffset → Placed .returned reference woven
  | ready {reference woven : Frame} : reference.body = interposition.original →
      reference.position ≤ interposition.original.instructions.size →
      interposition.Stands start woven reference.position (interposition.code entry reference.position).length →
      Placed .ready reference woven

/-- How frames of callers correspond. -/
inductive Waiting : Pending → Frame → Frame → Prop
  | other {reference woven : Frame} : woven.body = reference.body → woven.position = reference.position →
      ¬interposition.Recognizes woven → Waiting .other reference woven
  | callback {reference woven : Frame} : reference.body = interposition.original →
      interposition.phaseAt reference.position = .due →
      interposition.Stands start woven reference.position interposition.callOffset → Waiting .callback reference woven
  | own {reference woven : Frame} : reference.body = interposition.original →
      reference.position < interposition.original.instructions.size →
      interposition.Stands start woven reference.position (interposition.code entry reference.position).length →
      Waiting .own reference woven

/-- All callers correspond, and what returns to one that waits for the callback returns as from it. -/
def Stacked : Completion → List Pending → List Frame → List Frame → Prop
  | _, [], [], [] => True
  | above, pending :: rest, reference :: references, woven :: wovens =>
    interposition.Waiting entry start pending reference woven ∧
      (pending = .callback → above = interposition.completion) ∧
      Stacked reference.completion rest references wovens
  | _, _, _, _ => False

/-- How states of the two machines correspond. -/
structure Simulates (interposed : Interposed) (state : State) : Prop where
  bare : state.bare = interposed.state.bare
  active : interposition.Placed entry start interposed.phase interposed.state.active state.active
  callers : interposition.Stacked entry start interposed.state.active.completion interposed.pending
    interposed.state.callers state.callers

variable {interposition entry start}

theorem Recognizes.of_same {frame same : Frame} (body : same.body = frame.body)
    (returns : same.returnsValue = frame.returnsValue) :
    interposition.Recognizes same ↔ interposition.Recognizes frame := by
  simp only [Recognizes, body, returns]

theorem Stands.of_outline {frame same : Frame} {position offset : Nat} (outline : same.outline = frame.outline)
    (stands : interposition.Stands start frame position offset) : interposition.Stands start same position offset := by
  obtain ⟨body, place, returns⟩ := Frame.kept_of_outline outline
  exact ⟨(Recognizes.of_same body returns).mpr stands.recognized, place.trans stands.position⟩

theorem Waiting.of_outline {pending : Pending} {reference woven reference' woven' : Frame}
    (left : reference'.outline = reference.outline) (right : woven'.outline = woven.outline)
    (waiting : interposition.Waiting entry start pending reference woven) :
    interposition.Waiting entry start pending reference' woven' := by
  obtain ⟨body, place, -⟩ := Frame.kept_of_outline left
  cases waiting with
  | other same at_ foreign =>
      obtain ⟨body', place', returns⟩ := Frame.kept_of_outline right
      exact .other (by rw [body', same, body]) (by rw [place', at_, place])
        fun recognized => foreign ((Recognizes.of_same body' returns).mp recognized)
  | callback own due stands => exact .callback (body.trans own) (place ▸ due) (place ▸ stands.of_outline right)
  | own own inside stands => exact .own (body.trans own) (place ▸ inside) (place ▸ stands.of_outline right)

theorem Stacked.of_outline {above : Completion} {pending : List Pending}
    {references wovens references' wovens' : List Frame}
    (left : references'.map Frame.outline = references.map Frame.outline)
    (right : wovens'.map Frame.outline = wovens.map Frame.outline)
    (stacked : interposition.Stacked entry start above pending references wovens) :
    interposition.Stacked entry start above pending references' wovens' := by
  induction pending generalizing above references wovens references' wovens' with
  | nil =>
      cases references with
      | cons reference references => cases wovens <;> exact stacked.elim
      | nil =>
          cases wovens with
          | cons woven wovens => exact stacked.elim
          | nil =>
              cases List.map_eq_nil_iff.mp left
              cases List.map_eq_nil_iff.mp right
              trivial
  | cons first rest ih =>
      cases references with
      | nil => cases wovens <;> exact stacked.elim
      | cons reference references =>
          cases wovens with
          | nil => exact stacked.elim
          | cons woven wovens =>
              obtain ⟨reference', references', rfl, sameReference, sameReferences⟩ := List.map_eq_cons_iff.mp left
              obtain ⟨woven', wovens', rfl, sameWoven, sameWovens⟩ := List.map_eq_cons_iff.mp right
              obtain ⟨waiting, returns, below⟩ := stacked
              refine ⟨waiting.of_outline sameReference sameWoven, returns, ?_⟩
              rw [Frame.completion_of_outline sameReference]
              exact ih sameReferences sameWovens below

theorem Placed.of_same {phase : Phase} {reference woven reference' woven' : Frame}
    (left : reference'.body = reference.body ∧ reference'.position = reference.position)
    (right : woven'.body = woven.body ∧ woven'.position = woven.position ∧ woven'.returnsValue = woven.returnsValue)
    (placed : interposition.Placed entry start phase reference woven) :
    interposition.Placed entry start phase reference' woven' := by
  obtain ⟨body, place⟩ := left
  obtain ⟨body', place', returns⟩ := right
  have stands {position offset : Nat} (stands : interposition.Stands start woven position offset) :
      interposition.Stands start woven' position offset :=
    ⟨(Recognizes.of_same body' returns).mpr stands.recognized, place'.trans stands.position⟩
  cases placed with
  | other same at_ foreign =>
      exact .other (by rw [body', same, body]) (by rw [place', at_, place])
        fun recognized => foreign ((Recognizes.of_same body' returns).mp recognized)
  | due own due stood => exact .due (body.trans own) (place ▸ due) (place ▸ stands stood)
  | returned some own due stood => exact .returned some (body.trans own) (place ▸ due) (place ▸ stands stood)
  | ready own inside stood => exact .ready (body.trans own) (place ▸ inside) (place ▸ stands stood)

/-- Actions that do the same on both sides keep states corresponding. -/
theorem Simulates.of_outline {phase : Phase} {pending : List Pending} {reference woven reference' woven' : State}
    (simulates : interposition.Simulates entry start ⟨reference, phase, pending⟩ woven)
    (left : reference'.outline = reference.outline) (right : woven'.outline = woven.outline)
    (bare : woven'.bare = reference'.bare) :
    interposition.Simulates entry start ⟨reference', phase, pending⟩ woven' := by
  obtain ⟨body, place, returns, completion, callers⟩ := State.kept_of_outline left
  obtain ⟨body', place', returns', completion', callers'⟩ := State.kept_of_outline right
  refine ⟨bare, simulates.active.of_same ⟨body, place⟩ ⟨body', place', returns'⟩, ?_⟩
  have stacked := simulates.callers.of_outline callers callers'
  rwa [← completion] at stacked

/-- The drafts of the code in front of a position. -/
def draftsAt (interposition : Interposition) (entry : InstrId → InstrId) (position : Nat) : List Draft :=
  match interposition.original.idAt? position with
  | some id =>
    interposition.site.drafts (counting (entry id) (interposition.site.length interposition.cancel - 1)) interposition.cancel
  | none => []

theorem due_iff {position : Nat} :
    interposition.phaseAt position = .due ↔
      ∃ id, interposition.original.idAt? position = some id ∧ id ∈ interposition.points := by
  unfold phaseAt
  cases interposition.original.idAt? position with
  | none => simp
  | some id => simp

theorem code_of_due {position : Nat} (due : interposition.phaseAt position = .due) :
    ∃ ids, interposition.code entry position = numbered ids (interposition.draftsAt entry position) := by
  obtain ⟨id, found, point⟩ := due_iff.mp due
  refine ⟨counting (entry id), ?_⟩
  simp only [Splice.code, draftsAt, found, point, if_true, CallbackSite.codeAt, CallbackSite.codeBy]

theorem code_of_not_due {position : Nat} (other : interposition.phaseAt position ≠ .due) :
    interposition.code entry position = [] := by
  unfold Splice.code
  cases found : interposition.original.idAt? position with
  | none => rfl
  | some id =>
      have elsewhere : id ∉ interposition.points := fun point => other (due_iff.mpr ⟨id, found, point⟩)
      simp [elsewhere]

theorem lt_of_due {position : Nat} (due : interposition.phaseAt position = .due) :
    position < interposition.original.instructions.size := by
  obtain ⟨id, found, -⟩ := due_iff.mp due
  obtain ⟨instruction, held, -⟩ := Option.map_eq_some_iff.mp found
  exact (Array.getElem?_eq_some_iff.mp held).1

/-- A frame that has come to the start of a block is due or ready. -/
theorem Placed.arrives {reference woven : Frame} (own : reference.body = interposition.original)
    (inside : reference.position ≤ interposition.original.instructions.size)
    (recognized : interposition.Recognizes woven) (begins : woven.position = start reference.position) :
    interposition.Placed entry start (interposition.phaseAt reference.position) reference woven := by
  cases phase : interposition.phaseAt reference.position with
  | due => exact .due own phase ⟨recognized, begins⟩
  | ready =>
      refine .ready own inside ⟨recognized, ?_⟩
      rw [code_of_not_due (by rw [phase]; simp), begins]
      rfl
  | other =>
      unfold phaseAt at phase
      split at phase
      · split at phase <;> cases phase
      · cases phase
  | returned =>
      unfold phaseAt at phase
      split at phase
      · split at phase <;> cases phase
      · cases phase

variable {program : Program} {limits : Limits} {position offset : Nat} {state : State}

/-- What a woven frame does in the code of a place. -/
theorem Stands.injected (program : Program) (layered : interposition.Layered entry start)
    (due : interposition.phaseAt position = .due)
    (stands : interposition.Stands start state.active position offset) {draft : Draft}
    (held : (interposition.draftsAt entry position)[offset]? = some draft) :
    interposition.sees state = [] ∧ ∃ instruction, state.active.instruction? = some instruction ∧
      execute program instruction = execute program (draft.withId 0) := by
  obtain ⟨ids, code⟩ : ∃ ids, interposition.code entry position = _ := code_of_due due
  have found : (interposition.code entry position)[offset]? = some (draft.withId (ids offset)) := by
    rw [code, getElem?_numbered, held]
    rfl
  obtain ⟨foreign, wide, placed, widens⟩ := layered.injected position offset _ found
  have here : state.active.instruction? = some wide := by
    rw [Frame.instruction?, stands.recognized.1, stands.position]
    exact placed
  refine ⟨?_, wide, here, ?_⟩
  · have elsewhere : wide.id ∉ interposition.original.ids := widens.id ▸ foreign
    simp [sees, here, stands.recognized, elsewhere]
  · rw [widens.execute program]
    exact draft.execute_withId program _ _

/-- What does not change while a frame runs through straight code. -/
structure Kept (before after : State) : Prop where
  body : after.active.body = before.active.body
  returnsValue : after.active.returnsValue = before.active.returnsValue
  completion : after.active.completion = before.active.completion
  callers : after.callers.map Frame.outline = before.callers.map Frame.outline

theorem Kept.of_outline {before after : State} (outline : after.outline = before.outline) : Kept before after := by
  obtain ⟨body, -, returns, completion, callers⟩ := State.kept_of_outline outline
  exact ⟨body, returns, completion, callers⟩

theorem Kept.trans {before middle after : State} (first : Kept before middle) (second : Kept middle after) :
    Kept before after :=
  ⟨second.body.trans first.body, second.returnsValue.trans first.returnsValue,
    second.completion.trans first.completion, second.callers.trans first.callers⟩

/-- What one draft in the code of a place does. -/
theorem Stands.execute (limits : Limits) (layered : interposition.Layered entry start)
    (due : interposition.phaseAt position = .due)
    (stands : interposition.Stands start state.active position offset) {draft : Draft}
    (held : (interposition.draftsAt entry position)[offset]? = some draft) {model result : State}
    (same : state.bare = model.bare) {outcome : Except Fault Control}
    (ran : (Machine.execute program (draft.withId 0)).run.run model = (outcome, result)) :
    interposition.sees state = [] ∧ ∃ after, after.bare = result.bare ∧ Kept state after ∧
      interposition.Stands start after.active position offset ∧
      goUnlimited program limits state = conclude limits (outcome, after) := by
  obtain ⟨unseen, instruction, here, does⟩ := stands.injected program layered due held
  have composed := composed_execute program (draft.withId 0)
  obtain ⟨first, second⟩ := composed.alike (show state.count.bare = model.bare from same)
  have outline := composed.keeps state.count
  rw [ran] at first second
  refine ⟨unseen, ((Machine.execute program (draft.withId 0)).run.run state.count).2, second,
    .of_outline outline, ?_, ?_⟩
  · obtain ⟨body, place, returns, -, -⟩ := State.kept_of_outline outline
    exact ⟨(Recognizes.of_same body returns).mpr stands.recognized, place.trans stands.position⟩
  · rw [goUnlimited, here]
    simp only at first
    rw [← first, ← does]
    rfl

/-- A stretch of the woven run that is not seen. -/
def Unseen (interposition : Interposition) (program : Program) (limits : Limits) (before after : State) : Prop :=
  ∃ history, Passes (goUnlimited program limits) before history after ∧ history.flatMap interposition.sees = []

theorem Unseen.refl (state : State) : interposition.Unseen program limits state state := ⟨[], .here state, rfl⟩

theorem Unseen.trans {before middle after : State} (first : interposition.Unseen program limits before middle)
    (second : interposition.Unseen program limits middle after) : interposition.Unseen program limits before after := by
  obtain ⟨history, passes, unseen⟩ := first
  obtain ⟨others, goesOn, hidden⟩ := second
  exact ⟨history ++ others, passes.trans goesOn, by rw [List.flatMap_append, unseen, hidden]; rfl⟩

theorem Unseen.one {before after : State} (moved : goUnlimited program limits before = .inl after)
    (unseen : interposition.sees before = []) : interposition.Unseen program limits before after :=
  ⟨[before], .one moved, by simpa using unseen⟩

/-- One draft that goes on. -/
theorem Stands.glideOne (limits : Limits) (layered : interposition.Layered entry start)
    (due : interposition.phaseAt position = .due)
    (stands : interposition.Stands start state.active position offset) {draft : Draft}
    (held : (interposition.draftsAt entry position)[offset]? = some draft) {model result : State}
    (same : state.bare = model.bare)
    (ran : (Machine.execute program (draft.withId 0)).run.run model = (.ok .next, result)) :
    ∃ after, interposition.Unseen program limits state after ∧ after.bare = result.bare ∧
      interposition.Stands start after.active position (offset + 1) ∧ Kept state after := by
  obtain ⟨unseen, after, bare, kept, stood, moved⟩ := stands.execute limits layered due held same ran
  refine ⟨{ after with active := after.active.advance }, .one moved unseen, bare, ?_, ?_⟩
  · exact ⟨stood.recognized, by rw [Frame.advance, stood.position, Nat.add_assoc]⟩
  · exact ⟨kept.body, kept.returnsValue, kept.completion, kept.callers⟩

/-- Straight code runs as its drafts do. -/
theorem Stands.glide (limits : Limits) (layered : interposition.Layered entry start)
    (due : interposition.phaseAt position = .due)
    {segment : List Draft} {model result : State} (straight : Draft.Straight program segment model result)
    (stands : interposition.Stands start state.active position offset)
    (held : ∀ index draft, segment[index]? = some draft →
      (interposition.draftsAt entry position)[offset + index]? = some draft)
    (same : state.bare = model.bare) :
    ∃ after, interposition.Unseen program limits state after ∧ after.bare = result.bare ∧
      interposition.Stands start after.active position (offset + segment.length) ∧ Kept state after := by
  induction straight generalizing state offset with
  | nil => exact ⟨state, .refl state, same, stands, ⟨rfl, rfl, rfl, rfl⟩⟩
  | @cons draft rest model middle result ran _ ih =>
      obtain ⟨next, first, bare, stood, kept⟩ :=
        stands.glideOne limits layered due (held 0 draft rfl) same ran
      obtain ⟨after, later, last, stays, keeps⟩ := ih stood
        (fun index draft found => by
          have place := held (index + 1) draft found
          rwa [Nat.add_comm index 1, ← Nat.add_assoc] at place) bare
      refine ⟨after, first.trans later, last, ?_, kept.trans keeps⟩
      rwa [List.length_cons, Nat.add_comm rest.length, ← Nat.add_assoc]

/-- Code of which a draft fails fails like it. -/
theorem Stands.crash (limits : Limits) (layered : interposition.Layered entry start)
    (due : interposition.phaseAt position = .due)
    {segment : List Draft} {model result : State} {fault : Fault}
    (breaks : Draft.Breaks program fault segment model result)
    (stands : interposition.Stands start state.active position offset)
    (held : ∀ index draft, segment[index]? = some draft →
      (interposition.draftsAt entry position)[offset + index]? = some draft)
    (same : state.bare = model.bare) :
    ∃ last store, interposition.Unseen program limits state last ∧
      goUnlimited program limits last = .inr (.error fault, store) ∧ interposition.sees last = [] ∧
      store.uncounted = result.store.uncounted := by
  induction breaks generalizing state offset with
  | @now draft rest model result ran =>
      obtain ⟨unseen, after, bare, -, -, stopped⟩ :=
        stands.execute limits layered due (held 0 draft rfl) same ran
      exact ⟨state, after.store, .refl state, stopped, unseen, congrArg State.store bare⟩
  | @later draft rest model middle result ran _ ih =>
      obtain ⟨next, first, bare, stood, -⟩ :=
        stands.glideOne limits layered due (held 0 draft rfl) same ran
      obtain ⟨last, store, later, stopped, unseen, kept⟩ := ih stood
        (fun index draft found => by
          have place := held (index + 1) draft found
          rwa [Nat.add_comm index 1, ← Nat.add_assoc] at place) bare
      exact ⟨last, store, first.trans later, stopped, unseen, kept⟩

theorem draftsAt_of_due (entry : InstrId → InstrId) (due : interposition.phaseAt position = .due) :
    ∃ ids, interposition.code entry position = numbered ids (interposition.draftsAt entry position) ∧
      interposition.draftsAt entry position =
        interposition.site.drafts (ids (interposition.site.length interposition.cancel - 1)) interposition.cancel := by
  obtain ⟨id, found, point⟩ := due_iff.mp due
  refine ⟨counting (entry id), ?_, ?_⟩
  · simp only [Splice.code, draftsAt, found, point, if_true, CallbackSite.codeAt, CallbackSite.codeBy]
  · simp only [draftsAt, found]

theorem part_held {drafts before segment after : List Draft} (split : drafts = before ++ segment ++ after) :
    ∀ index draft, segment[index]? = some draft → drafts[before.length + index]? = some draft := by
  intro index draft found
  have inside := (List.getElem?_eq_some_iff.mp found).1
  rw [split, List.append_assoc, List.getElem?_append_right (Nat.le_add_right _ _), Nat.add_sub_cancel_left,
    List.getElem?_append_left inside, found]

/-- What is done in front of the call, the call, what drops its result, and what follows. -/
theorem draftsAt_parts (entry : InstrId → InstrId) (due : interposition.phaseAt position = .due) :
    ∃ resume, interposition.draftsAt entry position =
      (interposition.site.carrierDrafts ++ interposition.site.sources.map Source.draft) ++
        [⟨.call, .method interposition.site.callback⟩] ++
          (if interposition.site.callback.returns.isVoid then [] else [⟨.pop, .none⟩]) ++
            interposition.site.askDrafts resume interposition.cancel := by
  obtain ⟨ids, -, parts⟩ := draftsAt_of_due entry due
  refine ⟨ids (interposition.site.length interposition.cancel - 1), ?_⟩
  rw [parts]
  simp only [CallbackSite.drafts, CallbackSite.callDrafts, List.append_assoc]

theorem askOffset_eq :
    interposition.askOffset =
      interposition.callOffset + 1 + if interposition.site.callback.returns.isVoid then 0 else 1 := by
  unfold askOffset callOffset CallbackSite.callDrafts
  split <;> simp <;> omega

/-- Behind the callback, the target goes on or the carrier is asked. -/
theorem Placed.behind {reference woven : Frame} (own : reference.body = interposition.original)
    (due : interposition.phaseAt reference.position = .due)
    (stands : interposition.Stands start woven reference.position interposition.askOffset) :
    interposition.Placed entry start (if interposition.site.carrier.isSome then .returned else .ready) reference woven := by
  cases held : interposition.site.carrier with
  | some carrier => exact .returned (by rw [held]; rfl) own due stands
  | none =>
      obtain ⟨ids, code, parts⟩ := draftsAt_of_due entry due
      have length : (interposition.code entry reference.position).length = interposition.askOffset := by
        rw [code, length_numbered, parts]
        simp [CallbackSite.drafts, CallbackSite.askDrafts, held, askOffset]
      exact .ready own (Nat.le_of_lt (lt_of_due due)) (length ▸ stands)

/-- Ends agree up to the number of instructions counted. -/
def Agree (left right : Ending) : Prop := left.1 = right.1 ∧ left.2.uncounted = right.2.uncounted

/-- The woven run comes to where the interposed one does, through code that is not seen. -/
def Reaches (interposition : Interposition) (entry : InstrId → InstrId) (start : Nat → Nat) (program : Program)
    (limits : Limits) : Interposed ⊕ Ending → State ⊕ Ending → Prop
  | .inl next, .inl state =>
    ∃ after, interposition.Unseen program limits state after ∧ interposition.Simulates entry start next after
  | .inr ended, .inr result => Agree ended result
  | _, _ => False

theorem bare_parts {left right : State} (same : left.bare = right.bare) :
    left.store.uncounted = right.store.uncounted ∧ left.active.bare = right.active.bare ∧
      left.callers.map Frame.bare = right.callers.map Frame.bare := by
  simpa only [State.bare, State.mk.injEq] using same

theorem bare_of_parts {left right : State} (store : left.store.uncounted = right.store.uncounted)
    (active : left.active.bare = right.active.bare)
    (callers : left.callers.map Frame.bare = right.callers.map Frame.bare) : left.bare = right.bare := by
  simp only [State.bare, store, active, callers]

theorem depth_of_bare {left right : State} (same : left.bare = right.bare) : left.depth = right.depth := by
  rw [← State.depth_bare, same, State.depth_bare]

/-- A frame that is entered is where the interposed machine has it. -/
theorem Placed.entered (layered : interposition.Layered entry start) {frame : Frame} (begins : frame.position = 0) :
    interposition.Placed entry start (interposition.receive frame).2 (interposition.receive frame).1 frame := by
  by_cases recognized : interposition.Recognizes frame
  · simp only [receive, recognized, if_true]
    have arrived (own : Frame) (same : own = { frame with body := interposition.original }) :
        interposition.Placed entry start (interposition.phaseAt own.position) own frame := by
      subst same
      refine Placed.arrives rfl ?_ recognized ?_
      · exact begins ▸ Nat.zero_le _
      · exact begins.trans (begins ▸ layered.first.symm)
    exact arrived _ rfl
  · simp only [receive, recognized, if_false]
    exact .other rfl rfl recognized

theorem receive_bare (frame : Frame) :
    (interposition.receive frame).1.bare = frame.bare ∧
      (interposition.receive frame).1.completion = frame.completion := by
  unfold receive
  split <;> exact ⟨rfl, rfl⟩

/-- A call enters corresponding frames. -/
theorem Stacked.enter {phase : Phase} {pending : List Pending} {reference state : State} {waits : Pending}
    (stacked : interposition.Stacked entry start reference.active.completion pending reference.callers state.callers)
    (layered : interposition.Layered entry start) (bare : state.bare = reference.bare)
    (waiting : interposition.Waiting entry start waits reference.active state.active) {call : Call}
    (returns : waits = .callback → call.completion = interposition.completion) :
    interposition.Reaches entry start program limits (interposition.enter limits ⟨reference, phase, pending⟩ waits call)
      (state.enter limits call).progress := by
  obtain ⟨store, active, callers⟩ := bare_parts bare
  have method : state.store.method = reference.store.method :=
    show state.store.uncounted.method = reference.store.uncounted.method from congrArg Store.method store
  simp only [Interposition.enter, State.enter, depth_of_bare bare, method]
  cases entered : enterFrame limits (reference.depth + 1) reference.store.method call with
  | error fault => exact ⟨rfl, store.symm⟩
  | ok frame =>
      obtain ⟨body, -, -, made⟩ := enterFrame_ok entered
      have begins : frame.position = 0 := by rw [made]
      have completes : frame.completion = call.completion := by rw [made]
      obtain ⟨same, kept⟩ := interposition.receive_bare frame
      have stores : (state.store.enter call).uncounted = (reference.store.enter call).uncounted :=
        congrArg (fun store : Store => store.enter call) store
      refine ⟨_, .refl _, bare_of_parts stores same.symm (by simp [active, callers]), .entered layered begins, ?_⟩
      show interposition.Stacked entry start (interposition.receive frame).1.completion (waits :: pending)
        (reference.active :: reference.callers) (state.active :: state.callers)
      rw [kept]
      exact ⟨waiting, fun same => completes.trans (returns same), stacked⟩

section Returning

variable {left right : Store} {frame woven : Frame} {frames wovens : List Frame} {rest : List Pending}

/-- Behind the injected call, what the callback returned is dropped. -/
theorem Stands.dropsResult (serves : interposition.Serves program) (layered : interposition.Layered entry start)
    (stores : left.uncounted = right.uncounted) (same : woven.bare = frame.bare)
    (others : wovens.map Frame.bare = frames.map Frame.bare)
    (stacked : interposition.Stacked entry start frame.completion rest frames wovens)
    (body : frame.body = interposition.original) (due : interposition.phaseAt frame.position = .due)
    (stands : interposition.Stands start woven frame.position interposition.callOffset) (value : Value) :
    ∃ after, interposition.Unseen program limits ⟨left, woven.resume interposition.completion value, wovens⟩ after ∧
      interposition.Simulates entry start
        ⟨⟨right, frame, frames⟩, if interposition.site.carrier.isSome then .returned else .ready, rest⟩ after := by
  obtain ⟨wovenBody, wovenPlace, wovenReturns⟩ := woven.resume_place interposition.completion value
  obtain ⟨resume, parts⟩ := draftsAt_parts entry due
  have behind := interposition.askOffset_eq
  have stood : interposition.Stands start (woven.resume interposition.completion value) frame.position
      (interposition.callOffset + 1) :=
    ⟨(Recognizes.of_same wovenBody wovenReturns).mpr stands.recognized,
      by rw [wovenPlace, stands.position, Nat.add_assoc]⟩
  rw [completion, ← serves.returns] at stood ⊢
  cases void : interposition.site.callback.returns.isVoid with
  | true =>
      simp only [void, if_true, Nat.add_zero] at behind stood
      refine ⟨_, .refl _, bare_of_parts stores same others, ?_, stacked⟩
      exact Placed.behind body due (behind ▸ stood)
  | false =>
      simp only [void, Bool.false_eq_true, if_false] at behind stood parts
      have ran : (Machine.execute program (Draft.withId ⟨.pop, .none⟩ 0)).run.run
          ⟨left, woven.resume .push value, wovens⟩ =
            (.ok .next, ⟨left, { woven.resume .push value with stack := woven.stack }, wovens⟩) := rfl
      have held := part_held parts 0 ⟨.pop, .none⟩ rfl
      have length : (interposition.site.carrierDrafts ++ interposition.site.sources.map Source.draft ++
          [(⟨.call, .method interposition.site.callback⟩ : Draft)]).length + 0 = interposition.callOffset + 1 := by
        simp [callOffset, Nat.add_assoc]
      rw [length] at held
      obtain ⟨after, unseen, bare, stays, kept⟩ := stood.glideOne limits layered due held rfl ran
      rw [← behind] at stays
      refine ⟨after, unseen, bare.trans (bare_of_parts stores same others), Placed.behind body due stays, ?_⟩
      exact stacked.of_outline rfl kept.callers

/-- A caller goes on as it should. -/
theorem Waiting.resumes (serves : interposition.Serves program) (layered : interposition.Layered entry start)
    (stores : left.uncounted = right.uncounted) (same : woven.bare = frame.bare)
    (others : wovens.map Frame.bare = frames.map Frame.bare)
    (stacked : interposition.Stacked entry start frame.completion rest frames wovens) {waits : Pending}
    (waiting : interposition.Waiting entry start waits frame woven) {completion : Completion}
    (returns : waits = .callback → completion = interposition.completion) (value : Value) :
    ∃ after, interposition.Unseen program limits ⟨left, woven.resume completion value, wovens⟩ after ∧
      interposition.Simulates entry start
        ⟨⟨right, (interposition.resume frame completion value waits).1, frames⟩,
          (interposition.resume frame completion value waits).2, rest⟩ after := by
  have resumed := Frame.resume_bare same completion value
  obtain ⟨keptBody, keptPlace, -⟩ := frame.resume_place completion value
  obtain ⟨wovenBody, wovenPlace, wovenReturns⟩ := woven.resume_place completion value
  have below : interposition.Stacked entry start (frame.resume completion value).completion rest frames wovens := by
    rw [Frame.resume_completion]
    exact stacked
  cases waiting with
  | other body at_ foreign =>
      refine ⟨_, .refl _, bare_of_parts stores resumed others, ?_, below⟩
      refine .other (wovenBody.trans (body.trans keptBody.symm))
        (wovenPlace.trans ((congrArg (· + 1) at_).trans keptPlace.symm)) ?_
      exact fun recognized => foreign ((Recognizes.of_same wovenBody wovenReturns).mp recognized)
  | own body inside stands =>
      refine ⟨_, .refl _, bare_of_parts stores resumed others, ?_, below⟩
      have begins : (woven.resume completion value).position = start (frame.resume completion value).position := by
        rw [wovenPlace, stands.position, keptPlace, layered.next _ inside]
      exact Placed.arrives (keptBody.trans body) (keptPlace ▸ inside)
        ((Recognizes.of_same wovenBody wovenReturns).mpr stands.recognized) begins
  | callback body due stands =>
      cases returns rfl
      exact stands.dropsResult serves layered stores same others stacked body due value

end Returning

/-- A return goes back to corresponding callers. -/
theorem Stacked.leave {phase : Phase} {pending : List Pending} {reference state : State}
    (stacked : interposition.Stacked entry start reference.active.completion pending reference.callers state.callers)
    (serves : interposition.Serves program) (layered : interposition.Layered entry start)
    (bare : state.bare = reference.bare) (value : Value) :
    interposition.Reaches entry start program limits (interposition.leave ⟨reference, phase, pending⟩ value)
      (state.leave value).progress := by
  obtain ⟨store, active, callers⟩ := bare_parts bare
  have caller : state.active.caller = reference.active.caller :=
    show state.active.bare.caller = reference.active.bare.caller from congrArg Frame.caller active
  have completes : state.active.completion = reference.active.completion :=
    show state.active.bare.completion = reference.active.bare.completion from congrArg Frame.completion active
  have stores : ({ state.store with method := reference.active.caller } : Store).uncounted =
      ({ reference.store with method := reference.active.caller } : Store).uncounted :=
    congrArg (fun store : Store => { store with method := reference.active.caller }) store
  cases below : reference.callers with
  | nil =>
      have none : state.callers = [] := by
        rw [below] at callers
        exact List.map_eq_nil_iff.mp callers
      simp only [Interposition.leave, State.leave, below, none, caller]
      exact ⟨rfl, stores.symm⟩
  | cons frame frames =>
      rw [below] at callers
      obtain ⟨woven, wovens, own, same, others⟩ := List.map_eq_cons_iff.mp callers
      simp only [below, own] at stacked
      cases pending with
      | nil => exact stacked.elim
      | cons waits rest =>
          obtain ⟨waiting, returns, stacked⟩ := stacked
          simp only [Interposition.leave, State.leave, below, own, caller, completes]
          exact waiting.resumes serves layered stores same others stacked returns value

/-- A jump of the original body comes to the block of its target. -/
theorem Simulates.jump {pending : List Pending} {reference state : State} (layered : interposition.Layered entry start)
    (simulates : interposition.Simulates entry start ⟨reference, .ready, pending⟩ state) {target : InstrId}
    {destination : Nat} (found : interposition.original.target? target = some destination) :
    interposition.Reaches entry start program limits
      (Interposed.jump ⟨reference, .ready, pending⟩ target (interposition.settle .ready))
      (state.jump (entry target)).progress := by
  have placed : interposition.Placed entry start .ready reference.active state.active := simulates.active
  cases placed with
  | ready own inside stands =>
      have there := layered.enter target destination found
      rw [← Body.target?_congr stands.recognized.1] at there
      simp only [Interposed.jump, State.jump, own, found, there]
      have arrived (frame : Frame) (same : frame = reference.active.goTo destination) :
          interposition.Placed entry start (interposition.phaseAt frame.position) frame
            (state.active.goTo (start destination)) := by
        subst same
        exact Placed.arrives own (Nat.le_of_lt (Body.target?_lt found)) stands.recognized rfl
      exact ⟨_, .refl _, simulates.bare, arrived _ rfl, simulates.callers⟩

/-- Control goes on in corresponding ways. -/
theorem Simulates.follow {phase : Phase} {pending : List Pending} {reference state : State}
    (serves : interposition.Serves program) (layered : interposition.Layered entry start)
    (simulates : interposition.Simulates entry start ⟨reference, phase, pending⟩ state)
    (inside : phase = .ready → reference.active.position < interposition.original.instructions.size)
    (free : phase = .other ∨ phase = .ready) (control : Control)
    (targets : phase = .ready → ∀ target, control = .jump target →
      ∃ destination, interposition.original.target? target = some destination) :
    interposition.Reaches entry start program limits (interposition.follow limits ⟨reference, phase, pending⟩ control)
      (state.follow limits (if phase = .other then control else control.redirect entry)).progress := by
  rcases free with rfl | rfl
  · obtain ⟨store, active, callers⟩ := bare_parts simulates.bare
    have placed : interposition.Placed entry start .other reference.active state.active := simulates.active
    cases placed with
    | other body place foreign =>
        rw [if_pos rfl]
        cases control with
        | next =>
            exact ⟨_, .refl _, simulates.bare, .other body (congrArg (· + 1) place) foreign, simulates.callers⟩
        | jump target =>
            simp only [Interposition.follow, State.follow, Interposed.jump, State.jump, body]
            cases found : reference.active.body.target? target with
            | none => exact ⟨rfl, store.symm⟩
            | some destination => exact ⟨_, .refl _, simulates.bare, .other body rfl foreign, simulates.callers⟩
        | «return» value => exact simulates.callers.leave serves layered simulates.bare value
        | call call => exact simulates.callers.enter layered simulates.bare (.other body place foreign) (by simp)
  · have placed : interposition.Placed entry start .ready reference.active state.active := simulates.active
    cases placed with
    | ready own bounded stands =>
        rw [if_neg (by simp)]
        cases control with
        | next =>
            have begins : state.active.advance.position = start reference.active.advance.position := by
              rw [Frame.advance, stands.position, Frame.advance, layered.next _ (inside rfl)]
            have arrived : interposition.Placed entry start (interposition.phaseAt reference.active.advance.position)
                reference.active.advance state.active.advance :=
              Placed.arrives own (inside rfl) stands.recognized begins
            exact ⟨_, .refl _, simulates.bare, arrived, simulates.callers⟩
        | jump target =>
            obtain ⟨destination, found⟩ := targets rfl target rfl
            exact simulates.jump layered found
        | «return» value => exact simulates.callers.leave serves layered simulates.bare value
        | call call => exact simulates.callers.enter layered simulates.bare (.own own (inside rfl) stands) (by simp)

/-- What is reached by a step, after a stretch that is not seen, matches. -/
theorem Reaches.matched {before : State} {progress : State ⊕ Ending} {reference : Interposed ⊕ Ending}
    {shown : List Interposed.View} (reaches : interposition.Reaches entry start program limits reference progress)
    (ran : interposition.Unseen program limits before state) (moved : goUnlimited program limits state = progress)
    (seen : interposition.sees state = shown) :
    Matched (goUnlimited program limits) (interposition.Simulates entry start) Agree shown interposition.sees before
      reference := by
  obtain ⟨history, passes, unseen⟩ := ran
  cases reference with
  | inl next =>
      cases progress with
      | inr result => exact reaches.elim
      | inl middle =>
          obtain ⟨after, ⟨others, later, hidden⟩, simulates⟩ := reaches
          refine ⟨history ++ state :: others, after, passes.trans (.on moved later), by simp, ?_, simulates⟩
          rw [List.flatMap_append, List.flatMap_cons, unseen, hidden, seen]
          simp
  | inr ended =>
      cases progress with
      | inl middle => exact reaches.elim
      | inr result =>
          refine ⟨history ++ [state], result, passes.ends (.now moved), ?_, reaches⟩
          rw [List.flatMap_append, unseen, List.flatMap_cons, seen]
          simp

/-- The instructions of the original body go to instructions of it. -/
def Closed (interposition : Interposition) : Prop :=
  interposition.original.ids.Nodup ∧ ∀ instruction ∈ interposition.original.instructions.toList,
    ∀ target ∈ instruction.targets, target ∈ interposition.original.ids

/-- After the same instruction, control goes on in corresponding ways. -/
theorem Simulates.executes {phase : Phase} {pending : List Pending} {reference : State}
    (serves : interposition.Serves program) (layered : interposition.Layered entry start)
    (simulates : interposition.Simulates entry start ⟨reference, phase, pending⟩ state) (limits : Limits)
    (inside : phase = .ready → reference.active.position < interposition.original.instructions.size)
    (free : phase = .other ∨ phase = .ready) {instruction own : Instruction}
    (here : reference.active.instruction? = some instruction) (there : state.active.instruction? = some own)
    (does : execute program own =
      if phase = .other then execute program instruction else Control.redirect entry <$> execute program instruction)
    (targets : phase = .ready → ∀ target ∈ instruction.targets,
      ∃ destination, interposition.original.target? target = some destination) :
    interposition.Reaches entry start program limits (interposition.proceed limits ⟨reference, phase, pending⟩ program)
      (goUnlimited program limits state) := by
  have composed := composed_execute program instruction
  obtain ⟨outcomes, bare⟩ := composed.alike (show state.count.bare = reference.bare from simulates.bare)
  have left := composed.keeps reference
  have right := composed.keeps state.count
  simp only [goUnlimited, there, proceed, here, does]
  rcases ran : (execute program instruction).run.run reference with ⟨fault | control, reference'⟩
  · rcases moved : (execute program instruction).run.run state.count with ⟨other | control, state'⟩
    · rw [ran, moved] at outcomes bare
      cases outcomes
      have failed : (if phase = .other then execute program instruction
          else Control.redirect entry <$> execute program instruction).run.run state.count =
            (.error fault, state') := by
        split
        · exact moved
        · rw [run_map, moved]
      rw [failed]
      exact ⟨rfl, (bare_parts bare).1.symm⟩
    · rw [ran, moved] at outcomes
      cases outcomes
  · rcases moved : (execute program instruction).run.run state.count with ⟨fault | other, state'⟩
    · rw [ran, moved] at outcomes
      cases outcomes
    · rw [ran, moved] at outcomes bare
      rw [ran] at left
      rw [moved] at right
      cases outcomes
      have done : (if phase = .other then execute program instruction
          else Control.redirect entry <$> execute program instruction).run.run state.count =
            (.ok (if phase = .other then control else control.redirect entry), state') := by
        split
        · exact moved
        · rw [run_map, moved]
      have place : reference'.active.position = reference.active.position := (State.kept_of_outline left).2.1
      rw [done]
      refine (simulates.of_outline left right bare).follow serves layered (fun ready => place ▸ inside ready) free
        control fun ready target jumps => ?_
      subst jumps
      exact targets ready target (execute_jump ran)

/-- What both machines show of an instruction that is no injected one. -/
theorem sees_own {instruction : Instruction} (here : state.active.instruction? = some instruction)
    (own : ¬interposition.Recognizes state.active ∨ instruction.id ∈ interposition.original.ids) :
    interposition.sees state = [(state.bare, some instruction.id)] := by
  have not_ : ¬(interposition.Recognizes state.active ∧ instruction.id ∉ interposition.original.ids) := by
    rintro ⟨recognized, foreign⟩
    exact own.elim (fun other => other recognized) foreign
  simp [sees, here, not_]

section Proceeding

variable {pending : List Pending} {reference : State}

/-- Where there is no instruction, both machines run off the end of the body. -/
theorem Simulates.runsOff {phase : Phase}
    (simulates : interposition.Simulates entry start ⟨reference, phase, pending⟩ state)
    (outside : reference.active.instruction? = none) (there : state.active.instruction? = none) :
    Matched (goUnlimited program limits) (interposition.Simulates entry start) Agree [(reference.bare, none)]
      interposition.sees state (interposition.proceed limits ⟨reference, phase, pending⟩ program) := by
  have same : state.bare = reference.bare := simulates.bare
  have finished : interposition.proceed limits ⟨reference, phase, pending⟩ program =
      .inr (.error .endOfBody, reference.store) := by
    simp only [proceed, outside]
  have stopped : goUnlimited program limits state = .inr (.error .endOfBody, state.store) := by
    rw [goUnlimited, there]
  have reaches : interposition.Reaches entry start program limits (.inr (.error .endOfBody, reference.store))
      (.inr (.error .endOfBody, state.store)) := ⟨rfl, (bare_parts same).1.symm⟩
  rw [finished]
  refine reaches.matched (.refl state) stopped ?_
  simp [sees, there, same]

/-- A ready frame behind the last instruction stands behind the last instruction of the woven body. -/
theorem Placed.outside (layered : interposition.Layered entry start) {frame woven : Frame}
    (placed : interposition.Placed entry start .ready frame woven) (outside : frame.instruction? = none) :
    woven.instruction? = none := by
  cases placed with
  | ready own bounded stands =>
      have beyond : interposition.original.instructions[frame.position]? = none := by
        rwa [Frame.instruction?, own] at outside
      have last := Nat.le_antisymm bounded (Array.getElem?_eq_none_iff.mp beyond)
      have behind : interposition.phaseAt frame.position ≠ .due := fun due => Nat.lt_irrefl _ (last ▸ lt_of_due due)
      have there : woven.position = interposition.woven.instructions.size := by
        rw [stands.position, code_of_not_due behind, last]
        exact layered.last
      rw [Frame.instruction?, stands.recognized.1, there]
      exact Array.getElem?_eq_none (Nat.le_refl _)

/-- An instruction of another method is matched by itself. -/
theorem Simulates.proceedsElsewhere (serves : interposition.Serves program)
    (layered : interposition.Layered entry start)
    (simulates : interposition.Simulates entry start ⟨reference, .other, pending⟩ state) :
    Matched (goUnlimited program limits) (interposition.Simulates entry start) Agree
      [(reference.bare, reference.active.instruction?.map (·.id))] interposition.sees state
      (interposition.proceed limits ⟨reference, .other, pending⟩ program) := by
  have placed : interposition.Placed entry start .other reference.active state.active := simulates.active
  have same : state.bare = reference.bare := simulates.bare
  cases placed with
  | other body place foreign =>
      have there : state.active.instruction? = reference.active.instruction? := by
        rw [Frame.instruction?, body, place, Frame.instruction?]
      cases here : reference.active.instruction? with
      | none => exact simulates.runsOff here (there.trans here)
      | some instruction =>
          have reaches := simulates.executes serves layered limits nofun (.inl rfl) here (there.trans here)
            (by rw [if_pos rfl]) nofun
          refine reaches.matched (.refl state) rfl ?_
          rw [sees_own (there.trans here) (.inl foreign), same]
          rfl

/-- An instruction of the original body is matched by itself. -/
theorem Simulates.proceedsWithin (serves : interposition.Serves program)
    (layered : interposition.Layered entry start) (closed : interposition.Closed)
    (simulates : interposition.Simulates entry start ⟨reference, .ready, pending⟩ state) :
    Matched (goUnlimited program limits) (interposition.Simulates entry start) Agree
      [(reference.bare, reference.active.instruction?.map (·.id))] interposition.sees state
      (interposition.proceed limits ⟨reference, .ready, pending⟩ program) := by
  have placed : interposition.Placed entry start .ready reference.active state.active := simulates.active
  have same : state.bare = reference.bare := simulates.bare
  cases here : reference.active.instruction? with
  | none => exact simulates.runsOff here (placed.outside layered here)
  | some instruction =>
      cases placed with
      | ready own bounded stands =>
          have found : interposition.original.instructions[reference.active.position]? = some instruction := by
            rwa [Frame.instruction?, own] at here
          have inside := (Array.getElem?_eq_some_iff.mp found).1
          obtain ⟨wide, held, widens⟩ := layered.own _ _ found
          have there : state.active.instruction? = some wide := by
            rw [Frame.instruction?, stands.recognized.1, stands.position]
            exact held
          have listed : instruction ∈ interposition.original.instructions.toList :=
            List.mem_of_getElem? (by rwa [Array.getElem?_toList])
          have does : execute program wide = Control.redirect entry <$> execute program instruction := by
            rw [widens.execute program, execute_redirect]
          have reaches := simulates.executes serves layered limits (fun _ => inside) (.inr rfl) here there
            (by rw [if_neg (by simp)]; exact does)
            fun _ target member => Body.target?_of_mem (closed.2 _ listed target member)
          have id : wide.id = instruction.id := widens.id
          refine reaches.matched (.refl state) rfl ?_
          rw [sees_own there (.inr (id ▸ List.mem_map_of_mem listed)), same, id]
          rfl

end Proceeding

/-- Calling the callback is matched by the code that loads its arguments and calls it. -/
theorem Simulates.invokes {pending : List Pending} {reference : State}
    (serves : interposition.Serves program) (layered : interposition.Layered entry start)
    (simulates : interposition.Simulates entry start ⟨reference, .due, pending⟩ state) :
    Matched (goUnlimited program limits) (interposition.Simulates entry start) Agree [] interposition.sees state
      (match interposition.invoke.run.run reference with
        | (.error fault, after) => .inr (.error fault, after.store)
        | (.ok call, after) => interposition.enter limits ⟨after, .due, pending⟩ .callback call) := by
  have placed : interposition.Placed entry start .due reference.active state.active := simulates.active
  have same : state.bare = reference.bare := simulates.bare
  have keeps := (composed_invoke interposition).keeps reference
  cases placed with
  | due own due stands =>
      obtain ⟨resume, parts⟩ := draftsAt_parts entry due
      have loads := part_held (show interposition.draftsAt entry reference.active.position =
        [] ++ (interposition.site.carrierDrafts ++ interposition.site.sources.map Source.draft) ++ _ by
          rw [parts, List.nil_append, List.append_assoc, List.append_assoc])
      rcases ran : interposition.invoke.run.run reference with ⟨fault | call, after⟩
      · obtain ⟨last, breaks, kept⟩ := invoke_breaks serves ran
        obtain ⟨final, store, unseen, stopped, hidden, stores⟩ := stands.crash limits layered due breaks loads same
        have reaches : interposition.Reaches entry start program limits (.inr (.error fault, after.store))
            (.inr (.error fault, store)) := ⟨rfl, by rw [stores, kept]⟩
        exact reaches.matched unseen stopped hidden
      · obtain ⟨straight, made, count⟩ := invoke_straight serves ran
        obtain ⟨middle, unseen, bare, stood, kept⟩ := stands.glide limits layered due straight loads same
        have offset : 0 + (interposition.site.carrierDrafts ++ interposition.site.sources.map Source.draft).length =
            interposition.callOffset := by
          simp [callOffset]
        have held := part_held (show interposition.draftsAt entry reference.active.position =
          (interposition.site.carrierDrafts ++ interposition.site.sources.map Source.draft) ++
            [⟨.call, .method interposition.site.callback⟩] ++ _ by rw [parts, List.append_assoc]) 0 _ rfl
        rw [Nat.add_zero, ← Nat.zero_add (List.length _), offset] at held
        rw [offset] at stood
        obtain ⟨hidden, final, last, stays, stands, moved⟩ :=
          stood.execute limits layered due held bare (execute_call serves call.args count after)
        rw [ran] at keeps
        obtain ⟨body, place, -, completes, callers⟩ := State.kept_of_outline keeps
        have stacked := simulates.callers.of_outline callers (kept.trans stays).callers
        rw [← completes] at stacked
        have waiting : interposition.Waiting entry start .callback after.active final.active :=
          .callback (body.trans own) (place ▸ due) (place ▸ stands)
        have reaches : interposition.Reaches entry start program limits
            (interposition.enter limits ⟨after, .due, pending⟩ .callback call) (final.enter limits call).progress :=
          stacked.enter layered last waiting fun _ => by rw [made]
        rw [← made] at moved
        exact reaches.matched unseen moved hidden

/-- The code of a place up to the carrier's answer, and what follows it. -/
theorem draftsAt_asks (entry : InstrId → InstrId) (due : interposition.phaseAt position = .due) {slot : UInt16}
    {members : CarrierMembers} (carrier : interposition.site.carrier = some (slot, members)) :
    ∃ ids before, interposition.code entry position = numbered ids (interposition.draftsAt entry position) ∧
      interposition.draftsAt entry position =
        before ++ CallbackSite.questionDrafts slot members ++
          CallbackSite.cancelDrafts slot members
            (ids ((interposition.draftsAt entry position).length - 1)) interposition.cancel ∧
      before.length = interposition.askOffset := by
  obtain ⟨ids, code, parts⟩ := draftsAt_of_due entry due
  have length : interposition.site.length interposition.cancel = (interposition.draftsAt entry position).length := by
    rw [parts, CallbackSite.length_drafts]
  refine ⟨ids, interposition.site.carrierDrafts ++ interposition.site.callDrafts, code, ?_, by simp [askOffset]⟩
  rw [← length, parts]
  simp only [CallbackSite.drafts, CallbackSite.askDrafts, carrier, List.append_assoc]

/-- Where the code lies that returns from a target which is cancelled: the branch over the return, the
value, the return, and the instruction that the branch goes to. -/
structure ReturnsAt (drafts : List Draft) (offset : Nat) (values : List Draft) (resume : InstrId) : Prop where
  branch : drafts[offset]? = some ⟨.brfalseS, .target resume⟩
  value : ∀ index draft, values[index]? = some draft → drafts[offset + 1 + index]? = some draft
  ret : drafts[offset + 1 + values.length]? = some ⟨.ret, .none⟩
  last : drafts[offset + 1 + values.length + 1]? = some ⟨.nop, .none⟩
  length : drafts.length = offset + 1 + values.length + 1 + 1

theorem ReturnsAt.of_parts {drafts before : List Draft} {slot : UInt16} {members : CarrierMembers} {resume : InstrId}
    {withValue : Bool}
    (parts : drafts = before ++ CallbackSite.cancelDrafts slot members resume (.return withValue)) :
    ReturnsAt drafts before.length (CallbackSite.valueDrafts slot members withValue) resume := by
  subst parts
  refine ⟨?_, fun index draft found => ?_, ?_, ?_, ?_⟩
  · simp [CallbackSite.cancelDrafts]
  · have inside := (List.getElem?_eq_some_iff.mp found).1
    rw [Nat.add_assoc, Nat.add_comm 1, List.getElem?_append_right (by omega), Nat.add_sub_cancel_left,
      CallbackSite.cancelDrafts, List.cons_append, List.getElem?_cons_succ, List.getElem?_append_left inside, found]
  · simp [CallbackSite.cancelDrafts, Nat.add_assoc, Nat.add_comm 1]
  · simp [CallbackSite.cancelDrafts, Nat.add_assoc, Nat.add_comm 1]
  · simp [CallbackSite.cancelDrafts]
    omega

/-- The code of a place up to the branch on the carrier's answer, and what follows it. -/
theorem draftsAt_asked (entry : InstrId → InstrId) (due : interposition.phaseAt position = .due) {slot : UInt16}
    {members : CarrierMembers} (carrier : interposition.site.carrier = some (slot, members)) :
    ∃ ids before, interposition.code entry position = numbered ids (interposition.draftsAt entry position) ∧
      interposition.draftsAt entry position =
        before ++ CallbackSite.cancelDrafts slot members
          (ids ((interposition.draftsAt entry position).length - 1)) interposition.cancel ∧
      before.length = interposition.askOffset + 2 := by
  obtain ⟨ids, before, code, parts, length⟩ := draftsAt_asks entry due carrier
  refine ⟨ids, before ++ CallbackSite.questionDrafts slot members, code, parts, ?_⟩
  rw [List.length_append, length]
  rfl

section Asking

variable {slot : UInt16} {members : CarrierMembers} {reference model : State} {pending : List Pending}

/-- A frame that has left the code of its place is in front of the instruction. -/
theorem Placed.through {frame woven : Frame} {ids : Nat → InstrId} (own : frame.body = interposition.original)
    (due : interposition.phaseAt frame.position = .due)
    (code : interposition.code entry frame.position = numbered ids (interposition.draftsAt entry frame.position))
    (stands : interposition.Stands start woven frame.position (interposition.draftsAt entry frame.position).length) :
    interposition.Placed entry start .ready frame woven := by
  refine .ready own (Nat.le_of_lt (lt_of_due due)) ?_
  rw [code, length_numbered]
  exact stands

/-- A target that is not cancelled goes over the code of its return. -/
theorem Stands.skips (limits : Limits) (layered : interposition.Layered entry start)
    (own : reference.active.body = interposition.original)
    (due : interposition.phaseAt reference.active.position = .due) {ids : Nat → InstrId} {values : List Draft}
    (code : interposition.code entry reference.active.position =
      numbered ids (interposition.draftsAt entry reference.active.position))
    (returns : ReturnsAt (interposition.draftsAt entry reference.active.position) offset values
      (ids ((interposition.draftsAt entry reference.active.position).length - 1)))
    (stands : interposition.Stands start state.active reference.active.position offset)
    (bare : state.bare = (reference.withStack (.int32 0 :: reference.active.stack)).bare)
    (stacked : interposition.Stacked entry start reference.active.completion pending reference.callers state.callers) :
    ∃ last after, interposition.Unseen program limits state last ∧ interposition.sees last = [] ∧
      goUnlimited program limits last = .inl after ∧
      interposition.Simulates entry start ⟨reference, .ready, pending⟩ after := by
  obtain ⟨hidden, after, last, kept, stood, moved⟩ :=
    stands.execute limits layered due returns.branch bare (execute_brfalse program _ false reference)
  have there : after.active.body.target? (ids ((interposition.draftsAt entry reference.active.position).length - 1)) =
      some (start reference.active.position + (offset + 1 + values.length + 1)) := by
    rw [Body.target?_congr stood.recognized.1]
    have closing : (interposition.code entry reference.active.position)[offset + 1 + values.length + 1]? =
        some (Draft.withId ⟨.nop, .none⟩
          (ids ((interposition.draftsAt entry reference.active.position).length - 1))) := by
      rw [code, getElem?_numbered, returns.last, returns.length]
      rfl
    exact layered.inner closing
  have jumped : goUnlimited program limits state = .inl { after with
      active := after.active.goTo (start reference.active.position + (offset + 1 + values.length + 1)) } := by
    rw [moved]
    simp only [conclude, Bool.false_eq_true, if_false, State.follow, State.jump, there, Outcome.progress]
  have resting : interposition.Stands start (State.active { after with
      active := after.active.goTo (start reference.active.position + (offset + 1 + values.length + 1)) })
      reference.active.position (offset + 1 + values.length + 1) := ⟨stood.recognized, rfl⟩
  obtain ⟨still, final, done, remains, stays, went⟩ :=
    resting.execute limits layered due returns.last last
      (show (Machine.execute program (Draft.withId ⟨.nop, .none⟩ 0)).run.run reference = (.ok .next, reference) from rfl)
  refine ⟨_, _, .one jumped hidden, still, went, done, ?_, stacked.of_outline rfl (remains.callers.trans kept.callers)⟩
  refine Placed.through own due code ⟨stays.recognized, ?_⟩
  rw [returns.length, Frame.advance, stays.position]
  rfl

/-- A target that is not cancelled goes on in front of its instruction. -/
theorem Stands.goesOn (layered : interposition.Layered entry start) (own : reference.active.body = interposition.original)
    (due : interposition.phaseAt reference.active.position = .due)
    (carrier : interposition.site.carrier = some (slot, members))
    (stands : interposition.Stands start state.active reference.active.position (interposition.askOffset + 2))
    (bare : state.bare = (reference.withStack (.int32 0 :: reference.active.stack)).bare)
    (stacked : interposition.Stacked entry start reference.active.completion pending reference.callers state.callers) :
    ∃ last after, interposition.Unseen program limits state last ∧ interposition.sees last = [] ∧
      goUnlimited program limits last = .inl after ∧
      interposition.Simulates entry start ⟨reference, .ready, pending⟩ after := by
  obtain ⟨first, before, code, parts, front⟩ := draftsAt_asked entry due carrier
  rw [← front] at stands
  cases chosen : interposition.cancel with
  | branch target =>
      rw [chosen] at parts
      have held := part_held (parts.trans (List.append_nil _).symm) 0 ⟨.brtrueS, .target target⟩ rfl
      obtain ⟨hidden, after, last, kept, stood, moved⟩ :=
        stands.execute limits layered due held bare (execute_brtrue program target false reference)
      refine ⟨state, _, .refl state, hidden, moved, last, ?_, stacked.of_outline rfl kept.callers⟩
      refine Placed.through own due code ⟨stood.recognized, ?_⟩
      rw [parts, List.length_append, Frame.advance, stood.position]
      rfl
  | «return» withValue =>
      rw [chosen] at parts
      exact stands.skips limits layered own due code (.of_parts parts) bare stacked

/-- A target that is cancelled returns what the carrier holds. -/
theorem Stands.returns (serves : interposition.Serves program) (layered : interposition.Layered entry start)
    (due : interposition.phaseAt reference.active.position = .due)
    (carrier : interposition.site.carrier = some (slot, members)) {withValue : Bool}
    (chosen : interposition.cancel = .return withValue) {resume : InstrId}
    (code : ReturnsAt (interposition.draftsAt entry reference.active.position) offset
      (CallbackSite.valueDrafts slot members withValue) resume)
    (stands : interposition.Stands start state.active reference.active.position offset)
    (bare : state.bare = (reference.withStack (.int32 1 :: reference.active.stack)).bare)
    (stacked : interposition.Stacked entry start reference.active.completion pending reference.callers state.callers)
    {value : Value} {address : Nat} {held : Carrier Value}
    (loaded : reference.load? (.localPointer reference.depth slot) = some value)
    (found : reference.store.carrier? value = some (address, held)) :
    Matched (goUnlimited program limits) (interposition.Simulates entry start) Agree [] interposition.sees state
      (interposition.cancelled ⟨reference, .returned, pending⟩ held.value?) := by
  obtain ⟨returns, gets⟩ := serves.returning slot members withValue carrier chosen
  have returning : reference.active.returnsValue = withValue := by
    have same := congrArg Frame.returnsValue (bare_parts bare).2.1
    rw [returns, ← stands.recognized.2.2]
    exact same.symm
  obtain ⟨next, passed, bare, stood, kept⟩ :=
    stands.glideOne limits layered due code.branch bare (execute_brfalse program resume true reference)
  obtain ⟨pushed, straight, ends⟩ := (serves.carries slot members carrier).answers gets returning loaded found
  obtain ⟨loads, glided, last, rests, keeps⟩ := stood.glide limits layered due straight code.value bare
  obtain ⟨hidden, final, ended, stays, -, moved⟩ := rests.execute limits layered due code.ret last ends
  have back := stacked.of_outline (Eq.refl (reference.callers.map Frame.outline))
    ((kept.trans keeps).trans stays).callers
  have reaches : interposition.Reaches entry start program limits
      (interposition.cancelled ⟨reference, .returned, pending⟩ held.value?)
      (final.leave (if withValue then held.value?.getD interposition.unset else .void)).progress := by
    simp only [cancelled, chosen, returning]
    exact back.leave serves layered ended _
  exact reaches.matched (passed.trans glided) moved hidden

/-- A target that is cancelled returns, or goes past the code in front of another instruction. -/
theorem Stands.cancels (serves : interposition.Serves program) (layered : interposition.Layered entry start)
    (own : reference.active.body = interposition.original)
    (due : interposition.phaseAt reference.active.position = .due)
    (carrier : interposition.site.carrier = some (slot, members))
    (stands : interposition.Stands start state.active reference.active.position (interposition.askOffset + 2))
    (bare : state.bare = (reference.withStack (.int32 1 :: reference.active.stack)).bare)
    (stacked : interposition.Stacked entry start reference.active.completion pending reference.callers state.callers)
    {value : Value} {address : Nat} {held : Carrier Value}
    (loaded : reference.load? (.localPointer reference.depth slot) = some value)
    (found : reference.store.carrier? value = some (address, held)) :
    Matched (goUnlimited program limits) (interposition.Simulates entry start) Agree [] interposition.sees state
      (interposition.cancelled ⟨reference, .returned, pending⟩ held.value?) := by
  obtain ⟨first, before, -, parts, front⟩ := draftsAt_asked entry due carrier
  rw [← front] at stands
  cases chosen : interposition.cancel with
  | branch target =>
      rw [chosen] at parts
      have branches := part_held (parts.trans (List.append_nil _).symm) 0 ⟨.brtrueS, .target target⟩ rfl
      obtain ⟨hidden, after, last, kept, stood, moved⟩ :=
        stands.execute limits layered due branches bare (execute_brtrue program target true reference)
      obtain ⟨destination, place⟩ := Body.target?_of_mem (serves.branching target chosen)
      have there := layered.skip place
      rw [← Body.target?_congr stood.recognized.1] at there
      have reaches : interposition.Reaches entry start program limits
          (interposition.cancelled ⟨reference, .returned, pending⟩ held.value?) (after.jump target).progress := by
        simp only [cancelled, chosen, Interposed.jump, own, place, State.jump, there]
        refine ⟨_, .refl _, last, ?_, stacked.of_outline rfl kept.callers⟩
        exact .ready own (Nat.le_of_lt (Body.target?_lt place)) ⟨stood.recognized, rfl⟩
      exact reaches.matched (.refl state) moved hidden
  | «return» withValue =>
      rw [chosen] at parts
      exact stands.returns serves layered due carrier chosen (.of_parts parts) bare stacked loaded found

/-- Asking the carrier is matched by the code behind the injected call. -/
theorem Simulates.asks (serves : interposition.Serves program) (layered : interposition.Layered entry start)
    (carrier : interposition.site.carrier = some (slot, members))
    (simulates : interposition.Simulates entry start ⟨reference, .returned, pending⟩ state) :
    Matched (goUnlimited program limits) (interposition.Simulates entry start) Agree [] interposition.sees state
      (match (ask slot).run.run reference with
        | (.error fault, after) => .inr (.error fault, after.store)
        | (.ok none, after) => .inl ⟨after, .ready, pending⟩
        | (.ok (some value?), after) => interposition.cancelled ⟨after, .returned, pending⟩ value?) := by
  have placed : interposition.Placed entry start .returned reference.active state.active := simulates.active
  have same : state.bare = reference.bare := simulates.bare
  have carries := serves.carries slot members carrier
  cases placed with
  | returned _ own due stands =>
      obtain ⟨first, before, -, parts, length⟩ := draftsAt_asks entry due carrier
      have question := part_held parts
      rw [length] at question
      rcases ran : (ask slot).run.run reference with ⟨fault | answer, after⟩
      · obtain ⟨rfl, last, breaks, kept⟩ := carries.breaks ran
        obtain ⟨final, store, unseen, stopped, hidden, stores⟩ := stands.crash limits layered due breaks question same
        have reaches : interposition.Reaches entry start program limits (.inr (.error fault, after.store))
            (.inr (.error fault, store)) := ⟨rfl, by rw [stores, kept]⟩
        exact reaches.matched unseen stopped hidden
      · obtain ⟨rfl, value, address, held, loaded, found, rfl⟩ := ask_ok ran
        obtain ⟨asked, glided, bare, stood, kept⟩ :=
          stands.glide limits layered due (carries.questions loaded found) question same
        have stacked := simulates.callers.of_outline rfl kept.callers
        cases cancelled : held.isCancelled with
        | false =>
            rw [cancelled] at bare
            obtain ⟨last, next, unseen, hidden, moved, again⟩ :=
              stood.goesOn layered own due carrier bare stacked
            have reaches : interposition.Reaches entry start program limits (.inl ⟨after, .ready, pending⟩) (.inl next) :=
              ⟨next, .refl next, again⟩
            exact reaches.matched (glided.trans unseen) moved hidden
        | true =>
            rw [cancelled] at bare
            obtain ⟨history, passes, unseen⟩ := glided
            exact .after passes unseen (stood.cancels serves layered own due carrier bare stacked loaded found)

end Asking

/-- Every step of the interposed machine is matched. -/
theorem Simulates.steps (serves : interposition.Serves program) (layered : interposition.Layered entry start)
    (closed : interposition.Closed) {interposed : Interposed}
    (simulates : interposition.Simulates entry start interposed state) :
    Matched (goUnlimited program limits) (interposition.Simulates entry start) Agree interposed.shows
      interposition.sees state (interposition.go limits interposed program) := by
  obtain ⟨reference, phase, pending⟩ := interposed
  cases phase with
  | other => exact simulates.proceedsElsewhere serves layered
  | ready => exact simulates.proceedsWithin serves layered closed
  | due => exact simulates.invokes serves layered
  | returned =>
      have placed : interposition.Placed entry start .returned reference.active state.active := simulates.active
      cases carrier : interposition.site.carrier with
      | some held =>
          simp only [go, carrier]
          exact simulates.asks serves layered carrier
      | none =>
          cases placed with
          | returned some _ _ _ =>
              rw [carrier] at some
              cases some

end Interposition

end CilWeave
