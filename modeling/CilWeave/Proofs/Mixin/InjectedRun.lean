import CilWeave.Proofs.Mixin.Interposition

/-!
What injected code does when it runs: it does what the interposed machine does in one step, and leaves the
same behind.
-/

open CilWeave.Stateful

namespace CilWeave

open Machine

variable {program : Program} {state middle after : State} {fault : Fault} {drafts others : List Draft}

namespace Draft

/-- The draft with an identity. -/
def withId (draft : Draft) (id : InstrId) : Instruction := ⟨id, draft.opcode, draft.operand⟩

/-- What an instruction does has nothing to do with its identity. -/
theorem execute_withId (program : Program) (draft : Draft) (id other : InstrId) :
    execute program (draft.withId id) = execute program (draft.withId other) := by
  obtain ⟨opcode, operand⟩ := draft
  cases opcode <;> rfl

/-- Drafts that are executed one after the other. -/
inductive Straight (program : Program) : List Draft → State → State → Prop
  | nil (state : State) : Straight program [] state state
  | cons {draft : Draft} {rest : List Draft} {state middle after : State} :
      (execute program (draft.withId 0)).run.run state = (.ok .next, middle) → Straight program rest middle after →
      Straight program (draft :: rest) state after

/-- Drafts of which one fails. -/
inductive Breaks (program : Program) (fault : Fault) : List Draft → State → State → Prop
  | now {draft : Draft} {rest : List Draft} {state after : State} :
      (execute program (draft.withId 0)).run.run state = (.error fault, after) →
      Breaks program fault (draft :: rest) state after
  | later {draft : Draft} {rest : List Draft} {state middle after : State} :
      (execute program (draft.withId 0)).run.run state = (.ok .next, middle) →
      Breaks program fault rest middle after → Breaks program fault (draft :: rest) state after

theorem Straight.append (first : Straight program drafts state middle) (second : Straight program others middle after) :
    Straight program (drafts ++ others) state after := by
  induction first with
  | nil => exact second
  | cons ran _ ih => exact .cons ran (ih second)

theorem Straight.breaks (first : Straight program drafts state middle)
    (second : Breaks program fault others middle after) : Breaks program fault (drafts ++ others) state after := by
  induction first with
  | nil => exact second
  | cons ran _ ih => exact .later ran (ih second)

theorem Breaks.append (first : Breaks program fault drafts state after) (others : List Draft) :
    Breaks program fault (drafts ++ others) state after := by
  induction first with
  | now ran => exact .now ran
  | later ran _ ih => exact .later ran ih

/-- The own opcodes imply the index they stand for. -/
theorem indexed_cases {own : List Opcode} {short long : Opcode} {operand : UInt16 → Operand} {index : UInt16}
    {motive : Draft → Prop} (forms : motive ⟨short, operand index⟩ ∧ motive ⟨long, operand index⟩)
    (few : own.length ≤ 4)
    (zero : ∀ opcode, own[0]? = some opcode → index = 0 → motive ⟨opcode, .none⟩)
    (one : ∀ opcode, own[1]? = some opcode → index = 1 → motive ⟨opcode, .none⟩)
    (two : ∀ opcode, own[2]? = some opcode → index = 2 → motive ⟨opcode, .none⟩)
    (three : ∀ opcode, own[3]? = some opcode → index = 3 → motive ⟨opcode, .none⟩) :
    motive (indexed own short long operand index) := by
  cases found : own[index.toNat]? with
  | none =>
      simp only [indexed, found]
      split
      · exact forms.1
      · exact forms.2
  | some opcode =>
      simp only [indexed, found]
      have less : index.toNat < 4 := Nat.lt_of_lt_of_le (List.getElem?_eq_some_iff.mp found).1 few
      have value {number : UInt16} (same : index.toNat = number.toNat) : index = number := UInt16.toNat_inj.mp same
      have four : index.toNat = 0 ∨ index.toNat = 1 ∨ index.toNat = 2 ∨ index.toNat = 3 := by omega
      rcases four with same | same | same | same
      · exact zero opcode (same ▸ found) (value (by rw [same]; rfl))
      · exact one opcode (same ▸ found) (value (by rw [same]; rfl))
      · exact two opcode (same ▸ found) (value (by rw [same]; rfl))
      · exact three opcode (same ▸ found) (value (by rw [same]; rfl))

theorem execute_loadArgument (index : UInt16) :
    execute program ((loadArgument index).withId 0) = Action.andNext (Action.loadArgument index) := by
  refine indexed_cases (motive := fun draft =>
    execute program (draft.withId 0) = Action.andNext (Action.loadArgument index)) ⟨rfl, rfl⟩ (Nat.le_refl 4) ?_ ?_ ?_ ?_
  all_goals
    intro opcode found same
    cases found
    subst same
    rfl

theorem execute_loadLocal (index : UInt16) :
    execute program ((loadLocal index).withId 0) = Action.andNext (Action.loadLocal index) := by
  refine indexed_cases (motive := fun draft =>
    execute program (draft.withId 0) = Action.andNext (Action.loadLocal index)) ⟨rfl, rfl⟩ (Nat.le_refl 4) ?_ ?_ ?_ ?_
  all_goals
    intro opcode found same
    cases found
    subst same
    rfl

theorem execute_storeLocal (index : UInt16) :
    execute program ((storeLocal index).withId 0) = Action.andNext (Action.storeLocal index) := by
  refine indexed_cases (motive := fun draft =>
    execute program (draft.withId 0) = Action.andNext (Action.storeLocal index)) ⟨rfl, rfl⟩ (Nat.le_refl 4) ?_ ?_ ?_ ?_
  all_goals
    intro opcode found same
    cases found
    subst same
    rfl

theorem execute_loadLocalAddress (index : UInt16) :
    execute program ((loadLocalAddress index).withId 0) =
      Action.andNext (do Action.push (.localPointer (← Action.depth) index)) := by
  refine indexed_cases (motive := fun draft => execute program (draft.withId 0) =
    Action.andNext (do Action.push (.localPointer (← Action.depth) index))) ⟨rfl, rfl⟩ (Nat.zero_le 4) ?_ ?_ ?_ ?_
  all_goals
    intro opcode found
    cases found

end Draft

theorem Machine.State.withStack_own (state : State) : state.withStack state.active.stack = state := rfl

theorem Source.read_withStack (source : Source) (state : State) (stack : List Value) :
    source.read (state.withStack stack) = source.read state := by
  cases source with
  | argument index => rfl
  | slot index =>
      have same : (state.withStack stack).load? (.localPointer (state.withStack stack).depth index) =
          state.load? (.localPointer state.depth index) := by
        simp [State.load?, State.frame?, State.withStack, State.depth]
      simp only [read, same]
      rfl
  | slotAddress index => rfl
  | nothing => rfl

theorem Source.read_bare (source : Source) (state : State) : source.read state.bare = source.read state := by
  cases source with
  | argument index => rfl
  | slot index =>
      simp only [read, State.load?_bare, State.depth_bare]
  | slotAddress index => simp only [read, State.depth_bare]
  | nothing => rfl

/-- Loading from a source pushes its value. -/
theorem Source.execute_draft (source : Source) (program : Program) (state : State) :
    (execute program (source.draft.withId 0)).run.run state =
      match source.read state with
      | .ok value => (.ok .next, state.withStack (value :: state.active.stack))
      | .error fault => (.error fault, state) := by
  cases source with
  | argument index =>
      rw [Source.draft, Draft.execute_loadArgument, Action.run_andNext, Action.loadArgument, run_get_bind, run_bind]
      simp only [read]
      cases state.active.args[index.toNat]? <;> rfl
  | slot index =>
      rw [Source.draft, Draft.execute_loadLocal, Action.run_andNext, Action.loadLocal, run_bind]
      simp only [Action.run_depth, read]
      rw [run_bind, Action.run_load]
      cases state.load? (.localPointer state.depth index) <;> rfl
  | slotAddress index =>
      rw [Source.draft, Draft.execute_loadLocalAddress, Action.run_andNext]
      rfl
  | nothing => rfl

theorem Source.length_values {sources : List Source} {values : List Value}
    (found : sources.mapM (Source.read state) = .ok values) : values.length = sources.length := by
  induction sources generalizing values with
  | nil =>
      cases found
      rfl
  | cons source rest ih =>
      rw [List.mapM_cons] at found
      obtain ⟨value, first, found⟩ := bind_ok found
      obtain ⟨others, later, found⟩ := bind_ok found
      cases found
      rw [List.length_cons, List.length_cons, ih later]

/-- Loading from sources pushes their values in order. -/
theorem Source.straight {sources : List Source} {values : List Value}
    (found : sources.mapM (Source.read state) = .ok values) :
    Draft.Straight program (sources.map Source.draft) state
      (state.withStack (values.reverse ++ state.active.stack)) := by
  suffices loads : ∀ stack, Draft.Straight program (sources.map Source.draft) (state.withStack stack)
      (state.withStack (values.reverse ++ stack)) from loads state.active.stack
  induction sources generalizing values with
  | nil =>
      intro stack
      cases found
      exact .nil _
  | cons source rest ih =>
      intro stack
      rw [List.mapM_cons] at found
      obtain ⟨value, first, found⟩ := bind_ok found
      obtain ⟨others, later, found⟩ := bind_ok found
      cases found
      refine .cons ?_ (by simpa using ih later (value :: stack))
      rw [Source.execute_draft, Source.read_withStack, first]
      rfl

theorem Source.breaks (program : Program) {sources : List Source} (missing : sources.mapM (Source.read state) = .error fault) :
    ∃ after, Draft.Breaks program fault (sources.map Source.draft) state after ∧ after.store = state.store := by
  suffices loads : ∀ stack, ∃ after, Draft.Breaks program fault (sources.map Source.draft) (state.withStack stack) after ∧
      after.store = state.store from loads state.active.stack
  induction sources with
  | nil => cases missing
  | cons source rest ih =>
      intro stack
      rw [List.mapM_cons] at missing
      have ran := source.execute_draft program (state.withStack stack)
      rw [Source.read_withStack] at ran
      cases first : source.read state with
      | error other =>
          rw [first] at missing ran
          cases missing
          exact ⟨_, .now ran, rfl⟩
      | ok value =>
          rw [first] at missing ran
          cases later : rest.mapM (Source.read state) with
          | error other =>
              rw [later] at missing
              cases missing
              obtain ⟨after, breaks, same⟩ := ih later (value :: stack)
              exact ⟨after, .later ran breaks, same⟩
          | ok values =>
              rw [later] at missing
              cases missing

theorem Machine.Action.run_popMany (popped rest : List Value) (state : State) :
    (popMany popped.length).run.run (state.withStack (popped ++ rest)) = (.ok popped.reverse, state.withStack rest) := by
  induction popped with
  | nil => rfl
  | cons value popped ih =>
      rw [List.length_cons, popMany, run_bind, run_pop]
      simp only [State.withStack, List.cons_append] at ih ⊢
      rw [run_bind, ih, List.reverse_cons]
      rfl

namespace Interposition

variable {interposition : Interposition} {limits : Limits} {members : CarrierMembers}

/-- The state with a fresh carrier on the heap. -/
def withCarrier (state : State) : State := { state with store := (state.store.alloc (.carrier .notCancelled)).2 }

theorem Carries.execute_constructor (carries : interposition.Carries program members) (state : State) :
    (execute program (Draft.withId ⟨.newobj, .method members.constructor⟩ 0)).run.run state =
      (.ok .next, (withCarrier state).withStack (.object state.store.heap.size :: state.active.stack)) := by
  show (Action.construct program (.method members.constructor)).run.run state = _
  simp only [Action.construct, Operand.method?, carries.bare, carries.made, if_true]
  rfl

/-- What becomes of the fresh carrier. -/
theorem run_equip {slot : UInt16} (held : interposition.site.carrier = some (slot, members)) (state : State) :
    interposition.equip.run.run state =
      match (withCarrier state).store? (.localPointer state.depth slot) (.object state.store.heap.size) with
      | some after => (.ok (), after)
      | none => (.error (.invalidAddress (.localPointer state.depth slot)), withCarrier state) := by
  simp only [equip, held]
  rw [run_bind, Action.alloc, Action.run_onStore]
  simp only
  rw [run_bind, Action.run_depth]
  exact Action.run_store _ _ _

theorem execute_storeLocal_withStack (program : Program) (slot : UInt16) (value : Value) (state : State) :
    (execute program ((Draft.storeLocal slot).withId 0)).run.run (state.withStack (value :: state.active.stack)) =
      match state.store? (.localPointer state.depth slot) value with
      | some after => (.ok .next, after)
      | none => (.error (.invalidAddress (.localPointer state.depth slot)), state) := by
  rw [Draft.execute_storeLocal, Action.run_andNext, Action.storeLocal, run_bind, Action.run_pop]
  simp only [State.withStack]
  rw [run_bind, Action.run_depth]
  simp only
  rw [Action.run_store, State.depth]
  cases state.store? (.localPointer state.callers.length slot) value <;> rfl

/-- The code for the carrier does what is done for it: the carrier is made and put in its local, or there is no such local. -/
theorem equip_runs (serves : interposition.Serves program) (state : State) :
    (∃ after, interposition.equip.run.run state = (.ok (), after) ∧
        Draft.Straight program interposition.site.carrierDrafts state after) ∨
      ∃ fault after last, interposition.equip.run.run state = (.error fault, after) ∧
        Draft.Breaks program fault interposition.site.carrierDrafts state last ∧ last.store = after.store := by
  cases held : interposition.site.carrier with
  | none =>
      simp only [equip, held, run_pure, CallbackSite.carrierDrafts]
      exact .inl ⟨state, rfl, .nil state⟩
  | some carrier =>
      obtain ⟨slot, members⟩ := carrier
      have made := (serves.carries slot members held).execute_constructor state
      have stores := execute_storeLocal_withStack program slot (.object state.store.heap.size) (withCarrier state)
      rw [show (withCarrier state).depth = state.depth from rfl] at stores
      rw [run_equip held]
      simp only [CallbackSite.carrierDrafts, held]
      cases stored : (withCarrier state).store? (.localPointer state.depth slot) (.object state.store.heap.size) with
      | some equipped =>
          rw [stored] at stores
          exact .inl ⟨equipped, rfl, .cons made (.cons stores (.nil _))⟩
      | none =>
          rw [stored] at stores
          exact .inr ⟨_, _, _, rfl, .later made (.now stores), rfl⟩

theorem equip_straight (serves : interposition.Serves program)
    (ran : interposition.equip.run.run state = (.ok (), after)) :
    Draft.Straight program interposition.site.carrierDrafts state after := by
  rcases equip_runs serves state with ⟨_, done, straight⟩ | ⟨_, _, _, failed, -⟩
  · cases ran.symm.trans done
    exact straight
  · cases ran.symm.trans failed

theorem equip_breaks (serves : interposition.Serves program)
    (ran : interposition.equip.run.run state = (.error fault, after)) :
    ∃ last, Draft.Breaks program fault interposition.site.carrierDrafts state last ∧ last.store = after.store := by
  rcases equip_runs serves state with ⟨_, done, -⟩ | ⟨_, _, last, failed, breaks, kept⟩
  · cases ran.symm.trans done
  · cases ran.symm.trans failed
    exact ⟨last, breaks, kept⟩

theorem composed_invoke (interposition : Interposition) : interposition.invoke.Composed := by
  have equips : interposition.equip.Composed := by
    unfold equip
    split
    · exact .pure ()
    · exact .bind (Action.composed_alloc _) fun _ => .bind Action.composed_depth fun _ => .store _ _
  refine .bind equips fun _ => .read (fun state => ?_) fun state => ?_
  · have same : Source.read state.bare = Source.read state := funext fun source => source.read_bare state
    rw [same]
  · split
    · exact .pure _
    · exact .throw _

/-- Everything in front of the call puts the arguments on the stack. -/
theorem invoke_straight (serves : interposition.Serves program) {call : Call}
    (ran : interposition.invoke.run.run state = (.ok call, after)) :
    Draft.Straight program (interposition.site.carrierDrafts ++ interposition.site.sources.map Source.draft) state
        (after.withStack (call.args.reverse ++ after.active.stack)) ∧
      call = ⟨interposition.host, interposition.callback, call.args, interposition.completion⟩ ∧
      call.args.length = interposition.site.sources.length := by
  rw [invoke, run_bind] at ran
  rcases equipped : interposition.equip.run.run state with ⟨_ | _, middle⟩
  · rw [equipped] at ran
    cases ran
  · rw [equipped] at ran
    simp only [run_get_bind] at ran
    cases found : interposition.site.sources.mapM (Source.read middle) with
    | error fault =>
        simp only [found, run_throw] at ran
        cases ran
    | ok values =>
        simp only [found, run_pure] at ran
        cases ran
        exact ⟨(equip_straight serves equipped).append (Source.straight found), rfl, Source.length_values found⟩

theorem invoke_breaks (serves : interposition.Serves program)
    (ran : interposition.invoke.run.run state = (.error fault, after)) :
    ∃ last, Draft.Breaks program fault (interposition.site.carrierDrafts ++ interposition.site.sources.map Source.draft)
        state last ∧ last.store = after.store := by
  rw [invoke, run_bind] at ran
  rcases equipped : interposition.equip.run.run state with ⟨_ | _, middle⟩
  · rw [equipped] at ran
    cases ran
    obtain ⟨last, breaks, same⟩ := equip_breaks serves equipped
    exact ⟨last, breaks.append _, same⟩
  · rw [equipped] at ran
    simp only [run_get_bind] at ran
    cases found : interposition.site.sources.mapM (Source.read middle) with
    | ok values =>
        simp only [found, run_pure] at ran
        cases ran
    | error fault =>
        simp only [found, run_throw] at ran
        cases ran
        obtain ⟨last, breaks, same⟩ := Source.breaks program found
        exact ⟨last, (equip_straight serves equipped).breaks breaks, same⟩

/-- The injected call takes the arguments from the stack and calls the callback. -/
theorem execute_call (serves : interposition.Serves program) (args : List Value)
    (count : args.length = interposition.site.sources.length) (state : State) :
    (execute program (Draft.withId ⟨.call, .method interposition.site.callback⟩ 0)).run.run
        (state.withStack (args.reverse ++ state.active.stack)) =
      (.ok (.call ⟨interposition.host, interposition.callback, args, interposition.completion⟩), state) := by
  show (Action.call program (.method interposition.site.callback)).run.run _ = _
  have popped := Action.run_popMany args.reverse state.active.stack state
  rw [List.length_reverse, count, ← serves.arity, List.reverse_reverse] at popped
  simp only [Action.call, Operand.method?]
  rw [run_bind, popped]
  simp only
  rw [run_bind, serves.defined, run_pure]
  simp only [serves.resolves, Action.orThrow, completion, ← serves.returns]
  rfl

/-- A member of a carrier without parameters takes the carrier from the stack and pushes its result. -/
theorem execute_member {reference : MethodRef} {typed : Bool} (known : program.carrierKind? reference.declaring = some typed)
    (bare : reference.params = []) (this : reference.hasThis = true) (answers : reference.returns.isVoid = false)
    (carrier : Value) (state : State) :
    (execute program (Draft.withId ⟨.callvirt, .method reference⟩ 0)).run.run
        (state.withStack (carrier :: state.active.stack)) =
      match (Action.carrierMember reference typed [carrier]).run.run state with
      | (.ok value, after) => (.ok .next, after.withStack (value :: after.active.stack))
      | (.error fault, after) => (.error fault, after) := by
  show (Action.call program (.method reference)).run.run _ = _
  have popped := Action.run_popMany [carrier] state.active.stack state
  simp only [Action.call, Operand.method?, bare, this, List.length_nil, Bool.toNat_true, Nat.zero_add]
  rw [run_bind]
  simp only [List.length_cons, List.length_nil, Nat.zero_add, List.cons_append, List.nil_append] at popped
  rw [popped]
  simp only [Action.builtin?, known, List.reverse_cons, List.reverse_nil, List.nil_append]
  rw [run_bind, run_bind, State.withStack_own]
  rcases (Action.carrierMember reference typed [carrier]).run.run state with ⟨_ | value, after⟩
  · rfl
  · simp only [run_pure, answers]
    rfl

theorem Carries.execute_question (carries : interposition.Carries program members) (carrier : Value) (state : State) :
    (execute program (Draft.withId ⟨.callvirt, .method members.isCancelled⟩ 0)).run.run
        (state.withStack (carrier :: state.active.stack)) =
      match state.store.carrier? carrier with
      | some (_, held) =>
        (.ok .next, state.withStack (.int32 (if held.isCancelled then 1 else 0) :: state.active.stack))
      | none => (.error (.notACarrier carrier), state) := by
  obtain ⟨typed, known⟩ := Option.isSome_iff_exists.mp carries.known
  obtain ⟨name, bare, this, answers⟩ := carries.question
  rw [execute_member known bare this answers]
  simp only [Action.carrierMember, List.head?_cons]
  rw [run_get_bind]
  cases state.store.carrier? carrier with
  | none => rfl
  | some found =>
      obtain ⟨address, held⟩ := found
      simp only [name]
      cases typed <;> rfl

theorem Carries.execute_getter (carries : interposition.Carries program members) {getter : MethodRef}
    (held : members.returnValue = some getter) {carrier : Value} {state : State} {address : Nat}
    {content : Carrier Value} (found : state.store.carrier? carrier = some (address, content)) :
    (execute program (Draft.withId ⟨.callvirt, .method getter⟩ 0)).run.run
        (state.withStack (carrier :: state.active.stack)) =
      (.ok .next, state.withStack (content.value?.getD interposition.unset :: state.active.stack)) := by
  obtain ⟨known, name, bare, this, answers, unset⟩ := carries.value getter held
  rw [execute_member known bare this answers]
  simp only [Action.carrierMember, List.head?_cons]
  rw [run_get_bind]
  simp only [found, name, unset]
  rfl

/-- What asking comes to. -/
theorem run_ask (slot : UInt16) (state : State) :
    (ask slot).run.run state =
      match state.load? (.localPointer state.depth slot) with
      | none => (.error (.invalidAddress (.localPointer state.depth slot)), state)
      | some carrier =>
        match state.store.carrier? carrier with
        | some (_, held) => (.ok (if held.isCancelled then some held.value? else none), state)
        | none => (.error (.notACarrier carrier), state) := by
  rw [ask, run_bind, Action.run_depth]
  simp only
  rw [run_bind, Action.run_load]
  cases state.load? (.localPointer state.depth slot) with
  | none => rfl
  | some carrier =>
      simp only [run_get_bind]
      cases state.store.carrier? carrier <;> rfl

theorem execute_loadLocal_run (program : Program) (slot : UInt16) (state : State) :
    (execute program ((Draft.loadLocal slot).withId 0)).run.run state =
      match state.load? (.localPointer state.depth slot) with
      | some value => (.ok .next, state.withStack (value :: state.active.stack))
      | none => (.error (.invalidAddress (.localPointer state.depth slot)), state) := by
  have ran := (Source.slot slot).execute_draft program state
  simp only [Source.read] at ran
  rw [show (Source.slot slot).draft = Draft.loadLocal slot from rfl] at ran
  rw [ran]
  cases state.load? (.localPointer state.depth slot) <;> rfl

theorem execute_brfalse (program : Program) (target : InstrId) (flag : Bool) (state : State) :
    (execute program (Draft.withId ⟨.brfalseS, .target target⟩ 0)).run.run
        (state.withStack (.int32 (if flag then 1 else 0) :: state.active.stack)) =
      (.ok (if flag then .next else .jump target), state) := by
  cases flag <;> rfl

theorem execute_brtrue (program : Program) (target : InstrId) (flag : Bool) (state : State) :
    (execute program (Draft.withId ⟨.brtrueS, .target target⟩ 0)).run.run
        (state.withStack (.int32 (if flag then 1 else 0) :: state.active.stack)) =
      (.ok (if flag then .jump target else .next), state) := by
  cases flag <;> rfl

/-- The question leaves its answer on the stack. -/
theorem Carries.questions (carries : interposition.Carries program members) {slot : UInt16} {carrier : Value}
    {address : Nat} {held : Carrier Value} (loaded : state.load? (.localPointer state.depth slot) = some carrier)
    (found : state.store.carrier? carrier = some (address, held)) :
    Draft.Straight program (CallbackSite.questionDrafts slot members) state
      (state.withStack (.int32 (if held.isCancelled then 1 else 0) :: state.active.stack)) := by
  have loads := execute_loadLocal_run program slot state
  have asks := carries.execute_question carrier state
  rw [loaded] at loads
  rw [found] at asks
  exact .cons loads (.cons asks (.nil _))

/-- A carrier that cannot be asked fails the injected code as it fails the interposed machine. -/
theorem Carries.breaks (carries : interposition.Carries program members) {slot : UInt16}
    (ran : (ask slot).run.run state = (.error fault, after)) :
    after = state ∧ ∃ last, Draft.Breaks program fault (CallbackSite.questionDrafts slot members) state last ∧
      last.store = state.store := by
  have loads := execute_loadLocal_run program slot state
  rw [run_ask] at ran
  cases loaded : state.load? (.localPointer state.depth slot) with
  | none =>
      rw [loaded] at ran loads
      cases ran
      exact ⟨rfl, _, .now loads, rfl⟩
  | some carrier =>
      rw [loaded] at ran loads
      have asks := carries.execute_question carrier state
      cases found : state.store.carrier? carrier with
      | none =>
          simp only [found] at ran asks
          cases ran
          exact ⟨rfl, _, .later loads (.now asks), rfl⟩
      | some content =>
          simp only [found] at ran
          cases ran

/-- The getter leaves the value on the stack. -/
theorem Carries.values (carries : interposition.Carries program members) {getter : MethodRef}
    (gets : members.returnValue = some getter) {slot : UInt16} {carrier : Value} {address : Nat} {held : Carrier Value}
    (loaded : state.load? (.localPointer state.depth slot) = some carrier)
    (found : state.store.carrier? carrier = some (address, held)) :
    Draft.Straight program [.loadLocal slot, ⟨.callvirt, .method getter⟩] state
      (state.withStack (held.value?.getD interposition.unset :: state.active.stack)) := by
  have loads := execute_loadLocal_run program slot state
  rw [loaded] at loads
  exact .cons loads (.cons (carries.execute_getter gets found) (.nil _))

/-- A cancelled method returns the carrier's value, if it returns one. -/
theorem Carries.answers (carries : interposition.Carries program members) {withValue : Bool}
    (gets : withValue = true → members.returnValue.isSome = true) (returns : state.active.returnsValue = withValue)
    {slot : UInt16} {carrier : Value} {address : Nat} {held : Carrier Value}
    (loaded : state.load? (.localPointer state.depth slot) = some carrier)
    (found : state.store.carrier? carrier = some (address, held)) :
    ∃ pushed, Draft.Straight program (CallbackSite.valueDrafts slot members withValue) state pushed ∧
      (execute program (Draft.withId ⟨.ret, .none⟩ 0)).run.run pushed =
        (.ok (.return (if withValue then held.value?.getD interposition.unset else .void)), state) := by
  have returned : (execute program (Draft.withId ⟨.ret, .none⟩ 0)) =
      (do if (← get).active.returnsValue then return .return (← Action.pop) else return .return .void) := rfl
  cases withValue with
  | false =>
      refine ⟨state, .nil state, ?_⟩
      rw [returned, run_get_bind, returns]
      rfl
  | true =>
      obtain ⟨getter, getting⟩ := Option.isSome_iff_exists.mp (gets rfl)
      refine ⟨state.withStack (held.value?.getD interposition.unset :: state.active.stack), ?_, ?_⟩
      · simp only [CallbackSite.valueDrafts, getting]
        exact carries.values getting loaded found
      · have still (stack : List Value) : (state.withStack stack).active.returnsValue = true := returns
        rw [returned, run_get_bind, if_pos (still _), if_pos rfl]
        rfl

/-- What asking has found out. -/
theorem ask_ok {slot : UInt16} {answer : Option (Option Value)} (ran : (ask slot).run.run state = (.ok answer, after)) :
    after = state ∧ ∃ carrier address held, state.load? (.localPointer state.depth slot) = some carrier ∧
      state.store.carrier? carrier = some (address, held) ∧
      answer = if held.isCancelled then some held.value? else none := by
  rw [run_ask] at ran
  cases loaded : state.load? (.localPointer state.depth slot) with
  | none =>
      simp only [loaded] at ran
      cases ran
  | some carrier =>
      simp only [loaded] at ran
      cases found : state.store.carrier? carrier with
      | none =>
          simp only [found] at ran
          cases ran
      | some content =>
          simp only [found] at ran
          cases ran
          exact ⟨rfl, carrier, content.1, content.2, rfl, found, rfl⟩

end Interposition

end CilWeave
