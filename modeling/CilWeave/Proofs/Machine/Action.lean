import CilWeave.Machine.Run
import CilWeave.Proofs.Stateful

/-!
Actions are put together from a few operations on the state. None of them looks at where frames are in
their code or at how many instructions have been counted, none counts any or sets the method that failures
are reported for, and none changes more of the frames than the values of their slots and the active stack.
-/

open CilWeave.Stateful

namespace CilWeave.Machine

/-- A frame without its place in its code. -/
def Frame.bare (frame : Frame) : Frame := { frame with body := .empty, position := 0 }

def Store.uncounted (store : Store) : Store := { store with executed := 0 }

def State.bare (state : State) : State :=
  ⟨state.store.uncounted, state.active.bare, state.callers.map Frame.bare⟩

def Frame.outline (frame : Frame) : Frame :=
  { frame with
    args := .replicate frame.args.size .void
    locals := .replicate frame.locals.size .void }

def State.outline (state : State) : Frame × List Frame :=
  ({ state.active.outline with stack := [] }, state.callers.map Frame.outline)

/-- The state with another evaluation stack. -/
def State.withStack (state : State) (stack : List Value) : State :=
  { state with active := { state.active with stack } }

namespace Action

variable {α β : Type}

theorem run_push (value : Value) (state : State) :
    (push value).run.run state = (.ok (), { state with active := state.active.push value }) := rfl

theorem run_onStore (change : Store → α × Store) (state : State) :
    (onStore change).run.run state =
      (.ok (change state.store).1, { state with store := (change state.store).2 }) := rfl

theorem run_pop (state : State) :
    pop.run.run state =
      match state.active.stack with
      | [] => (.error .underflow, state)
      | value :: stack => (.ok value, { state with active := { state.active with stack } }) := by
  rw [pop, run_get_bind]
  cases state.active.stack <;> rfl

theorem run_store (pointer value : Value) (state : State) :
    (store pointer value).run.run state =
      match state.store? pointer value with
      | some after => (.ok (), after)
      | none => (.error (.invalidAddress pointer), state) := by
  rw [store, run_get_bind]
  cases state.store? pointer value <;> rfl

theorem run_depth (state : State) : depth.run.run state = (.ok state.depth, state) := rfl

theorem run_load (pointer : Value) (state : State) :
    (load pointer).run.run state =
      match state.load? pointer with
      | some value => (.ok value, state)
      | none => (.error (.invalidAddress pointer), state) := by
  rw [load, run_get_bind]
  cases state.load? pointer <;> rfl

theorem run_andNext (action : Action Unit) (state : State) :
    (andNext action).run.run state =
      match action.run.run state with
      | (.ok _, after) => (.ok .next, after)
      | (.error fault, after) => (.error fault, after) := by
  rw [andNext, run_bind]
  rcases action.run.run state with ⟨_ | _, after⟩ <;> rfl

/-- Put together from operations of which none looks at positions or the counter. -/
inductive Composed : {α : Type} → Action α → Prop
  | pure {α : Type} (result : α) : Composed (pure result)
  | throw {α : Type} (fault : Fault) : Composed (throw fault : Action α)
  | bind {α β : Type} {action : Action α} {next : α → Action β} :
      Composed action → (∀ result, Composed (next result)) → Composed (action >>= next)
  | read {α : Type} {next : State → Action α} :
      (∀ state : State, next state.bare = next state) → (∀ state, Composed (next state)) →
      Composed (get >>= next)
  | pop : Composed pop
  | push (value : Value) : Composed (push value)
  | onStore {α : Type} {change : Store → α × Store} :
      (∀ (store : Store) (count : Nat) (method : String), change { store with executed := count, method } =
        ((change store).1, { (change store).2 with executed := count, method })) → Composed (onStore change)
  | store (pointer value : Value) : Composed (store pointer value)

end Action

variable (state : State)

@[simp] theorem State.depth_bare : state.bare.depth = state.depth := by simp [State.depth, State.bare]

theorem State.frame?_bare (depth : Nat) : state.bare.frame? depth = (state.frame? depth).map Frame.bare := by
  simp only [State.frame?, State.depth_bare]
  split
  · rfl
  · split
    · simp [State.bare]
    · rfl

theorem State.setFrame_bare (depth : Nat) (frame : Frame) :
    state.bare.setFrame depth frame.bare = (state.setFrame depth frame).bare := by
  simp only [State.setFrame, State.depth_bare]
  split
  · rfl
  · simp [State.bare, List.map_set]

theorem State.load?_bare (pointer : Value) : state.bare.load? pointer = state.load? pointer := by
  cases pointer <;> simp only [State.load?, State.frame?_bare]
  case localPointer depth index => cases state.frame? depth <;> rfl
  case argumentPointer depth index => cases state.frame? depth <;> rfl

theorem Frame.setLocal?_bare (frame : Frame) (index : UInt16) (value : Value) :
    frame.bare.setLocal? index value = (frame.setLocal? index value).map Frame.bare := by
  by_cases inside : index.toNat < frame.locals.size <;> simp [Frame.setLocal?, Frame.bare, inside]

theorem Frame.setArgument?_bare (frame : Frame) (index : UInt16) (value : Value) :
    frame.bare.setArgument? index value = (frame.setArgument? index value).map Frame.bare := by
  by_cases inside : index.toNat < frame.args.size <;> simp [Frame.setArgument?, Frame.bare, inside]

theorem State.store?_bare (pointer value : Value) :
    state.bare.store? pointer value = (state.store? pointer value).map State.bare := by
  cases pointer <;> simp only [State.store?, State.frame?_bare] <;> try rfl
  case localPointer depth index =>
    cases state.frame? depth with
    | none => rfl
    | some frame =>
        simp only [Option.map_some, Option.bind_eq_bind, Option.bind_some, Frame.setLocal?_bare]
        cases frame.setLocal? index value with
        | none => rfl
        | some changed => exact congrArg some (state.setFrame_bare depth changed)
  case argumentPointer depth index =>
    cases state.frame? depth with
    | none => rfl
    | some frame =>
        simp only [Option.map_some, Option.bind_eq_bind, Option.bind_some, Frame.setArgument?_bare]
        cases frame.setArgument? index value with
        | none => rfl
        | some changed => exact congrArg some (state.setFrame_bare depth changed)

theorem State.setFrame_outline {depth : Nat} {frame changed : Frame}
    (found : state.frame? depth = some frame)
    (same : changed.outline = frame.outline) : (state.setFrame depth changed).outline = state.outline := by
  simp only [State.frame?] at found
  simp only [State.setFrame]
  split at found
  · cases found
    rename_i active
    simp only [active, if_true, State.outline, same]
  · split at found
    · rename_i outer inner
      obtain ⟨bound, rfl⟩ := List.getElem?_eq_some_iff.mp found
      simp only [outer, if_false, State.outline, List.map_set, same]
      rw [← List.getElem_map Frame.outline, List.set_getElem_self]
      simpa using bound
    · cases found

theorem Frame.setLocal?_outline {frame changed : Frame} {index : UInt16} {value : Value}
    (set : frame.setLocal? index value = some changed) : changed.outline = frame.outline := by
  by_cases inside : index.toNat < frame.locals.size <;> simp [Frame.setLocal?, inside] at set
  subst set
  simp [Frame.outline]

theorem Frame.setArgument?_outline {frame changed : Frame} {index : UInt16} {value : Value}
    (set : frame.setArgument? index value = some changed) : changed.outline = frame.outline := by
  by_cases inside : index.toNat < frame.args.size <;> simp [Frame.setArgument?, inside] at set
  subst set
  simp [Frame.outline]

theorem State.store?_outline {after : State} {pointer value : Value}
    (stored : state.store? pointer value = some after) : after.outline = state.outline := by
  cases pointer <;> simp only [State.store?, reduceCtorEq] at stored
  case localPointer depth index =>
    obtain ⟨frame, found, changed, set, rfl⟩ := by simpa [Option.bind_eq_some_iff] using stored
    exact state.setFrame_outline found (Frame.setLocal?_outline set)
  case argumentPointer depth index =>
    obtain ⟨frame, found, changed, set, rfl⟩ := by simpa [Option.bind_eq_some_iff] using stored
    exact state.setFrame_outline found (Frame.setArgument?_outline set)

theorem State.store?_store {after : State} {pointer value : Value} (stored : state.store? pointer value = some after) :
    after.store = state.store := by
  have kept (depth : Nat) (frame : Frame) : (state.setFrame depth frame).store = state.store := by
    unfold State.setFrame
    split <;> rfl
  cases pointer <;> simp only [State.store?, reduceCtorEq] at stored
  case localPointer depth index =>
    obtain ⟨frame, -, changed, -, rfl⟩ := by simpa [Option.bind_eq_some_iff] using stored
    exact kept depth changed
  case argumentPointer depth index =>
    obtain ⟨frame, -, changed, -, rfl⟩ := by simpa [Option.bind_eq_some_iff] using stored
    exact kept depth changed

namespace Action
variable {α : Type} {action : Action α}

theorem method_onStore {change : Store → α × Store} (same : ∀ (store : Store) (count : Nat) (method : String),
      change { store with executed := count, method } =
        ((change store).1, { (change store).2 with executed := count, method })) (store : Store) :
    (change store).2.method = store.method :=
  congrArg (fun outcome => outcome.2.method) (same store store.executed store.method)

theorem Composed.unaware (composed : Composed action) (state : State) :
    action.run.run state.bare = ((action.run.run state).1, (action.run.run state).2.bare) := by
  induction composed generalizing state with
  | pure result => rfl
  | throw fault => rfl
  | bind first rest firstIH restIH =>
      rename_i action next
      rw [run_bind, run_bind, firstIH]
      rcases action.run.run state with ⟨_ | result, after⟩
      · rfl
      · exact restIH result after
  | read same rest restIH =>
      rw [run_get_bind, run_get_bind, same]
      exact restIH state state
  | pop =>
      rw [run_pop, run_pop]
      cases held : state.active.stack with
      | nil => simp [State.bare, Frame.bare, held]
      | cons value stack => simp [State.bare, Frame.bare, held]
  | push value => rfl
  | onStore same =>
      rw [run_onStore, run_onStore]
      have kept := same state.store 0 state.store.method
      simp only [State.bare, Store.uncounted]
      rw [kept, ← method_onStore same]
  | store pointer value =>
      rw [run_store, run_store, State.store?_bare]
      cases state.store? pointer value <;> rfl

/-- States that differ in positions and the counter only are treated alike. -/
theorem Composed.alike (composed : Composed action) {left right : State} (same : left.bare = right.bare) :
    (action.run.run left).1 = (action.run.run right).1 ∧
      (action.run.run left).2.bare = (action.run.run right).2.bare := by
  have first := composed.unaware left
  rw [same, composed.unaware right] at first
  exact ⟨(Prod.mk.inj first).1.symm, (Prod.mk.inj first).2.symm⟩

/-- Nothing but slots, the active stack, the heap, the static fields and the console can change. -/
theorem Composed.steady (composed : Composed action) (state : State) :
    (action.run.run state).2.outline = state.outline ∧
      (action.run.run state).2.store.executed = state.store.executed ∧
      (action.run.run state).2.store.method = state.store.method := by
  induction composed generalizing state with
  | pure result => exact ⟨rfl, rfl, rfl⟩
  | throw fault => exact ⟨rfl, rfl, rfl⟩
  | bind first rest firstIH restIH =>
      rename_i action next
      rw [run_bind]
      have kept := firstIH state
      rcases ran : action.run.run state with ⟨_ | result, after⟩
      · simpa only [ran] using kept
      · rw [ran] at kept
        obtain ⟨outline, counter, method⟩ := restIH result after
        exact ⟨outline.trans kept.1, counter.trans kept.2.1, method.trans kept.2.2⟩
  | read same rest restIH => exact restIH state state
  | pop =>
      rw [run_pop]
      cases state.active.stack <;> exact ⟨rfl, rfl, rfl⟩
  | push value => exact ⟨rfl, rfl, rfl⟩
  | onStore same =>
      have counter := congrArg (fun outcome => outcome.2.executed) (same state.store state.store.executed state.store.method)
      exact ⟨rfl, counter, method_onStore same state.store⟩
  | store pointer value =>
      rw [run_store]
      cases stored : state.store? pointer value with
      | none => exact ⟨rfl, rfl, rfl⟩
      | some after =>
          have kept : after.store = state.store := state.store?_store stored
          exact ⟨state.store?_outline stored, congrArg Store.executed kept, congrArg Store.method kept⟩

theorem Composed.keeps (composed : Composed action) (state : State) :
    (action.run.run state).2.outline = state.outline := (composed.steady state).1

theorem Composed.counts (composed : Composed action) (state : State) :
    (action.run.run state).2.store.executed = state.store.executed := (composed.steady state).2.1

theorem Composed.keepsMethod (composed : Composed action) (state : State) :
    (action.run.run state).2.store.method = state.store.method := (composed.steady state).2.2

theorem composed_orThrow (fault : Fault) (result : Option α) : Composed (orThrow fault result) := by
  cases result with
  | none => exact .throw fault
  | some result => exact .pure result

theorem composed_popMany (count : Nat) : Composed (popMany count) := by
  induction count with
  | zero => exact .pure []
  | succ count ih => exact .bind .pop fun last => .bind ih fun rest => .pure _

theorem composed_popInt32 : Composed popInt32 :=
  .bind .pop fun value => by cases value <;> first | exact .pure _ | exact .throw _

theorem composed_popBinary (operation : BinaryOp) : Composed (popBinary operation) :=
  .bind .pop fun _ => .bind .pop fun _ => .bind (composed_orThrow _ _) fun _ => .push _

theorem composed_popCompare (operation : CompareOp) : Composed (popCompare operation) :=
  .bind .pop fun _ => .bind .pop fun _ => composed_orThrow _ _

theorem composed_load (pointer : Value) : Composed (load pointer) :=
  .read (fun state => by rw [State.load?_bare]) fun _ => composed_orThrow _ _

theorem composed_depth : Composed depth :=
  .read (fun state => by rw [State.depth_bare]) fun _ => .pure _

theorem composed_loadArgument (index : UInt16) : Composed (loadArgument index) :=
  .read (fun _ => rfl) fun _ => .bind (composed_orThrow _ _) fun _ => .push _

theorem composed_storeArgument (index : UInt16) : Composed (storeArgument index) :=
  .bind .pop fun _ => .bind composed_depth fun _ => .store _ _

theorem composed_loadLocal (index : UInt16) : Composed (loadLocal index) :=
  .bind composed_depth fun _ => .bind (composed_load _) fun _ => .push _

theorem composed_storeLocal (index : UInt16) : Composed (storeLocal index) :=
  .bind .pop fun _ => .bind composed_depth fun _ => .store _ _

theorem composed_alloc (object : HeapObject) : Composed (alloc object) := .onStore fun _ _ _ => rfl

theorem composed_negate : Composed negate :=
  .bind .pop fun value => by cases value <;> first | exact .push _ | exact .throw _

theorem composed_complement : Composed complement :=
  .bind .pop fun value => by cases value <;> first | exact .push _ | exact .throw _

theorem composed_convert (conversion : Value → Option Value) : Composed (convert conversion) :=
  .bind .pop fun _ => .bind (composed_orThrow _ _) fun _ => .push _

theorem composed_switch (operand : Operand) : Composed (switch operand) :=
  .bind composed_popInt32 fun _ => by cases operand <;> exact .pure _

theorem composed_fieldOperand (operand : Operand) : Composed (fieldOperand operand) := by
  cases operand <;> first | exact .pure _ | exact .throw _

theorem composed_loadField (operand : Operand) : Composed (loadField operand) :=
  .bind (composed_fieldOperand operand) fun _ => .bind .pop fun _ =>
    .read (fun _ => rfl) fun _ => .bind (composed_orThrow _ _) fun _ => .push _

theorem composed_storeField (operand : Operand) : Composed (storeField operand) :=
  .bind (composed_fieldOperand operand) fun _ => .bind .pop fun _ => .bind .pop fun _ =>
    .read (fun _ => rfl) fun _ => .bind (composed_orThrow _ _) fun (_, _) => .onStore fun _ _ _ => rfl

theorem composed_loadStatic (operand : Operand) : Composed (loadStatic operand) := by
  cases operand <;> first | exact .pure () | exact .read (fun _ => rfl) fun _ => .push _

theorem composed_storeStatic (operand : Operand) : Composed (storeStatic operand) :=
  .bind .pop fun value => by
    cases operand <;> first | exact .pure () | exact .onStore fun _ _ _ => rfl

theorem composed_newArray (operand : Operand) : Composed (newArray operand) :=
  .bind composed_popInt32 fun _ => .bind (composed_orThrow _ _) fun _ =>
    .bind (composed_alloc _) fun _ => .push _

theorem composed_arrayLength : Composed arrayLength :=
  .bind .pop fun _ => .read (fun _ => rfl) fun _ => .bind (composed_orThrow _ _) fun (_, _) => .push _

theorem composed_loadItem : Composed loadItem :=
  .bind composed_popInt32 fun _ => .bind .pop fun _ => .bind (composed_orThrow _ _) fun _ =>
    .read (fun _ => rfl) fun _ => .bind (composed_orThrow _ _) fun (_, _) =>
      .bind (composed_orThrow _ _) fun _ => .push _

theorem composed_storeItem : Composed storeItem :=
  .bind .pop fun _ => .bind composed_popInt32 fun _ => .bind .pop fun _ =>
    .bind (composed_orThrow _ _) fun _ => .read (fun _ => rfl) fun _ =>
      .bind (composed_orThrow _ _) fun _ => .onStore fun _ _ _ => rfl

theorem composed_carrierMember (reference : MethodRef) (typed : Bool) (args : List Value) :
    Composed (carrierMember reference typed args) := by
  unfold carrierMember
  cases args.head? with
  | none => exact .throw _
  | some carrier =>
      refine .read (fun _ => rfl) fun state => ?_
      cases state.store.carrier? carrier with
      | none => exact .throw _
      | some found =>
          dsimp only
          split <;> first | exact .pure _ | exact .throw _ | exact .onStore fun _ _ _ => rfl

theorem composed_builtin? (program : Program) (reference : MethodRef) (args : List Value) :
    Composed (builtin? program reference args) := by
  unfold builtin?
  split
  · exact .bind (composed_carrierMember _ _ _) fun _ => .pure _
  · split <;> first | exact .pure _ | exact .onStore fun _ _ _ => rfl

theorem composed_call (program : Program) (operand : Operand) : Composed (call program operand) := by
  unfold call
  cases operand.method? with
  | none => exact .throw _
  | some reference =>
      refine .bind (composed_popMany _) fun args => .bind (composed_builtin? program reference args) ?_
      rintro (_ | result)
      · exact .bind (composed_orThrow _ _) fun (_, _) => .pure _
      · cases reference.returns.isVoid with
        | false => exact .bind (.push _) fun _ => .pure _
        | true => exact .pure _

theorem composed_construct (program : Program) (operand : Operand) : Composed (construct program operand) := by
  unfold construct
  cases operand.method? with
  | none => exact .throw _
  | some constructor =>
      refine .bind (composed_popMany _) fun args => ?_
      split
      · exact .bind (composed_alloc _) fun _ => .bind (.push _) fun _ => .pure _
      · refine .bind (composed_orThrow _ _) fun _ => .bind (composed_orThrow _ _) fun _ =>
          .bind (composed_alloc _) fun object => ?_
        cases program.method? constructor with
        | none => exact .bind (.push _) fun _ => .pure _
        | some found => exact .pure _

end Action

theorem composed_andNext {action : Action Unit} (composed : action.Composed) : (Action.andNext action).Composed :=
  .bind composed fun _ => .pure _

open CilWeave.Machine.Action in
/-- Nothing an instruction does depends on where frames are in their code or on the counter. -/
theorem composed_execute (program : Program) (instruction : Instruction) :
    Composed (execute program instruction) := by
  obtain ⟨id, opcode, operand⟩ := instruction
  cases opcode <;> simp only [execute]
  case nop | box | unboxAny | castclass | isinst | br | brS => exact .pure _
  case ldcI4M1 | ldcI40 | ldcI41 | ldcI42 | ldcI43 | ldcI44 | ldcI45 | ldcI46 | ldcI47 | ldcI48 | ldnull =>
    exact composed_andNext (.push _)
  case ldarg0 | ldarg1 | ldarg2 | ldarg3 | ldargS | ldarg => exact composed_andNext (composed_loadArgument _)
  case stargS | starg => exact composed_andNext (composed_storeArgument _)
  case ldloc0 | ldloc1 | ldloc2 | ldloc3 | ldlocS | ldloc => exact composed_andNext (composed_loadLocal _)
  case stloc0 | stloc1 | stloc2 | stloc3 | stlocS | stloc => exact composed_andNext (composed_storeLocal _)
  case ldargaS | ldarga | ldlocaS | ldloca =>
    exact composed_andNext (.bind composed_depth fun _ => .push _)
  case ldcI4S | ldcI4 | ldcI8 | ldcR4 | ldcR8 =>
    exact composed_andNext (.bind (composed_orThrow _ _) fun _ => .push _)
  case ldstr => cases operand <;> first | exact composed_andNext (.pure _) | exact composed_andNext (.push _)
  case dup => exact composed_andNext (.bind .pop fun _ => .bind (.push _) fun _ => .push _)
  case pop => exact composed_andNext (.bind .pop fun _ => .pure _)
  case add | sub | mul | div | rem | and | or | xor | shl | shr => exact composed_andNext (composed_popBinary _)
  case neg => exact composed_andNext composed_negate
  case not => exact composed_andNext composed_complement
  case convI4 | convI8 | convR8 => exact composed_andNext (composed_convert _)
  case ceq | cgt | clt => exact composed_andNext (.bind (composed_popCompare _) fun _ => .push _)
  case brtrue | brtrueS | brfalse | brfalseS => exact .bind .pop fun _ => .pure _
  case beq | beqS | bneUn | bneUnS | bge | bgeS | bgt | bgtS | ble | bleS | blt | bltS =>
    exact .bind (composed_popCompare _) fun _ => .pure _
  case switch => exact composed_switch _
  case ldindI1 | ldindU1 | ldindI4 | ldindI8 | ldindR8 | ldindRef | ldobj =>
    exact composed_andNext (.bind .pop fun _ => .bind (composed_load _) fun _ => .push _)
  case stindI1 | stindI4 | stindI8 | stindR8 | stindRef | stobj =>
    exact composed_andNext (.bind .pop fun _ => .bind .pop fun _ => .store _ _)
  case initobj => exact composed_andNext (.bind .pop fun _ => .store _ _)
  case ldfld => exact composed_andNext (composed_loadField _)
  case stfld => exact composed_andNext (composed_storeField _)
  case ldsfld => exact composed_andNext (composed_loadStatic _)
  case stsfld => exact composed_andNext (composed_storeStatic _)
  case newarr => exact composed_andNext (composed_newArray _)
  case ldlen => exact composed_andNext composed_arrayLength
  case ldelemRef => exact composed_andNext composed_loadItem
  case stelemRef => exact composed_andNext composed_storeItem
  case call | callvirt => exact composed_call _ _
  case newobj => exact composed_construct _ _
  case ret =>
    refine .read (fun _ => rfl) fun state => ?_
    cases state.active.returnsValue with
    | false => exact .pure _
    | true => exact .bind .pop fun _ => .pure _
  case throw => exact .bind .pop fun _ => .throw _
  case ldflda | ldsflda => exact .throw _

end CilWeave.Machine
