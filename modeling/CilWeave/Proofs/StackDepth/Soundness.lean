import CilWeave.Proofs.Machine.Activation
import CilWeave.Proofs.Machine.StackEffect
import CilWeave.Proofs.StackDepth.Search

/-!
Consistent stack depths are what a run meets: in every activation of a method that has them, an
instruction about to be carried out finds the stack as deep as its position was given, and the faults
that depths rule out do not occur.
-/

namespace CilWeave

variable {context : StackContext}

/-- What the check of an instruction at a depth guarantees. -/
theorem StackContext.checkUse_ok {instruction : Instruction} {depth : Nat}
    (used : context.checkUse instruction depth = .ok ()) :
    (∀ index, instruction.local? = some index → index.toNat < context.body.locals.size) ∧
      (∀ index, instruction.argument? = some index → index.toNat < context.argumentCount) ∧
      context.pops instruction ≤ depth ∧ (instruction.opcode = .ret → depth = context.pops instruction) := by
  simp only [checkUse, bind, Except.bind, pure, Except.pure, throw, throwThe, MonadExceptOf.throw] at used
  have slot : ∀ index, instruction.local? = some index → index.toNat < context.body.locals.size := by
    intro index held
    rcases Nat.lt_or_ge index.toNat context.body.locals.size with inside | outside
    · exact inside
    · simp [held, outside] at used
  have argument : ∀ index, instruction.argument? = some index → index.toNat < context.argumentCount := by
    intro index held
    rcases Nat.lt_or_ge index.toNat context.argumentCount with inside | outside
    · exact inside
    · cases other : instruction.local? with
      | none => simp [other, held, outside] at used
      | some first => simp [other, held, outside, Nat.not_le.mpr (slot first other)] at used
  refine ⟨slot, argument, ?_⟩
  have usable : ¬depth < context.pops instruction ∧
    ¬(instruction.opcode = .ret ∧ depth ≠ context.pops instruction) := by
    have passed : (if depth < context.pops instruction then Except.error (StackFault.underflow
          (context.label instruction.id) instruction.mnemonic (context.pops instruction) depth)
        else if instruction.opcode = .ret ∧ depth ≠ context.pops instruction then
          Except.error (StackFault.returnDepth (context.label instruction.id) depth)
        else Except.ok ()) = .ok () := by
      cases first : instruction.local? with
      | none =>
          cases second : instruction.argument? with
          | none => simpa [first, second] using used
          | some index => simpa [first, second, Nat.not_le.mpr (argument index second)] using used
      | some index =>
          cases second : instruction.argument? with
          | none => simpa [first, second, Nat.not_le.mpr (slot index first)] using used
          | some other =>
              simpa [first, second, Nat.not_le.mpr (slot index first), Nat.not_le.mpr (argument other second)]
                using used
    split at passed
    · cases passed
    · rename_i covered
      split at passed
      · cases passed
      · rename_i remains
        exact ⟨covered, remains⟩
  exact ⟨Nat.le_of_not_lt usable.1, fun returns => Decidable.byContradiction fun other => usable.2 ⟨returns, other⟩⟩

namespace MethodDef

variable {method : MethodDef} {body : Body}

theorem stackContext?_of_body (defined : method.body = some body) :
    method.stackContext? = some ⟨body, method.argumentCount, !method.returns.isVoid⟩ := by
  rw [stackContext?, defined]
  rfl

theorem maxDepth_of_body (defined : method.body = some body) :
    method.maxDepth = StackContext.maxDepth ⟨body, method.argumentCount, !method.returns.isVoid⟩ := by
  rw [maxDepth, stackContext?_of_body defined]

end MethodDef

/-- The depth that the search gives a position of the method's body. -/
def MethodDef.depthAt? (method : MethodDef) (position : Nat) : Option Nat :=
  method.stackContext?.bind fun context => context.depthAt? position

end CilWeave

namespace CilWeave.Machine

variable {program : Program} {limits : Limits} {context : StackContext} {frame : Frame}

/-- The room that a frame of the method has. -/
def roomOf (context : StackContext) : Room := ⟨context.argumentCount, context.body.locals.size, context.returnsValue⟩

/-- A frame whose stack is as deep as the position of its next instruction was given. -/
structure Ready (context : StackContext) (frame : Frame) : Prop where
  body : frame.body = context.body
  room : frame.room = roomOf context
  depth : context.depthAt? frame.position = some frame.stack.length

/-- A frame that is ready once the call it waits for has left its result. -/
structure Awaiting (context : StackContext) (completion : Completion) (frame : Frame) : Prop where
  body : frame.body = context.body
  room : frame.room = roomOf context
  depth : context.depthAt? (frame.position + 1) = some (frame.stack.length + completion.pushed)

theorem Awaiting.of_outline {completion : Completion} {same : Frame} (agree : same.outline = frame.outline)
    (awaiting : Awaiting context completion frame) : Awaiting context completion same := by
  simp only [Frame.outline, Frame.mk.injEq] at agree
  obtain ⟨body, position, args, locals, stack, returns, -, -⟩ := agree
  have arguments : same.args.size = frame.args.size := by simpa using congrArg Array.size args
  have slots : same.locals.size = frame.locals.size := by simpa using congrArg Array.size locals
  refine ⟨body.trans awaiting.body, ?_, ?_⟩
  · rw [← awaiting.room]
    simp only [Frame.room, arguments, slots, returns]
  · rw [position, stack]
    exact awaiting.depth

theorem Awaiting.resume {completion : Completion} (awaiting : Awaiting context completion frame) (result : Value) :
    Ready context (frame.resume completion result) := by
  obtain ⟨body, room, depth⟩ := awaiting
  cases completion with
  | push => exact ⟨body, room, depth⟩
  | drop => exact ⟨body, room, depth⟩
  | pushInstead value => exact ⟨body, room, depth⟩

/-- What a body with consistent depths offers a frame that is ready: an instruction that keeps to its
row of the table, and successors whose depths are those that the instruction leaves. -/
structure Offers (program : Program) (context : StackContext) (frame : Frame) (instruction : Instruction) : Prop where
  found : frame.instruction? = some instruction
  ensures : Action.Ensures instruction.opcode frame.room frame.stack.length (execute program instruction)
    (Control.Follows instruction frame.stack.length)
  falls : instruction.fallsThrough = true →
    context.depthAt? (frame.position + 1) = some (context.depthAfter instruction frame.stack.length)
  jumps : ∀ target ∈ instruction.targets, instruction.opcode ≠ .ret ∧ ∃ position,
    context.body.target? target = some position ∧
    context.depthAt? position = some (context.depthAfter instruction frame.stack.length)
  returns : instruction.opcode = .ret → frame.stack.length = context.returnsValue.toNat
  covered : instruction.opcode ≠ .ret → instruction.pops ≤ frame.stack.length

theorem Ready.offers (program : Program) {greatest : UInt16} (valid : context.body.validate = .ok ())
    (accepted : context.maxDepth = .ok greatest) (ready : Ready context frame) :
    ∃ instruction, Offers program context frame instruction := by
  obtain ⟨body, room, depth⟩ := ready
  obtain ⟨instruction, successors, found, used, goes, known, -⟩ :=
    StackContext.depthAt?_settled accepted depth
  obtain ⟨slots, arguments, covered, exactly⟩ := StackContext.checkUse_ok used
  obtain ⟨jumps, falls, -⟩ := StackContext.successors_ok goes
  have wellFormed := ((Body.validate_ok valid).2 instruction
    (Array.mem_toList_iff.mpr (Array.mem_of_getElem? found))).1
  refine ⟨instruction, by simpa only [Frame.instruction?, body] using found, ?_, fun through => ?_, fun target member => ?_,
    fun returns => ?_, fun other => ?_⟩
  · rw [room]
    refine execute_follows program wellFormed slots arguments ?_
    simpa only [StackContext.pops, roomOf] using covered
  · exact known _ (falls through).1
  · obtain ⟨position, among, same⟩ := jumps target member
    refine ⟨fun returns => ?_, position, same, known position among⟩
    have plain : instruction.operand.fits .none = true := by
      rw [Instruction.wellFormed, returns] at wellFormed
      exact wellFormed
    simp [Instruction.targets, Operand.fits_none plain, Operand.targets] at member
  · simpa only [StackContext.pops, returns, if_true] using exactly returns
  · simpa only [StackContext.pops, other, if_false] using covered

theorem enterFrame_error {depth : Nat} {caller : String} {call : Call} {fault : Fault} {opcode : Opcode}
    (refused : enterFrame limits depth caller call = .error fault) : fault.ruledOut opcode = false := by
  unfold enterFrame at refused
  simp only [bind, Except.bind, throw, throwThe, MonadExceptOf.throw, pure, Except.pure] at refused
  split at refused
  · cases refused
    rfl
  · cases defined : call.method.body with
    | none =>
        simp only [defined, Except.error.injEq] at refused
        subst refused
        rfl
    | some body =>
        simp only [defined, ne_eq, ite_not] at refused
        split at refused
        · cases refused
        · cases refused
          rfl

section

variable {state next : State} {instruction : Instruction}

theorem StackContext.depthAfter_of_ne_ret {depth after : Nat} (other : instruction.opcode ≠ .ret)
    (moved : after + instruction.pops = depth + instruction.pushes) (covered : instruction.pops ≤ depth) :
    context.depthAfter instruction depth = after := by
  simp only [StackContext.depthAfter, StackContext.pops, other, if_false]
  omega

/-- A step in a frame that is ready does not run into a fault that depths rule out. -/
theorem step_not_ruledOut (body : state.active.body = context.body) (offers : Offers program context state.active instruction)
    {fault : Fault} {store : Store} (stepped : step program limits state = .failed fault store) :
    fault.ruledOut instruction.opcode = false := by
  simp only [step, offers.found] at stepped
  split at stepped
  · cases stepped
    rfl
  · have ends := offers.ensures state.count rfl rfl
    have kept := (composed_execute program instruction).keeps state.count
    rcases ran : (execute program instruction).run.run state.count with ⟨_ | control, after⟩
    · rw [ran] at stepped ends
      cases stepped
      exact ends
    · rw [ran] at stepped ends kept
      cases control with
      | next => cases stepped
      | jump target =>
          obtain ⟨-, member, -⟩ := ends
          obtain ⟨-, position, found, -⟩ := offers.jumps target member
          have same : after.active.body = context.body := by
            rw [← body]
            exact congrArg (fun outline => outline.1.body) kept
          simp [State.follow, State.jump, same, found] at stepped
      | «return» value =>
          simp only [State.follow, State.leave] at stepped
          split at stepped <;> cases stepped
      | call call =>
          simp only [State.follow, State.enter] at stepped
          split at stepped
          · rename_i refused
            cases stepped
            exact enterFrame_error refused
          · cases stepped

theorem fallsThrough_ne_ret (falls : instruction.fallsThrough = true) : instruction.opcode ≠ .ret := by
  intro returns
  simp [Instruction.fallsThrough, returns, Opcode.flow, Opcode.info] at falls

/-- A ready frame that goes on is ready again, and one that calls awaits its result. -/
theorem Ready.step {greatest : UInt16} (valid : context.body.validate = .ok ())
    (accepted : context.maxDepth = .ok greatest) (ready : Ready context state.active)
    (stepped : step program limits state = .running next) :
    (next.depth = state.depth → Ready context next.active) ∧
      ∀ frame callers, next.callers = frame :: callers → next.depth = state.depth + 1 →
        Awaiting context next.active.completion frame := by
  obtain ⟨instruction, offers⟩ := ready.offers program valid accepted
  obtain ⟨carried, control, after, found, ran, kept, followed⟩ := step_running stepped
  obtain rfl : carried = instruction := Option.some.inj (found.symm.trans offers.found)
  have ends := offers.ensures state.count rfl rfl
  rw [ran] at ends
  obtain ⟨room, follows⟩ := ends
  have body : after.active.body = context.body := ready.body ▸ congrArg (fun outline => outline.1.body) kept
  have position : after.active.position = state.active.position := congrArg (fun outline => outline.1.position) kept
  have depth : after.depth = state.depth := by
    simpa [State.outline, State.depth] using congrArg (fun outline => outline.2.length) kept
  have room : after.active.room = roomOf context := room.trans ready.room
  cases follow_running followed with
  | next =>
      obtain ⟨falls, moved⟩ := follows
      have other := fallsThrough_ne_ret falls
      refine ⟨fun _ => ⟨body, room, ?_⟩, fun frame callers below deeper => ?_⟩
      · have given := offers.falls falls
        rw [StackContext.depthAfter_of_ne_ret other moved (offers.covered other), ← position] at given
        exact given
      · have deeper : after.depth = state.depth + 1 := deeper
        omega
  | jump target =>
      obtain ⟨member, moved⟩ := follows
      obtain ⟨other, goal, same, given⟩ := offers.jumps _ member
      rw [body, same] at target
      cases target
      refine ⟨fun _ => ⟨body, room, ?_⟩, fun frame callers below deeper => ?_⟩
      · rw [StackContext.depthAfter_of_ne_ret other moved (offers.covered other)] at given
        exact given
      · have deeper : after.depth = state.depth + 1 := deeper
        omega
  | «return» waiting =>
      refine ⟨fun same => ?_, fun frame callers below deeper => ?_⟩
      · simp only [State.depth, waiting, List.length_cons] at depth same
        omega
      · simp only [State.depth, waiting, List.length_cons] at depth deeper
        omega
  | call entered =>
      refine ⟨fun same => ?_, fun frame callers below deeper => ?_⟩
      · simp only [State.depth, List.length_cons] at depth same
        omega
      · obtain ⟨rfl, rfl⟩ := List.cons.inj below
        obtain ⟨falls, moved⟩ := follows
        obtain ⟨callee, -, -, rfl⟩ := enterFrame_ok entered
        have other := fallsThrough_ne_ret falls
        refine ⟨body, room, ?_⟩
        have given := offers.falls falls
        rw [StackContext.depthAfter_of_ne_ret other moved (offers.covered other), ← position] at given
        exact given

/-- Every activation of a method with consistent depths keeps to them: an instruction about to be carried
out finds the stack as deep as its position was given, which is at most the greatest depth and at a
return just what the method returns; and carrying it out does not run into a fault that depths rule out. -/
theorem activation_keeps_depths {call : Call} {body : Body} {greatest : UInt16}
    (defined : call.method.body = some body) (valid : body.validate = .ok ())
    (verified : call.method.maxDepth = .ok greatest) {depth : Nat} {caller : String} {start : State}
    (entered : enterFrame limits depth caller call = .ok start.active) {visited : List State}
    (activation : Activation program limits start visited state) (own : state.depth = start.depth) :
    ∃ instruction, state.active.body = body ∧ state.active.instruction? = some instruction ∧
      call.method.depthAt? state.active.position = some state.active.stack.length ∧
      state.active.stack.length ≤ greatest.toNat ∧
      (instruction.opcode = .ret → state.active.stack.length = (!call.method.returns.isVoid).toNat) ∧
      ∀ fault store, step program limits state = .failed fault store → fault.ruledOut instruction.opcode = false := by
  let context : StackContext := ⟨body, call.method.argumentCount, !call.method.returns.isVoid⟩
  have same : call.method.stackContext? = some context := MethodDef.stackContext?_of_body defined
  have accepted : context.maxDepth = .ok greatest := (MethodDef.maxDepth_of_body defined).symm.trans verified
  have given (position : Nat) : call.method.depthAt? position = context.depthAt? position := by
    simp [MethodDef.depthAt?, same]
  have first : Ready context start.active := by
    obtain ⟨callee, held, count, frame⟩ := enterFrame_ok entered
    rw [defined] at held
    cases held
    rw [frame]
    refine ⟨rfl, ?_, StackContext.depthAt?_entry accepted⟩
    simp [Frame.room, roomOf, context, count]
  have kept := activation.own_frame (fun _ => Ready context) (fun _ => Awaiting context)
    (fun _ _ _ _ agree awaiting => awaiting.of_outline agree) first
    (fun _ _ _ ready stepped same => (ready.step valid accepted stepped).1 same)
    (fun _ _ _ _ _ ready stepped below deeper => (ready.step valid accepted stepped).2 _ _ below deeper)
    (fun _ _ _ value awaiting => awaiting.resume value)
  rw [if_pos own] at kept
  obtain ⟨instruction, offers⟩ := kept.offers program valid accepted
  obtain ⟨-, -, -, -, -, -, bounded⟩ := StackContext.depthAt?_settled accepted kept.depth
  exact ⟨instruction, kept.body, offers.found, (given _).trans kept.depth, bounded, offers.returns,
    fun fault store stepped => step_not_ruledOut kept.body offers stepped⟩

/-- The call of a method that returns a constant. -/
def constantCall : Call :=
  ⟨.empty "" "T" ⟨0⟩ none,
    ⟨"One", ⟨MethodFlags.isStatic⟩, .primitive .int32, [],
      some ⟨8, true, #[], #[⟨0, .ldcI41, .none⟩, ⟨1, .ret, .none⟩], 0⟩, []⟩, [], .drop⟩

/-- The state in which the constant's method starts. -/
def constantStart : State :=
  ⟨.empty, ⟨constantCall.method.body.getD default, 0, #[], #[], [], true, .drop, ""⟩, []⟩

/-- The state in which the constant is on the stack and the method is about to return it. -/
def constantEnd : State :=
  ⟨{ Store.empty with executed := 1 },
    ⟨constantCall.method.body.getD default, 1, #[], #[], [.int32 1], true, .drop, ""⟩, []⟩

theorem constantCall_keeps_depths :
    constantCall.method.maxDepth = .ok 1 ∧
      ∃ instruction, constantEnd.active.body = (constantCall.method.body.getD default) ∧
        constantEnd.active.instruction? = some instruction ∧
        constantCall.method.depthAt? constantEnd.active.position = some constantEnd.active.stack.length ∧
        constantEnd.active.stack.length ≤ (1 : UInt16).toNat ∧
        (instruction.opcode = .ret → constantEnd.active.stack.length = (!constantCall.method.returns.isVoid).toNat) ∧
        ∀ fault store, step ⟨[], "", ""⟩ .standard constantEnd = .failed fault store →
          fault.ruledOut instruction.opcode = false := by
  have entered : enterFrame .standard 0 "" constantCall = .ok constantStart.active := by
    simp [enterFrame, constantCall, constantStart, Limits.standard, MethodDef.argumentCount, pure, Except.pure]
    rfl
  have walk : Activation ⟨[], "", ""⟩ .standard constantStart [constantStart] constantEnd :=
    .own .enter rfl rfl (Nat.le_refl _)
  exact ⟨rfl, activation_keeps_depths rfl rfl rfl entered walk rfl⟩

end

end CilWeave.Machine
