import CilWeave.Proofs.Machine.Action

/-!
What every instruction does to the height of the evaluation stack, against what its opcode's table row
says: in a frame that has the slots it names and the values it pops, an instruction leaves the height
its row gives, goes on where its operand allows, and runs into no fault but those its values decide.
-/

open CilWeave.Stateful

namespace CilWeave.Machine

/-- The parts of a frame that instructions never change. -/
structure Room where
  arguments : Nat
  locals : Nat
  returnsValue : Bool

def Frame.room (frame : Frame) : Room := ⟨frame.args.size, frame.locals.size, frame.returnsValue⟩

end CilWeave.Machine

namespace CilWeave

namespace Operand

variable {operand : Operand}

theorem fits_none (fits : operand.fits .none = true) : operand = .none := by
  cases operand <;> simp [Operand.fits] at fits ⊢

theorem fits_target {kind : OperandKind} (fits : operand.fits kind = true) (own : kind = .target ∨ kind = .shortTarget) :
    ∃ id, operand = .target id := by
  rcases own with rfl | rfl <;> cases operand <;> simp [Operand.fits] at fits ⊢

theorem fits_local {kind : OperandKind} (fits : operand.fits kind = true) (own : kind = .local ∨ kind = .shortLocal) :
    ∃ index, operand = .local index := by
  rcases own with rfl | rfl <;> cases operand <;> simp [Operand.fits] at fits ⊢

theorem fits_argument {kind : OperandKind} (fits : operand.fits kind = true)
    (own : kind = .argument ∨ kind = .shortArgument) :
    ∃ index, operand = .argument index := by
  rcases own with rfl | rfl <;> cases operand <;> simp [Operand.fits] at fits ⊢

theorem fits_method (fits : operand.fits .method = true) : ∃ reference, operand = .method reference := by
  cases operand <;> simp [Operand.fits] at fits ⊢

theorem fits_field (fits : operand.fits .field = true) : ∃ reference, operand = .field reference := by
  cases operand <;> simp [Operand.fits] at fits ⊢

theorem fits_string (fits : operand.fits .string = true) : ∃ text, operand = .string text := by
  cases operand <;> simp [Operand.fits] at fits ⊢

end Operand

/-- The opcodes that work through an address taken from the stack. -/
def Opcode.throughAddress : Opcode → Bool
  | .ldindI1 | .ldindU1 | .ldindI4 | .ldindI8 | .ldindR8 | .ldindRef | .ldobj => true
  | .stindI1 | .stindI4 | .stindI8 | .stindR8 | .stindRef | .stobj | .initobj => true
  | _ => false

end CilWeave

namespace CilWeave.Machine

/-- The faults that consistent stack depths rule out. Only an opcode that works through an address can
still be handed a bad one. -/
def Fault.ruledOut (opcode : Opcode) : Fault → Bool
  | .underflow | .endOfBody | .missingTarget _ | .noArgument _ => true
  | .invalidAddress _ => !opcode.throughAddress
  | _ => false

/-- How many values a call leaves on the stack of its caller. -/
def Completion.pushed : Completion → Nat
  | .push | .pushInstead _ => 1
  | .drop => 0

theorem State.frame?_depth (state : State) : state.frame? state.depth = some state.active := by
  simp [State.frame?]

theorem State.store?_stack {state after : State} {pointer value : Value}
    (stored : state.store? pointer value = some after) : after.active.stack = state.active.stack := by
  have unchanged {depth : Nat} {frame changed : Frame} (found : state.frame? depth = some frame)
      (same : changed.stack = frame.stack) : (state.setFrame depth changed).active.stack = state.active.stack := by
    unfold State.setFrame
    split
    · rename_i own
      rw [own, State.frame?_depth] at found
      cases found
      exact same
    · rfl
  cases pointer <;> simp only [State.store?, reduceCtorEq] at stored
  case localPointer depth index =>
      obtain ⟨frame, found, changed, set, rfl⟩ := by simpa [Option.bind_eq_some_iff] using stored
      refine unchanged found ?_
      unfold Frame.setLocal? at set
      split at set <;> cases set
      rfl
  case argumentPointer depth index =>
      obtain ⟨frame, found, changed, set, rfl⟩ := by simpa [Option.bind_eq_some_iff] using stored
      refine unchanged found ?_
      unfold Frame.setArgument? at set
      split at set <;> cases set
      rfl

theorem State.store?_room {state after : State} {pointer value : Value}
    (stored : state.store? pointer value = some after) : after.active.room = state.active.room := by
  have same := congrArg Prod.fst (State.store?_outline state stored)
  simp only [State.outline, Frame.outline, Frame.mk.injEq] at same
  obtain ⟨-, -, arguments, locals, -, returns, -, -⟩ := same
  simp only [Frame.room, Room.mk.injEq]
  exact ⟨by simpa using congrArg Array.size arguments, by simpa using congrArg Array.size locals, returns⟩

namespace Action

variable {α β : Type} {opcode : Opcode} {room : Room} {height : Nat}

/-- From a stack of the given height an action ends at a height the condition allows, or with a fault
that depths do not rule out. -/
def Ensures (opcode : Opcode) (room : Room) (height : Nat) (action : Action α) (post : α → Nat → Prop) : Prop :=
  ∀ state : State, state.active.room = room → state.active.stack.length = height →
    match action.run.run state with
    | (.ok result, after) => after.active.room = room ∧ post result after.active.stack.length
    | (.error fault, _) => fault.ruledOut opcode = false

/-- An action that takes and leaves fixed numbers of values wherever it finds those it takes. -/
def Moves (opcode : Opcode) (room : Room) (pops pushes : Nat) (action : Action α) : Prop :=
  ∀ height, pops ≤ height →
    Ensures opcode room height action fun _ after => after + pops = height + pushes

theorem Ensures.weaken {action : Action α} {post weaker : α → Nat → Prop}
    (ensured : Ensures opcode room height action post) (implies : ∀ result after, post result after → weaker result after) :
    Ensures opcode room height action weaker := by
  intro state same held
  have ended := ensured state same held
  rcases ran : action.run.run state with ⟨_ | result, after⟩
  · simpa only [ran] using ended
  · rw [ran] at ended
    exact ⟨ended.1, implies result _ ended.2⟩

theorem Ensures.bind {action : Action α} {next : α → Action β} {middle : α → Nat → Prop} {post : β → Nat → Prop}
    (first : Ensures opcode room height action middle)
    (rest : ∀ result after, middle result after → Ensures opcode room after (next result) post) :
    Ensures opcode room height (action >>= next) post := by
  intro state same held
  have ended := first state same held
  rw [run_bind]
  rcases ran : action.run.run state with ⟨_ | result, after⟩
  · simpa only [ran] using ended
  · rw [ran] at ended
    exact rest result _ ended.2 after ended.1 rfl

theorem ensures_pure {post : α → Nat → Prop} {result : α} (ends : post result height) :
    Ensures opcode room height (pure result) post := by
  intro state same held
  rw [run_pure]
  exact ⟨same, held ▸ ends⟩

theorem ensures_throw {post : α → Nat → Prop} {fault : Fault} (allowed : fault.ruledOut opcode = false) :
    Ensures opcode room height (throw fault : Action α) post := by
  intro state _ _
  rw [run_throw]
  exact allowed

theorem ensures_read {next : State → Action α} {post : α → Nat → Prop}
    (rest : ∀ state : State, state.active.room = room → state.active.stack.length = height →
      Ensures opcode room height (next state) post) :
    Ensures opcode room height (get >>= next) post := by
  intro state same held
  rw [run_get_bind]
  exact rest state same held state same held

theorem ensures_orThrow {fault : Fault} (allowed : fault.ruledOut opcode = false) (result : Option α) :
    Ensures opcode room height (orThrow fault result) fun _ after => after = height := by
  cases result with
  | none => exact ensures_throw allowed
  | some result => exact ensures_pure rfl

theorem ensures_pop : Ensures opcode room (height + 1) pop fun _ after => after = height := by
  intro state same held
  rw [run_pop]
  cases stack : state.active.stack with
  | nil => simp [stack] at held
  | cons value rest =>
      refine ⟨same, ?_⟩
      simpa [stack] using held

theorem ensures_push (value : Value) : Ensures opcode room height (push value) fun _ after => after = height + 1 := by
  intro state same held
  rw [run_push]
  exact ⟨same, by simp [Frame.push, held]⟩

theorem ensures_onStore (change : Store → α × Store) :
    Ensures opcode room height (onStore change) fun _ after => after = height := by
  intro state same held
  rw [run_onStore]
  exact ⟨same, held⟩

theorem ensures_store (through : opcode.throughAddress = true) (pointer value : Value) :
    Ensures opcode room height (store pointer value) fun _ after => after = height := by
  intro state same held
  rw [run_store]
  cases stored : state.store? pointer value with
  | some after => exact ⟨(State.store?_room stored).trans same, (congrArg _ (State.store?_stack stored)).trans held⟩
  | none => simp [Fault.ruledOut, through]

/-- Writing a slot of the active frame that is there. -/
theorem ensures_storeOwn {pointer : Nat → Value} {value : Value}
    (present : ∀ state : State, state.active.room = room →
      ∃ after, state.store? (pointer state.depth) value = some after) :
    Ensures opcode room height (do store (pointer (← depth)) value) fun _ after => after = height := by
  intro state same held
  rw [run_bind, run_depth]
  obtain ⟨after, stored⟩ := present state same
  simp only [run_store, stored]
  exact ⟨(State.store?_room stored).trans same, (congrArg _ (State.store?_stack stored)).trans held⟩

theorem ensures_load (through : opcode.throughAddress = true) (pointer : Value) :
    Ensures opcode room height (load pointer) fun _ after => after = height :=
  ensures_read fun _ _ _ => ensures_orThrow (by simp [Fault.ruledOut, through]) _

theorem ensures_loadOwn {pointer : Nat → Value}
    (present : ∀ state : State, state.active.room = room → ∃ value, state.load? (pointer state.depth) = some value) :
    Ensures opcode room height (do load (pointer (← depth))) fun _ after => after = height := by
  intro state same held
  rw [run_bind, run_depth]
  obtain ⟨value, loaded⟩ := present state same
  simp only [load, run_get_bind, loaded]
  exact ⟨same, held⟩

theorem moves_push (value : Value) : Moves opcode room 0 1 (push value) :=
  fun _ _ => (ensures_push value).weaken fun _ _ ended => by omega

/-- Pops a value that is there. -/
theorem ensures_pop_of_pos (held : 0 < height) :
    Ensures opcode room height pop fun _ after => after + 1 = height := by
  obtain ⟨rest, rfl⟩ : ∃ rest, height = rest + 1 := ⟨height - 1, by omega⟩
  exact ensures_pop.weaken fun _ _ ended => by omega

theorem ensures_popInt32 (held : 0 < height) :
    Ensures opcode room height popInt32 fun _ after => after + 1 = height := by
  refine (ensures_pop_of_pos (by omega)).bind fun value after popped => ?_
  cases value
  case int32 => exact ensures_pure popped
  all_goals exact ensures_throw rfl

theorem ensures_popMany (count : Nat) (held : count ≤ height) :
    Ensures opcode room height (popMany count) fun _ after => after + count = height := by
  induction count generalizing height with
  | zero => exact ensures_pure rfl
  | succ count ih =>
      refine (ensures_pop_of_pos (by omega)).bind fun last middle popped => ?_
      refine (ih (by omega)).bind fun rest after taken => ?_
      exact ensures_pure (by omega)

theorem moves_pushFound {fault : Fault} (allowed : fault.ruledOut opcode = false) (result : Option Value) :
    Moves opcode room 0 1 (do push (← orThrow fault result)) := by
  intro height _
  refine (ensures_orThrow allowed result).bind fun value after same => ?_
  exact (ensures_push value).weaken fun _ _ pushed => by omega

theorem ensures_popCompare (operation : CompareOp) (held : 2 ≤ height) :
    Ensures opcode room height (popCompare operation) fun _ after => after + 2 = height := by
  refine (ensures_pop_of_pos (by omega)).bind fun right middle first => ?_
  refine (ensures_pop_of_pos (by omega)).bind fun left after second => ?_
  exact (ensures_orThrow rfl _).weaken fun _ _ same => by omega

theorem moves_popBinary (operation : BinaryOp) : Moves opcode room 2 1 (popBinary operation) := by
  intro height held
  refine (ensures_pop_of_pos (by omega)).bind fun right middle first => ?_
  refine (ensures_pop_of_pos (by omega)).bind fun left after second => ?_
  exact (moves_pushFound rfl _ after (Nat.zero_le _)).weaken fun _ _ pushed => by omega

theorem moves_pushCompare (operation : CompareOp) : Moves opcode room 2 1 (pushCompare operation) := by
  intro height held
  refine (ensures_popCompare operation held).bind fun holds after popped => ?_
  exact (ensures_push _).weaken fun _ _ pushed => by omega

theorem moves_dup : Moves opcode room 1 2 (do
    let value ← pop
    push value
    push value) := by
  intro height held
  refine (ensures_pop_of_pos (by omega)).bind fun value after popped => ?_
  refine (ensures_push value).bind fun _ middle first => ?_
  exact (ensures_push value).weaken fun _ _ second => by omega

theorem moves_pop : Moves opcode room 1 0 (do let _ ← pop) := by
  intro height held
  exact (ensures_pop_of_pos (by omega)).bind fun _ after popped => ensures_pure popped

theorem moves_loadArgument {index : UInt16} (inside : index.toNat < room.arguments) :
    Moves opcode room 0 1 (loadArgument index) := by
  intro height _
  refine ensures_read fun state same _ => ?_
  have bound : index.toNat < state.active.args.size := by rw [← same] at inside; exact inside
  rw [Array.getElem?_eq_getElem bound]
  exact (ensures_push _).weaken fun _ _ pushed => by omega

theorem moves_storeArgument {index : UInt16} (inside : index.toNat < room.arguments) :
    Moves opcode room 1 0 (storeArgument index) := by
  intro height held
  refine (ensures_pop_of_pos (by omega)).bind fun value after popped => ?_
  refine (ensures_storeOwn fun state same => ?_).weaken fun _ _ stored => by omega
  have bound : index.toNat < state.active.args.size := by rw [← same] at inside; exact inside
  simp [State.store?, State.frame?_depth, Frame.setArgument?, bound]

theorem moves_loadLocal {index : UInt16} (inside : index.toNat < room.locals) :
    Moves opcode room 0 1 (loadLocal index) := by
  intro height _
  have loads : Ensures opcode room height (do load (.localPointer (← depth) index)) fun _ after => after = height := by
    refine ensures_loadOwn fun state same => ?_
    have bound : index.toNat < state.active.locals.size := by rw [← same] at inside; exact inside
    simp [State.load?, State.frame?_depth, bound]
  exact loads.bind fun value after same => (ensures_push value).weaken fun _ _ pushed => by omega

theorem moves_storeLocal {index : UInt16} (inside : index.toNat < room.locals) :
    Moves opcode room 1 0 (storeLocal index) := by
  intro height held
  refine (ensures_pop_of_pos (by omega)).bind fun value after popped => ?_
  refine (ensures_storeOwn fun state same => ?_).weaken fun _ _ stored => by omega
  have bound : index.toNat < state.active.locals.size := by rw [← same] at inside; exact inside
  simp [State.store?, State.frame?_depth, Frame.setLocal?, bound]

theorem moves_loadAddress (pointer : Nat → Value) : Moves opcode room 0 1 (do push (pointer (← depth))) := by
  intro height _ state same held
  exact ⟨same, by simp [Frame.push, held]⟩

theorem moves_negate : Moves opcode room 1 1 negate := by
  intro height held
  refine (ensures_pop_of_pos (by omega)).bind fun value after popped => ?_
  cases value
  case int32 | int64 | double => exact (ensures_push _).weaken fun _ _ pushed => by omega
  all_goals exact ensures_throw rfl

theorem moves_complement : Moves opcode room 1 1 complement := by
  intro height held
  refine (ensures_pop_of_pos (by omega)).bind fun value after popped => ?_
  cases value
  case int32 | int64 => exact (ensures_push _).weaken fun _ _ pushed => by omega
  all_goals exact ensures_throw rfl

theorem moves_convert (conversion : Value → Option Value) : Moves opcode room 1 1 (convert conversion) := by
  intro height held
  refine (ensures_pop_of_pos (by omega)).bind fun value after popped => ?_
  exact (moves_pushFound rfl _ after (Nat.zero_le _)).weaken fun _ _ pushed => by omega

theorem moves_loadIndirect (through : opcode.throughAddress = true) : Moves opcode room 1 1 (do
    let pointer ← pop
    push (← load pointer)) := by
  intro height held
  refine (ensures_pop_of_pos (by omega)).bind fun pointer after popped => ?_
  refine (ensures_load through pointer).bind fun value middle same => ?_
  exact (ensures_push value).weaken fun _ _ pushed => by omega

theorem moves_storeIndirect (through : opcode.throughAddress = true) : Moves opcode room 2 0 (do
    let value ← pop
    let pointer ← pop
    store pointer value) := by
  intro height held
  refine (ensures_pop_of_pos (by omega)).bind fun value middle first => ?_
  refine (ensures_pop_of_pos (by omega)).bind fun pointer after second => ?_
  exact (ensures_store through pointer value).weaken fun _ _ same => by omega

theorem moves_clear (through : opcode.throughAddress = true) (value : Value) : Moves opcode room 1 0 (do
    let pointer ← pop
    store pointer value) := by
  intro height held
  refine (ensures_pop_of_pos (by omega)).bind fun pointer after popped => ?_
  exact (ensures_store through pointer value).weaken fun _ _ same => by omega

theorem ensures_fieldOperand (operand : Operand) :
    Ensures opcode room height (fieldOperand operand) fun _ after => after = height := by
  cases operand
  case field => exact ensures_pure rfl
  all_goals exact ensures_throw rfl

theorem moves_loadField (operand : Operand) : Moves opcode room 1 1 (loadField operand) := by
  intro height held
  refine (ensures_fieldOperand operand).bind fun field start same => ?_
  refine (ensures_pop_of_pos (by omega)).bind fun object after popped => ?_
  refine ensures_read fun state _ _ => ?_
  exact (moves_pushFound rfl _ after (Nat.zero_le _)).weaken fun _ _ pushed => by omega

theorem moves_storeField (operand : Operand) : Moves opcode room 2 0 (storeField operand) := by
  intro height held
  refine (ensures_fieldOperand operand).bind fun field start same => ?_
  refine (ensures_pop_of_pos (by omega)).bind fun value middle first => ?_
  refine (ensures_pop_of_pos (by omega)).bind fun object after second => ?_
  refine ensures_read fun state _ _ => ?_
  refine (ensures_orThrow rfl _).bind fun found last unchanged => ?_
  exact (ensures_onStore _).weaken fun _ _ stored => by omega

theorem moves_loadStatic (field : FieldRef) : Moves opcode room 0 1 (loadStatic (.field field)) :=
  fun height _ => ensures_read fun _ _ _ => moves_push _ height (Nat.zero_le _)

theorem moves_storeStatic (operand : Operand) : Moves opcode room 1 0 (storeStatic operand) := by
  intro height held
  refine (ensures_pop_of_pos (by omega)).bind fun value after popped => ?_
  cases operand
  case field => exact (ensures_onStore _).weaken fun _ _ stored => by omega
  all_goals exact ensures_pure popped

theorem moves_newArray (operand : Operand) : Moves opcode room 1 1 (newArray operand) := by
  intro height held
  refine (ensures_popInt32 (by omega)).bind fun length middle popped => ?_
  refine (ensures_orThrow rfl _).bind fun size start found => ?_
  refine (ensures_onStore _).bind fun array after allocated => ?_
  exact (ensures_push _).weaken fun _ _ pushed => by omega

theorem moves_arrayLength : Moves opcode room 1 1 arrayLength := by
  intro height held
  refine (ensures_pop_of_pos (by omega)).bind fun array middle popped => ?_
  refine ensures_read fun state _ _ => ?_
  refine (ensures_orThrow rfl _).bind fun found after same => ?_
  exact (ensures_push _).weaken fun _ _ pushed => by omega

theorem moves_loadItem : Moves opcode room 2 1 loadItem := by
  intro height held
  refine (ensures_popInt32 (by omega)).bind fun index middle first => ?_
  refine (ensures_pop_of_pos (by omega)).bind fun array after second => ?_
  refine (ensures_orThrow rfl _).bind fun position start inRange => ?_
  refine ensures_read fun state _ _ => ?_
  refine (ensures_orThrow rfl _).bind fun found last isArray => ?_
  exact (moves_pushFound rfl _ last (Nat.zero_le _)).weaken fun _ _ pushed => by omega

theorem moves_storeItem : Moves opcode room 3 0 storeItem := by
  intro height held
  refine (ensures_pop_of_pos (by omega)).bind fun value top first => ?_
  refine (ensures_popInt32 (by omega)).bind fun index middle second => ?_
  refine (ensures_pop_of_pos (by omega)).bind fun array after third => ?_
  refine (ensures_orThrow rfl _).bind fun position start inRange => ?_
  refine ensures_read fun state _ _ => ?_
  refine (ensures_orThrow rfl _).bind fun address last isArray => ?_
  exact (ensures_onStore _).weaken fun _ _ stored => by omega

theorem ensures_carrierMember (reference : MethodRef) (typed : Bool) (args : List Value) :
    Ensures opcode room height (carrierMember reference typed args) fun _ after => after = height := by
  unfold carrierMember
  cases args.head? with
  | none => exact ensures_throw rfl
  | some carrier =>
      refine ensures_read fun state _ _ => ?_
      cases state.store.carrier? carrier with
      | none => exact ensures_throw rfl
      | some found =>
          dsimp only
          split
          · exact ensures_pure rfl
          · exact ensures_onStore _
          · exact ensures_pure rfl
          · exact ensures_onStore _
          · exact ensures_throw rfl

theorem ensures_builtin? (program : Program) (reference : MethodRef) (args : List Value) :
    Ensures opcode room height (builtin? program reference args) fun _ after => after = height := by
  unfold builtin?
  split
  · exact (ensures_carrierMember _ _ _).bind fun result after same => ensures_pure same
  · split
    · exact ensures_onStore _
    · exact ensures_pure rfl
    · exact ensures_pure rfl
    · exact ensures_pure rfl

end Action

/-- How control may go on after an instruction, with the height it then leaves. -/
def Control.Follows (instruction : Instruction) (height : Nat) : Control → Nat → Prop
  | .next, after => instruction.fallsThrough = true ∧ after + instruction.pops = height + instruction.pushes
  | .jump target, after =>
    target ∈ instruction.targets ∧ after + instruction.pops = height + instruction.pushes
  | .return _, _ => instruction.opcode = .ret
  | .call started, after =>
    instruction.fallsThrough = true ∧
      after + started.completion.pushed + instruction.pops = height + instruction.pushes

namespace Action

variable {opcode : Opcode} {room : Room} {height : Nat} {instruction : Instruction}

theorem Moves.follows {action : Action Unit} {pops pushes : Nat} (moves : Moves opcode room pops pushes action)
    (falls : instruction.fallsThrough = true) (taken : instruction.pops = pops) (left : instruction.pushes = pushes)
    (held : pops ≤ height) :
    Ensures opcode room height (andNext action) (Control.Follows instruction height) := by
  refine (moves height held).bind fun _ after moved => ?_
  exact ensures_pure ⟨falls, by rw [taken, left]; exact moved⟩

theorem follows_branch {operand : Operand} {taken : Bool} {after : Nat} (own : operand = instruction.operand)
    (falls : taken = false → instruction.fallsThrough = true)
    (branches : ∃ target, operand = .target target)
    (moved : after + instruction.pops = height + instruction.pushes) :
    (branch operand taken).Follows instruction height after := by
  obtain ⟨target, rfl⟩ := branches
  cases taken with
  | false => exact ⟨falls rfl, moved⟩
  | true => exact ⟨by simp [Instruction.targets, ← own, Operand.targets], moved⟩

theorem follows_branchIf {operand : Operand} {condition : Bool} (own : operand = instruction.operand)
    (falls : instruction.fallsThrough = true) (branches : ∃ target, operand = .target target)
    (taken : instruction.pops = 1) (left : instruction.pushes = 0) (held : 1 ≤ height) :
    Ensures opcode room height (branchIf operand condition) (Control.Follows instruction height) := by
  refine (ensures_pop_of_pos (by omega)).bind fun value after popped => ?_
  exact ensures_pure (follows_branch own (fun _ => falls) branches (by omega))

theorem follows_branchCompare {operand : Operand} {operation : CompareOp} (own : operand = instruction.operand)
    (falls : instruction.fallsThrough = true) (branches : ∃ target, operand = .target target)
    (taken : instruction.pops = 2) (left : instruction.pushes = 0) (held : 2 ≤ height) :
    Ensures opcode room height (branchCompare operand operation) (Control.Follows instruction height) := by
  refine (ensures_popCompare operation held).bind fun holds after popped => ?_
  exact ensures_pure (follows_branch own (fun _ => falls) branches (by omega))

theorem follows_switch {operand : Operand} (own : operand = instruction.operand)
    (falls : instruction.fallsThrough = true)
    (taken : instruction.pops = 1) (left : instruction.pushes = 0) (held : 1 ≤ height) :
    Ensures opcode room height (switch operand) (Control.Follows instruction height) := by
  refine (ensures_popInt32 (by omega)).bind fun index after popped => ?_
  have next : (Control.next).Follows instruction height after := ⟨falls, by omega⟩
  cases operand
  case switch targets =>
    refine ensures_pure ?_
    cases found : (index? index).bind fun index => targets[index]? with
    | none => exact next
    | some target =>
        obtain ⟨position, -, chosen⟩ := Option.bind_eq_some_iff.mp found
        refine ⟨?_, by omega⟩
        simpa [Instruction.targets, ← own, Operand.targets] using List.mem_of_getElem? chosen
  all_goals exact ensures_pure next

theorem follows_call (program : Program) {reference : MethodRef} (falls : instruction.fallsThrough = true)
    (taken : instruction.pops = reference.params.length + reference.hasThis.toNat)
    (left : instruction.pushes = (!reference.returns.isVoid).toNat) (held : instruction.pops ≤ height) :
    Ensures opcode room height (call program (.method reference)) (Control.Follows instruction height) := by
  refine (ensures_popMany _ (taken ▸ held)).bind fun args middle popped => ?_
  refine (ensures_builtin? program reference args).bind ?_
  rintro (_ | result) after same
  · refine (ensures_orThrow rfl _).bind fun found last unchanged => ?_
    refine ensures_pure ⟨falls, ?_⟩
    cases void : reference.returns.isVoid <;> simp [void, Completion.pushed] at left ⊢ <;> omega
  · cases void : reference.returns.isVoid with
    | false =>
        simp only [void, Bool.not_false, Bool.toNat_true] at left
        refine (ensures_push result).bind fun _ last pushed => ?_
        exact ensures_pure ⟨falls, by omega⟩
    | true =>
        simp only [void, Bool.not_true, Bool.toNat_false] at left
        exact ensures_pure ⟨falls, by omega⟩

theorem follows_construct (program : Program) {reference : MethodRef}
    (falls : instruction.fallsThrough = true) (taken : instruction.pops = reference.params.length)
    (left : instruction.pushes = 1) (held : instruction.pops ≤ height) :
    Ensures opcode room height (construct program (.method reference)) (Control.Follows instruction height) := by
  refine (ensures_popMany _ (taken ▸ held)).bind fun args start popped => ?_
  split
  · refine (ensures_onStore _).bind fun carrier middle allocated => ?_
    refine (ensures_push carrier).bind fun _ after pushed => ?_
    exact ensures_pure ⟨falls, by omega⟩
  · refine (ensures_orThrow rfl _).bind fun declaring second found => ?_
    refine (ensures_orThrow rfl _).bind fun type third resolved => ?_
    refine (ensures_onStore _).bind fun object fourth allocated => ?_
    cases program.method? reference with
    | none =>
        refine (ensures_push object).bind fun _ after pushed => ?_
        exact ensures_pure ⟨falls, by omega⟩
    | some constructor => exact ensures_pure ⟨falls, by simp only [Completion.pushed]; omega⟩

end Action

open CilWeave.Machine.Action in
/-- Every instruction keeps to its row of the table. -/
theorem execute_follows (program : Program) {instruction : Instruction} {room : Room} {height : Nat}
    (wellFormed : instruction.wellFormed = true)
    (localInside : ∀ index, instruction.local? = some index → index.toNat < room.locals)
    (argumentInside : ∀ index, instruction.argument? = some index → index.toNat < room.arguments)
    (held : (if instruction.opcode = .ret then room.returnsValue.toNat else instruction.pops) ≤ height) :
    Ensures instruction.opcode room height (execute program instruction) (Control.Follows instruction height) := by
  obtain ⟨id, opcode, operand⟩ := instruction
  have slot (found : (Instruction.local? ⟨id, opcode, operand⟩).isSome) :
      ((Instruction.local? ⟨id, opcode, operand⟩).getD 0).toNat < room.locals := by
    obtain ⟨index, same⟩ := Option.isSome_iff_exists.mp found
    rw [same]
    exact localInside index same
  have argument (found : (Instruction.argument? ⟨id, opcode, operand⟩).isSome) :
      ((Instruction.argument? ⟨id, opcode, operand⟩).getD 0).toNat < room.arguments := by
    obtain ⟨index, same⟩ := Option.isSome_iff_exists.mp found
    rw [same]
    exact argumentInside index same
  have ownSlot (own : opcode.impliedLocal?.isSome) : (Instruction.local? ⟨id, opcode, operand⟩).isSome := by
    cases operand <;> simp [Instruction.local?, own]
  have ownArgument (own : opcode.impliedArgument?.isSome) : (Instruction.argument? ⟨id, opcode, operand⟩).isSome := by
    cases operand <;> simp [Instruction.argument?, own]
  have fits : operand.fits opcode.operandKind = true := wellFormed
  cases opcode <;> simp only [execute]
  case nop | box | unboxAny | castclass | isinst => exact ensures_pure ⟨rfl, rfl⟩
  case ldcI4M1 | ldcI40 | ldcI41 | ldcI42 | ldcI43 | ldcI44 | ldcI45 | ldcI46 | ldcI47 | ldcI48 | ldnull =>
    exact (moves_push _).follows rfl rfl rfl held
  case ldarg0 | ldarg1 | ldarg2 | ldarg3 =>
    exact (moves_loadArgument (argument (ownArgument rfl))).follows rfl rfl rfl held
  case ldargS | ldarg =>
    obtain ⟨index, rfl⟩ := Operand.fits_argument fits (by decide)
    exact (moves_loadArgument (argument rfl)).follows rfl rfl rfl held
  case stargS | starg =>
    obtain ⟨index, rfl⟩ := Operand.fits_argument fits (by decide)
    exact (moves_storeArgument (argument rfl)).follows rfl rfl rfl held
  case ldloc0 | ldloc1 | ldloc2 | ldloc3 => exact (moves_loadLocal (slot (ownSlot rfl))).follows rfl rfl rfl held
  case ldlocS | ldloc =>
    obtain ⟨index, rfl⟩ := Operand.fits_local fits (by decide)
    exact (moves_loadLocal (slot rfl)).follows rfl rfl rfl held
  case stloc0 | stloc1 | stloc2 | stloc3 => exact (moves_storeLocal (slot (ownSlot rfl))).follows rfl rfl rfl held
  case stlocS | stloc =>
    obtain ⟨index, rfl⟩ := Operand.fits_local fits (by decide)
    exact (moves_storeLocal (slot rfl)).follows rfl rfl rfl held
  case ldargaS | ldarga =>
    exact (moves_loadAddress fun depth => .argumentPointer depth _).follows rfl rfl rfl held
  case ldlocaS | ldloca =>
    exact (moves_loadAddress fun depth => .localPointer depth _).follows rfl rfl rfl held
  case ldcI4S | ldcI4 | ldcI8 | ldcR4 | ldcR8 => exact (moves_pushFound rfl _).follows rfl rfl rfl held
  case ldstr =>
    obtain ⟨text, rfl⟩ := Operand.fits_string fits
    exact (moves_push _).follows rfl rfl rfl held
  case dup => exact moves_dup.follows rfl rfl rfl held
  case pop => exact moves_pop.follows rfl rfl rfl held
  case add | sub | mul | div | rem | and | or | xor | shl | shr =>
    exact (moves_popBinary _).follows rfl rfl rfl held
  case neg => exact moves_negate.follows rfl rfl rfl held
  case not => exact moves_complement.follows rfl rfl rfl held
  case convI4 | convI8 | convR8 => exact (moves_convert _).follows rfl rfl rfl held
  case ceq | cgt | clt => exact (moves_pushCompare _).follows rfl rfl rfl held
  case br | brS =>
    obtain ⟨target, rfl⟩ := Operand.fits_target fits (by decide)
    exact ensures_pure ⟨List.mem_cons_self, rfl⟩
  case brtrue | brtrueS | brfalse | brfalseS =>
    exact follows_branchIf rfl rfl (Operand.fits_target fits (by decide)) rfl rfl held
  case beq | beqS | bneUn | bneUnS | bge | bgeS | bgt | bgtS | ble | bleS | blt | bltS =>
    exact follows_branchCompare rfl rfl (Operand.fits_target fits (by decide)) rfl rfl held
  case switch => exact follows_switch rfl rfl rfl rfl held
  case ldindI1 | ldindU1 | ldindI4 | ldindI8 | ldindR8 | ldindRef | ldobj =>
    exact (moves_loadIndirect rfl).follows rfl rfl rfl held
  case stindI1 | stindI4 | stindI8 | stindR8 | stindRef | stobj =>
    exact (moves_storeIndirect rfl).follows rfl rfl rfl held
  case initobj => exact (moves_clear rfl _).follows rfl rfl rfl held
  case ldfld => exact (moves_loadField _).follows rfl rfl rfl held
  case stfld => exact (moves_storeField _).follows rfl rfl rfl held
  case ldsfld =>
    obtain ⟨field, rfl⟩ := Operand.fits_field fits
    exact (moves_loadStatic field).follows rfl rfl rfl held
  case stsfld => exact (moves_storeStatic _).follows rfl rfl rfl held
  case newarr => exact (moves_newArray _).follows rfl rfl rfl held
  case ldlen => exact moves_arrayLength.follows rfl rfl rfl held
  case ldelemRef => exact moves_loadItem.follows rfl rfl rfl held
  case stelemRef => exact moves_storeItem.follows rfl rfl rfl held
  case call | callvirt =>
    obtain ⟨reference, rfl⟩ := Operand.fits_method fits
    refine follows_call program rfl rfl ?_ held
    cases void : reference.returns.isVoid <;>
      simp [Instruction.pushes, Opcode.info, Instruction.pushesValue, Instruction.method?, Operand.method?, void]
  case newobj =>
    obtain ⟨reference, rfl⟩ := Operand.fits_method fits
    exact follows_construct program rfl rfl rfl held
  case ret =>
    refine ensures_read fun state same _ => ?_
    have returns : state.active.returnsValue = room.returnsValue := by rw [← same]; rfl
    rw [returns]
    cases value : room.returnsValue with
    | false => exact ensures_pure rfl
    | true =>
        simp only [value, if_true, Bool.toNat_true] at held
        exact (ensures_pop_of_pos (by omega)).bind fun _ _ _ => ensures_pure rfl
  case throw => exact (ensures_pop_of_pos held).bind fun _ _ _ => ensures_throw rfl
  case ldflda | ldsflda => exact ensures_throw rfl

end CilWeave.Machine
