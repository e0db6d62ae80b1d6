import CilWeave.Proofs.Machine.Budget

/-!
Slots and their addresses. An address names a slot by the depth of a frame. An instruction that goes through an
address reads or writes that slot of the frame that is at the depth now and no other slot, or it fails.
-/

open CilWeave.Stateful

namespace CilWeave.Machine

/-- A local or an argument of a frame. -/
inductive Slot where
  | localAt (index : UInt16)
  | argumentAt (index : UInt16)
deriving DecidableEq

/-- The address of a slot in the frame at a depth. -/
def Slot.address (depth : Nat) : Slot → Value
  | .localAt index => .localPointer depth index
  | .argumentAt index => .argumentPointer depth index

/-- The depth and the slot that an address names. -/
def Slot.ofAddress? : Value → Option (Nat × Slot)
  | .localPointer depth index => some (depth, .localAt index)
  | .argumentPointer depth index => some (depth, .argumentAt index)
  | _ => none

theorem Slot.eq_address {address : Value} {depth : Nat} {slot : Slot} (named : ofAddress? address = some (depth, slot)) :
    address = slot.address depth := by
  cases address <;> cases named <;> rfl

/-- What a frame holds in a slot. -/
def Frame.slot? (frame : Frame) : Slot → Option Value
  | .localAt index => frame.locals[index.toNat]?
  | .argumentAt index => frame.args[index.toNat]?

/-- A frame with another value in a slot that it has. -/
def Frame.setSlot? (frame : Frame) (value : Value) : Slot → Option Frame
  | .localAt index => frame.setLocal? index value
  | .argumentAt index => frame.setArgument? index value

/-- What the frame at a depth holds in a slot. -/
def State.slot? (state : State) (depth : Nat) (slot : Slot) : Option Value :=
  (state.frame? depth).bind fun frame => frame.slot? slot

variable {state after : State} {frame changed : Frame} {depth : Nat} {slot : Slot} {value : Value}

theorem getElem?_setIfInBounds_slot {values : Array Value} {index : UInt16} (other : UInt16)
    (inside : index.toNat < values.size) : (values.setIfInBounds index.toNat value)[other.toNat]? =
      if other = index then some value else values[other.toNat]? := by
  rw [Array.getElem?_setIfInBounds]
  by_cases same : other = index
  · subst same
    simp [inside]
  · have apart : index.toNat ≠ other.toNat := fun equal => same (UInt16.toNat_inj.mp equal).symm
    simp [same, apart]

theorem Frame.setSlot?_none : frame.setSlot? value slot = none ↔ frame.slot? slot = none := by
  cases slot <;> simp [setSlot?, setLocal?, setArgument?, slot?]

theorem Frame.slot?_setSlot (set : frame.setSlot? value slot = some changed) (other : Slot) :
    changed.slot? other = if other = slot then some value else frame.slot? other := by
  cases slot with
  | localAt index =>
      by_cases inside : index.toNat < frame.locals.size <;> simp [setSlot?, setLocal?, inside] at set
      subst set
      cases other with
      | localAt other => simpa [slot?] using getElem?_setIfInBounds_slot other inside
      | argumentAt other => rfl
  | argumentAt index =>
      by_cases inside : index.toNat < frame.args.size <;> simp [setSlot?, setArgument?, inside] at set
      subst set
      cases other with
      | localAt other => rfl
      | argumentAt other => simpa [slot?] using getElem?_setIfInBounds_slot other inside

theorem State.frame?_setFrame (found : state.frame? depth = some frame) (other : Nat) :
    (state.setFrame depth changed).frame? other = if other = depth then some changed else state.frame? other := by
  grind [State.setFrame, State.frame?, State.depth]

theorem State.load?_address : state.load? (slot.address depth) = state.slot? depth slot := by
  cases slot <;> rfl

theorem State.store?_address : state.store? (slot.address depth) value =
    (state.frame? depth).bind fun frame => (frame.setSlot? value slot).map (state.setFrame depth) := by
  cases found : state.frame? depth with
  | none => cases slot <;> simp [store?, Slot.address, found]
  | some frame =>
      cases slot <;> simp only [store?, Slot.address, found, Frame.setSlot?, Option.bind_eq_bind,
        Option.bind_some, Option.map_eq_bind]
        <;> rfl

theorem State.store?_none (missing : state.slot? depth slot = none) : state.store? (slot.address depth) value = none := by
  rw [store?_address]
  cases found : state.frame? depth with
  | none => rfl
  | some frame =>
      rw [slot?, found] at missing
      simpa using Frame.setSlot?_none.mpr missing

/-- What is stored at an address is in its slot, and every other slot is as it was. -/
theorem State.store?_some {held : Value} (present : state.slot? depth slot = some held) :
    ∃ after, state.store? (slot.address depth) value = some after ∧ ∀ other place,
      after.slot? other place = if other = depth ∧ place = slot then some value else state.slot? other place := by
  rw [store?_address]
  cases found : state.frame? depth with
  | none => simp [slot?, found] at present
  | some frame =>
      cases set : frame.setSlot? value slot with
      | none =>
          rw [slot?, found] at present
          simp [Frame.setSlot?_none.mp set] at present
      | some changed =>
          refine ⟨state.setFrame depth changed, by simp [set], fun other place => ?_⟩
          rw [slot?, frame?_setFrame found]
          by_cases same : other = depth
          · subst same
            simp [slot?, found, Frame.slot?_setSlot set]
          · simp [slot?, same]

end CilWeave.Machine

namespace CilWeave

/-- How an opcode goes through an address. -/
inductive Indirection where
  | load
  | store
  | clear

def Opcode.indirection? : Opcode → Option Indirection
  | .ldindI1 | .ldindU1 | .ldindI4 | .ldindI8 | .ldindR8 | .ldindRef | .ldobj => some .load
  | .stindI1 | .stindI4 | .stindI8 | .stindR8 | .stindRef | .stobj => some .store
  | .initobj => some .clear
  | _ => none

namespace Machine

/-- What is done at an address. -/
inductive Access where
  | read
  | write (value : Value)

/-- The address that the next instruction goes through, and what it does there. -/
def State.access? (state : State) : Option (Value × Access) :=
  state.active.instruction?.bind fun instruction =>
    match instruction.opcode.indirection?, state.active.stack with
    | some .load, address :: _ => some (address, .read)
    | some .store, value :: address :: _ => some (address, .write value)
    | some .clear, address :: _ => some (address, .write (Action.defaultOf instruction.operand))
    | _, _ => none

/-- The slot of its own frame whose address an instruction takes. -/
def slotTaken? (instruction : Instruction) : Option Slot :=
  match instruction.opcode with
  | .ldlocaS | .ldloca => some (.localAt (instruction.local?.getD 0))
  | .ldargaS | .ldarga => some (.argumentAt (instruction.argument?.getD 0))
  | _ => none

/-- The slot of the active frame whose address is taken next. -/
def State.slotTaken? (state : State) : Option Slot := state.active.instruction?.bind Machine.slotTaken?

/-- What comes of an access to the slot at a depth: the address is invalid, or that slot is read or written, and it alone. -/
inductive Accessed (state : State) (depth : Nat) (slot : Slot) : Access → Except Fault Control × State → Prop
  | invalid {access : Access} {after : State} (missing : state.slot? depth slot = none)
      (same : after.slot? = state.slot?) :
      Accessed state depth slot access (.error (.invalidAddress (slot.address depth)), after)
  | read {value : Value} {after : State} (held : state.slot? depth slot = some value)
      (given : after.active.stack.head? = some value) (same : after.slot? = state.slot?) :
      Accessed state depth slot .read (.ok .next, after)
  | write {held value : Value} {after : State} (present : state.slot? depth slot = some held)
      (written : ∀ other place, after.slot? other place =
        if other = depth ∧ place = slot then some value else state.slot? other place) :
      Accessed state depth slot (.write value) (.ok .next, after)

/-- What an instruction does at an address that it has taken from the stack. -/
def Action.goThrough (address : Value) : Access → Action Unit
  | .read => do Action.push (← Action.load address)
  | .write value => Action.store address value

section

variable {state : State} {depth : Nat} {slot : Slot}

theorem State.exists_access
    (named : (state.access?.bind fun (address, _) => Slot.ofAddress? address) = some (depth, slot)) :
    ∃ access, state.access? = some (slot.address depth, access) := by
  obtain ⟨⟨address, access⟩, accesses, named⟩ := Option.bind_eq_some_iff.mp named
  exact ⟨access, Slot.eq_address named ▸ accesses⟩

/-- Slots are not on the stack. -/
theorem State.slot?_withStack (state : State) (stack : List Value) : (state.withStack stack).slot? = state.slot? := by
  funext depth slot
  have frames : (state.withStack stack).frame? depth =
      if depth = state.depth then some (state.withStack stack).active else state.frame? depth := by
    grind [State.frame?, State.withStack, State.depth]
  rw [slot?, slot?, frames]
  by_cases active : depth = state.depth
  · rw [if_pos active, show state.frame? depth = some state.active from if_pos active]
    cases slot <;> rfl
  · rw [if_neg active]

/-- An access tells apart states by their slots only. -/
theorem Accessed.of_slots {before : State} {access : Access} {outcome : Except Fault Control × State}
    (accessed : Accessed before depth slot access outcome) (same : before.slot? = state.slot?) :
    Accessed state depth slot access outcome := by
  cases accessed with
  | invalid missing kept => exact .invalid (same ▸ missing) (kept.trans same)
  | read held given kept => exact .read (same ▸ held) given (kept.trans same)
  | write present written => exact .write (same ▸ present) (same ▸ written)

theorem accessed_goThrough (access : Access) :
    Accessed state depth slot access ((Action.andNext (Action.goThrough (slot.address depth) access)).run.run state) := by
  rw [Action.run_andNext]
  cases held : state.slot? depth slot with
  | none =>
      cases access with
      | read =>
          rw [Action.goThrough, run_bind, Action.run_load, State.load?_address, held]
          exact .invalid held rfl
      | write value =>
          rw [Action.goThrough, Action.run_store, State.store?_none held]
          exact .invalid held rfl
  | some value =>
      cases access with
      | read =>
          rw [Action.goThrough, run_bind, Action.run_load, State.load?_address, held]
          exact .read held rfl (state.slot?_withStack _)
      | write value =>
          obtain ⟨after, stored, written⟩ := State.store?_some held
          rw [Action.goThrough, Action.run_store, stored]
          exact .write held written

variable {program : Program} {limits : Limits} {instruction : Instruction} {access : Access} {address : Value}

theorem act_of_executes (executes : state.executes limits = true) (found : state.active.instruction? = some instruction) :
    act program limits state = (execute program instruction).run.run state.count := by
  have within := State.executes_lt executes
  have allowed : ¬limits.maxInstructions < state.count.store.executed := by
    simp only [State.count]
    omega
  simp only [act, found, if_neg allowed]

theorem run_andNext_pop {value : Value} {stack : List Value} (stacked : state.active.stack = value :: stack)
    (next : Value → Action Unit) : (Action.andNext (Action.pop >>= next)).run.run state =
      (Action.andNext (next value)).run.run (state.withStack stack) := by
  rw [Action.run_andNext, Action.run_andNext, run_bind, Action.run_pop, stacked]
  rfl

/-- What an instruction that goes through an address takes from the stack first. -/
theorem execute_through {through : Indirection} (goes : instruction.opcode.indirection? = some through) :
    execute program instruction = Action.andNext (match through with
      | .load => do Action.goThrough (← Action.pop) .read
      | .store => do
        let value ← Action.pop
        Action.goThrough (← Action.pop) (.write value)
      | .clear => do Action.goThrough (← Action.pop) (.write (Action.defaultOf instruction.operand))) := by
  obtain ⟨id, opcode, operand⟩ := instruction
  cases opcode <;> cases goes <;> rfl

/-- An instruction that goes through an address reads or writes the slot that the address names, and no other slot of any
frame, or it fails. -/
theorem accessed_act (program : Program) (executes : state.executes limits = true)
    (accesses : state.access? = some (slot.address depth, access)) :
    Accessed state depth slot access (act program limits state) := by
  have through (stack : List Value) : Accessed state depth slot access
      ((Action.andNext (Action.goThrough (slot.address depth) access)).run.run (state.count.withStack stack)) :=
    (accessed_goThrough access).of_slots (State.slot?_withStack state stack)
  cases found : state.active.instruction? with
  | none => simp [State.access?, found] at accesses
  | some instruction =>
      rw [act_of_executes executes found]
      simp only [State.access?, found, Option.bind_some] at accesses
      split at accesses
      case h_1 goes stacked =>
        cases accesses
        rw [execute_through goes, run_andNext_pop (show state.count.active.stack = _ from stacked)]
        exact through _
      case h_2 goes stacked =>
        cases accesses
        rw [execute_through goes, run_andNext_pop (show state.count.active.stack = _ from stacked), run_andNext_pop rfl]
        exact through _
      case h_3 goes stacked =>
        cases accesses
        rw [execute_through goes, run_andNext_pop (show state.count.active.stack = _ from stacked)]
        exact through _
      case h_4 => cases accesses

/-- An instruction that takes the address of a slot leaves the address of that slot of the active frame on the stack. -/
theorem act_slotTaken (program : Program) (executes : state.executes limits = true)
    (takes : state.slotTaken? = some slot) : ∃ after, act program limits state = (.ok .next, after) ∧
      after.active.stack.head? = some (slot.address state.depth) := by
  cases found : state.active.instruction? with
  | none => simp [State.slotTaken?, found] at takes
  | some instruction =>
      rw [act_of_executes executes found]
      simp only [State.slotTaken?, found, Option.bind_some] at takes
      obtain ⟨id, opcode, operand⟩ := instruction
      cases opcode <;> cases takes <;> exact ⟨_, rfl, rfl⟩

end

end Machine

end CilWeave
