import CilWeave.Proofs.Machine.Activation
import CilWeave.Proofs.Mixin.Refinement

/-!
Callbacks in front of returns. The values for a return are pushed by a stretch of code that runs straight
into it, and the callback is called at the beginning of the stretch. Control comes to one stretch in each
activation that returns: at its beginning, or by a jump to a place behind it, which leaves the callback out.
-/

namespace CilWeave

open Machine Stateful

/-- Branches and switches push nothing. -/
theorem Opcode.push_of_targets {opcode : Opcode} (branches : opcode.operandKind = .target ∨
    opcode.operandKind = .shortTarget ∨ opcode.operandKind = .switch) : opcode.info.push = .fixed 0 := by
  cases opcode <;> first | rfl | simp [operandKind, info] at branches

theorem Operand.kind_of_targets {operand : Operand} {kind : OperandKind} (fits : operand.fits kind = true)
    (some : operand.targets ≠ []) : kind = .target ∨ kind = .shortTarget ∨ kind = .switch := by
  cases operand with
  | target id => cases kind <;> first | exact .inl rfl | exact .inr (.inl rfl) | cases fits
  | «switch» ids => cases kind <;> first | exact .inr (.inr rfl) | cases fits
  | _ => exact absurd rfl some

/-- An instruction that pushes a value goes straight on. -/
theorem Instruction.targets_of_pushes {instruction : Instruction} (fits : instruction.wellFormed = true)
    (pushes : instruction.pushesValue = true) : instruction.targets = [] := by
  by_contra some
  have nothing := Opcode.push_of_targets (Operand.kind_of_targets fits some)
  simp [pushesValue, nothing] at pushes

theorem Machine.ret_returns {program : Program} {instruction : Instruction} {state after : State} {control : Control}
    (returns : instruction.opcode = .ret)
    (ran : (execute program instruction).run.run state = (.ok control, after)) : ∃ value, control = .return value := by
  obtain ⟨id, opcode, operand⟩ := instruction
  cases returns
  have body : execute program ⟨id, .ret, operand⟩ =
      (do if (← get).active.returnsValue then return .return (← Action.pop) else return .return .void) := rfl
  rw [body, run_get_bind] at ran
  split at ran
  · rw [run_bind] at ran
    rcases popped : Action.pop.run.run state with ⟨fault | value, rest⟩
    · rw [popped] at ran
      cases ran
    · rw [popped] at ran
      cases ran
      exact ⟨value, rfl⟩
  · cases ran
    exact ⟨.void, rfl⟩

/-- A call of a method that is defined calls that method, if it does not fail. -/
theorem Machine.execute_callback {program : Program} {reference : MethodRef} {host : TypeDef} {callback : MethodDef}
    (resolved : program.method? reference = some (host, callback))
    (defined : ∀ args, Action.builtin? program reference args = pure none) {instruction : Instruction}
    (opcode : instruction.opcode = .call) (operand : instruction.operand = .method reference) {state after : State}
    {control : Control} (ran : (execute program instruction).run.run state = (.ok control, after)) :
    ∃ args completion, control = .call ⟨host, callback, args, completion⟩ := by
  obtain ⟨id, _, _⟩ := instruction
  cases opcode
  cases operand
  have calls : execute program ⟨id, .call, .method reference⟩ = Action.call program (.method reference) := rfl
  rw [calls] at ran
  simp only [Action.call, Operand.method?] at ran
  rw [run_bind] at ran
  rcases popped : (Action.popMany (reference.params.length + reference.hasThis.toNat)).run.run
    state with ⟨fault | args, rest⟩
  · rw [popped] at ran
    cases ran
  · rw [popped] at ran
    simp only at ran
    rw [run_bind, defined, run_pure] at ran
    simp only [resolved, Action.orThrow] at ran
    cases ran
    exact ⟨args, _, rfl⟩

/-- Widening keeps what is no branch. -/
theorem Instruction.Widens.opcode_iff {narrow wide : Instruction} (widens : narrow.Widens wide) {opcode : Opcode}
    (short : opcode.longForm? = none) (long : ∀ other : Opcode, other.longForm? ≠ some opcode) :
    wide.opcode = opcode ↔ narrow.opcode = opcode := by
  rcases widens.opcode with same | widened
  · rw [same]
  · constructor
    · rintro rfl
      exact absurd widened (long _)
    · rintro rfl
      rw [short] at widened
      cases widened

theorem Instruction.Widens.call_iff {narrow wide : Instruction} (widens : narrow.Widens wide) :
    wide.opcode = .call ↔ narrow.opcode = .call :=
  widens.opcode_iff rfl fun other => by cases other <;> nofun

theorem Instruction.Widens.ret_iff {narrow wide : Instruction} (widens : narrow.Widens wide) :
    wide.opcode = .ret ↔ narrow.opcode = .ret :=
  widens.opcode_iff rfl fun other => by cases other <;> nofun

theorem Source.draft_plain (source : Source) :
    source.draft.opcode ≠ .call ∧ source.draft.opcode ≠ .ret ∧ source.draft.operand.targets = [] := by
  have plain {own : List Opcode} {short long : Opcode} {operand : UInt16 → Operand} (index : UInt16)
      (opcodes : ∀ opcode ∈ short :: long :: own, opcode ≠ .call ∧ opcode ≠ .ret)
      (none : ∀ index, (operand index).targets = []) :
      (Draft.indexed own short long operand index).opcode ≠ .call ∧
        (Draft.indexed own short long operand index).opcode ≠ .ret ∧
        (Draft.indexed own short long operand index).operand.targets = [] := by
    unfold Draft.indexed
    cases found : own[index.toNat]? with
    | some opcode =>
        have member := List.mem_cons_of_mem short (List.mem_cons_of_mem long (List.mem_of_getElem? found))
        exact ⟨(opcodes opcode member).1, (opcodes opcode member).2, rfl⟩
    | none =>
        dsimp only
        split
        · exact ⟨(opcodes short (by simp)).1, (opcodes short (by simp)).2, none index⟩
        · exact ⟨(opcodes long (by simp)).1, (opcodes long (by simp)).2, none index⟩
  cases source with
  | argument index => exact plain index (by decide) fun _ => rfl
  | slot index => exact plain index (by decide) fun _ => rfl
  | slotAddress index => exact plain index (by decide) fun _ => rfl
  | nothing => exact ⟨nofun, nofun, rfl⟩

namespace CallbackSite

variable {site : CallbackSite} {offset : Nat} {draft : Draft}

/-- Only one instruction of a call's code calls, and none jumps or returns. -/
theorem callDrafts_plain (held : site.callDrafts[offset]? = some draft) :
    (draft.opcode = .call ↔ offset = site.sources.length) ∧ draft.opcode ≠ .ret ∧ draft.operand.targets = [] ∧
      (draft.opcode = .call → draft.operand = .method site.callback) := by
  unfold callDrafts at held
  rw [List.append_assoc] at held
  rcases Nat.lt_or_ge offset site.sources.length with before | behind
  · rw [List.getElem?_append_left (by simpa using before), List.getElem?_map] at held
    obtain ⟨source, -, rfl⟩ := Option.map_eq_some_iff.mp held
    obtain ⟨call, ret, targets⟩ := source.draft_plain
    exact ⟨⟨fun same => absurd same call, fun same => absurd same (Nat.ne_of_lt before)⟩, ret, targets,
      fun same => absurd same call⟩
  · rw [List.getElem?_append_right (by simpa using behind), List.length_map] at held
    rcases index : offset - site.sources.length with _ | rest
    · have here : offset = site.sources.length := Nat.le_antisymm (Nat.le_of_sub_eq_zero index) behind
      rw [index] at held
      cases held
      exact ⟨⟨fun _ => here, fun _ => rfl⟩, nofun, rfl, fun _ => rfl⟩
    · have other : offset ≠ site.sources.length := fun same => by simp [same] at index
      rw [index] at held
      split at held
      · simp at held
      · cases rest with
        | zero =>
            cases held
            exact ⟨⟨nofun, fun same => absurd same other⟩, nofun, rfl, nofun⟩
        | succ rest => simp at held

end CallbackSite

namespace Body

variable {body : Body}

/-- Stretches in front of different returns have nothing in common. -/
theorem same_return {position first second : Nat} (one : first ∈ body.returnPositions)
    (other : second ∈ body.returnPositions) (left : body.splicePosition first ≤ position ∧ position ≤ first)
    (right : body.splicePosition second ≤ position ∧ position ≤ second) : first = second := by
  rcases Nat.lt_trichotomy first second with less | same | more
  · exact absurd (Nat.le_trans right.1 left.2) (Nat.not_le.mpr (lt_splicePosition one less))
  · exact same
  · exact absurd (Nat.le_trans left.1 right.2) (Nat.not_le.mpr (lt_splicePosition other more))

/-- A stretch goes straight to its return. -/
theorem targets_of_stretch (fits : ∀ instruction ∈ body.instructions.toList, instruction.wellFormed = true)
    {position ret : Nat} (after : body.splicePosition ret ≤ position) (before : position < ret) {instruction : Instruction}
    (held : body.instructions[position]? = some instruction) : instruction.targets = [] ∧ instruction.opcode ≠ .ret := by
  obtain ⟨same, found, pushes⟩ := pushes_of_between after before
  cases Option.some.inj (held.symm.trans found)
  refine ⟨Instruction.targets_of_pushes (fits _ (List.mem_of_getElem? (by rwa [Array.getElem?_toList]))) pushes, ?_⟩
  intro returns
  simp [Instruction.pushesValue, returns, Opcode.info] at pushes

end Body

namespace Splice

variable (splice : Splice) (program : Program)

/-- The instruction that is next is an injected call. -/
def callsBack (state : State) : Bool :=
  state.active.instruction?.any fun instruction =>
    instruction.opcode == .call && !splice.original.ids.contains instruction.id

/-- One of the states jumps into the stretch in front of a return, to a place behind its beginning. -/
def Landed (visited : List State) (ret : Nat) : Prop :=
  ∃ state ∈ visited, ∃ instruction target after position, state.active.instruction? = some instruction ∧
    (execute program instruction).run.run state.count = (.ok (.jump target), after) ∧
    splice.original.idAt? position = some target ∧ splice.original.splicePosition ret < position ∧ position ≤ ret

/-- How far an activation has come. -/
inductive Stage (visited : List State) (position offset : Nat) : Prop
  /-- The callback was not called, and if this is a stretch it will be. -/
  | before (uncalled : visited.countP splice.callsBack = 0)
      (never : ∀ ret ∈ splice.original.returnPositions, ¬splice.Landed program visited ret)
      (outside : ∀ ret ∈ splice.original.returnPositions, ¬(splice.original.splicePosition ret < position ∧
        position ≤ ret))
      (due : offset ≤ splice.site.sources.length)
  /-- The callback was called at the beginning of this stretch. -/
  | behind (ret : Nat) (returns : ret ∈ splice.original.returnPositions) (called : visited.countP splice.callsBack = 1)
      (never : ∀ ret ∈ splice.original.returnPositions, ¬splice.Landed program visited ret)
      (within : splice.original.splicePosition ret ≤ position ∧ position ≤ ret)
      (past : splice.original.splicePosition ret = position → splice.site.sources.length < offset)
  /-- A jump has gone past the callback. -/
  | landed (ret : Nat) (returns : ret ∈ splice.original.returnPositions)
      (uncalled : visited.countP splice.callsBack = 0) (landed : splice.Landed program visited ret)
      (within : splice.original.splicePosition ret < position ∧ position ≤ ret)

/-- The callback is called without a carrier, in front of all returns of a body that is well formed. -/
structure AtReturns : Prop where
  plain : splice.site.carrier = none
  points : splice.points = splice.original.locate .return
  distinct : splice.original.ids.Nodup
  fits : ∀ instruction ∈ splice.original.instructions.toList, instruction.wellFormed = true
  closed : ∀ instruction ∈ splice.original.instructions.toList, ∀ target ∈ instruction.targets,
    target ∈ splice.original.ids

variable {splice program} {entry : InstrId → InstrId} {start : Nat → Nat} {position offset ret : Nat}

namespace AtReturns

theorem mem_points (atReturns : splice.AtReturns) {id : InstrId} (found : splice.original.idAt? position = some id) :
    id ∈ splice.points ↔ ∃ ret ∈ splice.original.returnPositions, splice.original.splicePosition ret = position := by
  rw [atReturns.points, Body.locate, List.mem_filterMap]
  constructor
  · rintro ⟨ret, returns, held⟩
    exact ⟨ret, returns, Body.idAt?_inj atReturns.distinct held found⟩
  · rintro ⟨ret, returns, rfl⟩
    exact ⟨ret, returns, found⟩

/-- The code for a call lies at the beginnings of stretches, and nowhere else. -/
theorem code_eq (atReturns : splice.AtReturns) (entry : InstrId → InstrId) {id : InstrId}
    (found : splice.original.idAt? position = some id) :
    splice.code entry position =
      if ∃ ret ∈ splice.original.returnPositions, splice.original.splicePosition ret = position then
        numbered (counting (entry id)) splice.site.callDrafts
      else [] := by
  simp only [code, found, atReturns.mem_points found, CallbackSite.codeAt, CallbackSite.codeBy, CallbackSite.drafts,
    CallbackSite.carrierDrafts, CallbackSite.askDrafts, atReturns.plain, List.nil_append, List.append_nil]

theorem length_code (atReturns : splice.AtReturns) (entry : InstrId → InstrId)
    (returns : ret ∈ splice.original.returnPositions) (begins : splice.original.splicePosition ret = position)
    (inside : position < splice.original.instructions.size) :
    splice.site.sources.length < (splice.code entry position).length := by
  have found : splice.original.idAt? position = some splice.original.instructions[position].id := by
    simp [Body.idAt?, inside]
  rw [atReturns.code_eq entry found, if_pos ⟨ret, returns, begins⟩, length_numbered, CallbackSite.callDrafts]
  simp

/-- What stands in the code for a call. -/
theorem draft (atReturns : splice.AtReturns) {instruction : Instruction}
    (held : (splice.code entry position)[offset]? = some instruction) :
    (∃ ret ∈ splice.original.returnPositions, splice.original.splicePosition ret = position) ∧
      (instruction.opcode = .call ↔ offset = splice.site.sources.length) ∧ instruction.opcode ≠ .ret ∧
      instruction.targets = [] ∧ (instruction.opcode = .call → instruction.operand = .method splice.site.callback) := by
  cases found : splice.original.idAt? position with
  | none => simp [code, found] at held
  | some id =>
      rw [atReturns.code_eq entry found] at held
      split at held
      · rename_i begins
        rw [getElem?_numbered] at held
        obtain ⟨draft, placed, rfl⟩ := Option.map_eq_some_iff.mp held
        exact ⟨begins, CallbackSite.callDrafts_plain placed⟩
      · cases held

end AtReturns

section Step

variable {visited : List State} {state after : State} {instruction : Instruction} {control : Control}

theorem landed_append : splice.Landed program (visited ++ [state]) ret ↔
    splice.Landed program visited ret ∨ splice.Landed program [state] ret := by
  unfold Landed
  constructor
  · rintro ⟨jumped, member, jumps⟩
    rcases List.mem_append.mp member with earlier | last
    · exact .inl ⟨jumped, earlier, jumps⟩
    · exact .inr ⟨jumped, last, jumps⟩
  · rintro (⟨jumped, member, jumps⟩ | ⟨jumped, member, jumps⟩)
    · exact ⟨jumped, List.mem_append_left _ member, jumps⟩
    · exact ⟨jumped, List.mem_append_right _ member, jumps⟩

/-- Where a state has jumped to. -/
theorem landed_one (here : state.active.instruction? = some instruction)
    (ran : (execute program instruction).run.run state.count = (.ok control, after))
    (landed : splice.Landed program [state] ret) :
    ∃ target position, control = .jump target ∧ splice.original.idAt? position = some target ∧
      splice.original.splicePosition ret < position ∧ position ≤ ret := by
  obtain ⟨jumped, member, other, target, later, position, there, jumps, found, within⟩ := landed
  cases List.mem_singleton.mp member
  cases Option.some.inj (here.symm.trans there)
  rw [ran] at jumps
  cases jumps
  exact ⟨target, position, rfl, found, within⟩

/-- The states left behind by a step that does not jump. -/
theorem not_landed (here : state.active.instruction? = some instruction)
    (ran : (execute program instruction).run.run state.count = (.ok control, after))
    (straight : ∀ target, control ≠ .jump target) (never : ¬splice.Landed program visited ret) :
    ¬splice.Landed program (visited ++ [state]) ret := by
  rw [landed_append]
  rintro (earlier | last)
  · exact never earlier
  · obtain ⟨target, -, same, -⟩ := landed_one here ran last
    exact straight target same

theorem count_append :
    (visited ++ [state]).countP splice.callsBack = visited.countP splice.callsBack + (splice.callsBack state).toNat := by
  rw [List.countP_append, List.countP_singleton]
  cases splice.callsBack state <;> rfl

variable (splice program entry start)

/-- A frame of the woven body is in the code for its position, at some stage. -/
def Reached (visited : List State) (frame : Frame) : Prop :=
  frame.body.instructions = splice.woven.instructions ∧ ∃ position offset, frame.position = start position + offset ∧
    position ≤ splice.original.instructions.size ∧ offset ≤ (splice.code entry position).length ∧
    splice.Stage program visited position offset

variable {splice program entry start}

/-- What an instruction of the woven body is: one of a call's code, or one of the original body. -/
theorem Layered.standing (layered : splice.Layered entry start) (atReturns : splice.AtReturns)
    (bound : position ≤ splice.original.instructions.size) (within : offset ≤ (splice.code entry position).length)
    (held : splice.woven.instructions[start position + offset]? = some instruction) :
    (offset < (splice.code entry position).length ∧
      (∃ ret ∈ splice.original.returnPositions, splice.original.splicePosition ret = position) ∧
      (instruction.opcode = .call ↔ offset = splice.site.sources.length) ∧ instruction.opcode ≠ .ret ∧
      instruction.targets = [] ∧ (instruction.opcode = .call → instruction.operand = .method splice.site.callback) ∧
      instruction.id ∉ splice.original.ids) ∨
    (offset = (splice.code entry position).length ∧ ∃ own, splice.original.instructions[position]? = some own ∧
      own ∈ splice.original.instructions.toList ∧ (own.redirect entry).Widens instruction ∧
      instruction.id ∈ splice.original.ids) := by
  rcases Nat.lt_or_eq_of_le within with inside | rfl
  · obtain ⟨narrow, placed⟩ : ∃ narrow, (splice.code entry position)[offset]? = some narrow :=
      ⟨_, List.getElem?_eq_getElem inside⟩
    obtain ⟨begins, calls, returns, targets, method⟩ := atReturns.draft placed
    obtain ⟨foreign, wide, there, widens⟩ := layered.injected position offset narrow placed
    cases Option.some.inj (held.symm.trans there)
    refine .inl ⟨inside, begins, widens.call_iff.trans calls, fun same => returns (widens.ret_iff.mp same), ?_, ?_, ?_⟩
    · rw [widens.targets, targets]
    · intro same
      rw [widens.operand]
      exact method (widens.call_iff.mp same)
    · rwa [widens.id]
  · refine .inr ⟨rfl, ?_⟩
    rcases Nat.lt_or_eq_of_le bound with inside | rfl
    · have found := Array.getElem?_eq_getElem inside
      obtain ⟨wide, there, widens⟩ := layered.own position _ found
      cases Option.some.inj (held.symm.trans there)
      have listed : splice.original.instructions[position] ∈ splice.original.instructions.toList := by simp
      refine ⟨_, found, listed, widens, ?_⟩
      exact List.mem_map.mpr ⟨_, listed, widens.id.symm⟩
    · have nothing : splice.code entry splice.original.instructions.size = [] := by
        simp [code, Body.idAt?]
      have most := (Array.getElem?_eq_some_iff.mp held).1
      rw [nothing, layered.last] at most
      exact absurd most (Nat.lt_irrefl _)

theorem callsBack_iff (here : state.active.instruction? = some instruction) :
    splice.callsBack state = true ↔ instruction.opcode = .call ∧ instruction.id ∉ splice.original.ids := by
  simp [callsBack, here]

/-- In the code for a call, the stage after the next instruction. -/
theorem Stage.inCode (here : state.active.instruction? = some instruction)
    (ran : (execute program instruction).run.run state.count = (.ok control, after))
    (straight : ∀ target, control ≠ .jump target)
    (begins : ∃ ret ∈ splice.original.returnPositions, splice.original.splicePosition ret = position)
    (calls : instruction.opcode = .call ↔ offset = splice.site.sources.length)
    (foreign : instruction.id ∉ splice.original.ids) (stage : splice.Stage program visited position offset) :
    splice.Stage program (visited ++ [state]) position (offset + 1) := by
  have counts : splice.callsBack state = true ↔ offset = splice.site.sources.length := by
    rw [callsBack_iff here, calls]
    exact and_iff_left foreign
  obtain ⟨ret, returns, rfl⟩ := begins
  have own := Body.splicePosition_le splice.original ret
  cases stage with
  | before uncalled never outside due =>
      have never (other : Nat) (member : other ∈ splice.original.returnPositions) :=
        not_landed here ran straight (never other member)
      rcases Nat.lt_or_eq_of_le due with less | last
      · have other : splice.callsBack state = false := by
          rw [Bool.eq_false_iff]
          exact fun same => Nat.ne_of_lt less (counts.mp same)
        refine .before ?_ never outside less
        rw [count_append, uncalled, other]
        rfl
      · refine .behind ret returns ?_ never ⟨Nat.le_refl _, own⟩ fun _ => last ▸ Nat.lt_succ_self _
        rw [count_append, uncalled, counts.mpr last]
        rfl
  | behind other member called never within past =>
      cases Body.same_return returns member ⟨Nat.le_refl _, own⟩ within
      have less := past rfl
      have already : splice.callsBack state = false := by
        rw [Bool.eq_false_iff]
        exact fun same => Nat.ne_of_gt less (counts.mp same)
      refine .behind ret returns ?_ (fun other member => not_landed here ran straight (never other member)) within
        fun _ => Nat.lt_succ_of_lt less
      rw [count_append, called, already]
      rfl
  | landed other member uncalled landed within =>
      cases Body.same_return returns member ⟨Nat.le_refl _, own⟩ ⟨Nat.le_of_lt within.1, within.2⟩
      exact absurd within.1 (Nat.lt_irrefl _)

/-- Behind an instruction of the original body that neither jumps nor returns. -/
theorem Stage.onward (atReturns : splice.AtReturns) {own : Instruction}
    (here : state.active.instruction? = some instruction)
    (ran : (execute program instruction).run.run state.count = (.ok control, after))
    (straight : ∀ target, control ≠ .jump target) (stays : own.opcode ≠ .ret)
    (held : splice.original.instructions[position]? = some own) (known : instruction.id ∈ splice.original.ids)
    (stage : splice.Stage program visited position (splice.code entry position).length) :
    splice.Stage program (visited ++ [state]) (position + 1) 0 := by
  have inside := (Array.getElem?_eq_some_iff.mp held).1
  have other : splice.callsBack state = false := by
    rw [Bool.eq_false_iff]
    exact fun same => ((callsBack_iff here).mp same).2 known
  have count : (visited ++ [state]).countP splice.callsBack = visited.countP splice.callsBack := by
    rw [count_append, other]
    rfl
  have before {ret : Nat} (returns : ret ∈ splice.original.returnPositions) (within : position ≤ ret) :
      position + 1 ≤ ret := by
    refine Nat.lt_of_le_of_ne within fun same => ?_
    obtain ⟨instruction, found, opcode⟩ := Body.mem_returnPositions.mp returns
    rw [← same, held] at found
    cases found
    exact stays opcode
  cases stage with
  | before uncalled never outside due =>
      refine .before (count ▸ uncalled) (fun ret returns => not_landed here ran straight (never ret returns)) ?_
        (Nat.zero_le _)
      rintro ret returns ⟨least, most⟩
      rcases Nat.lt_or_eq_of_le (Nat.le_of_lt_succ least) with less | begins
      · exact outside ret returns ⟨less, Nat.le_of_succ_le most⟩
      · exact absurd due (Nat.not_le.mpr (atReturns.length_code entry returns begins inside))
  | behind ret returns called never within past =>
      refine .behind ret returns (count ▸ called) (fun ret returns => not_landed here ran straight (never ret returns))
        ⟨Nat.le_succ_of_le within.1, before returns within.2⟩ fun begins => ?_
      exact absurd within.1 (Nat.not_le.mpr (begins ▸ Nat.lt_succ_self _))
  | landed ret returns uncalled landed within =>
      exact .landed ret returns (count ▸ uncalled) (landed_append.mpr (.inl landed))
        ⟨Nat.lt_succ_of_lt within.1, before returns within.2⟩

/-- The code in front of a place has an identity that the original body lacks. -/
theorem Layered.entry_foreign (layered : splice.Layered entry start) {id : InstrId}
    (found : splice.original.idAt? position = some id) (point : id ∈ splice.points) :
    entry id ∉ splice.original.ids := by
  obtain ⟨head, first, starts⟩ := splice.site.codeAt_head splice.cancel (entry id)
  have placed : (splice.code entry position)[0]? = some head := by
    simpa [code, found, point] using first
  rw [← starts]
  exact (layered.injected position 0 head placed).1

/-- Behind a jump of the original body. -/
theorem Stage.jumped (layered : splice.Layered entry start) (atReturns : splice.AtReturns) {own : Instruction}
    {target : InstrId} (here : state.active.instruction? = some instruction)
    (ran : (execute program instruction).run.run state.count = (.ok (.jump (entry target)), after))
    (stays : own.opcode ≠ .ret) (held : splice.original.instructions[position]? = some own) (member : target ∈ own.targets)
    (known : instruction.id ∈ splice.original.ids)
    (stage : splice.Stage program visited position (splice.code entry position).length) {destination : Nat}
    (found : splice.original.target? target = some destination) :
    splice.Stage program (visited ++ [state]) destination 0 := by
  have other : splice.callsBack state = false := by
    rw [Bool.eq_false_iff]
    exact fun same => ((callsBack_iff here).mp same).2 known
  have stretch {ret : Nat} (returns : ret ∈ splice.original.returnPositions)
      (within : splice.original.splicePosition ret ≤ position ∧ position ≤ ret) : False := by
    rcases Nat.lt_or_eq_of_le within.2 with less | rfl
    · rw [(Body.targets_of_stretch atReturns.fits within.1 less held).1] at member
      cases member
    · obtain ⟨last, there, opcode⟩ := Body.mem_returnPositions.mp returns
      rw [held] at there
      cases there
      exact stays opcode
  have named : splice.original.idAt? destination = some target := by
    obtain ⟨instruction, placed, same⟩ := Body.target?_found found
    simp [Body.idAt?, placed, same]
  cases stage with
  | behind ret returns _ _ within _ => exact (stretch returns within).elim
  | landed ret returns _ _ within => exact (stretch returns ⟨Nat.le_of_lt within.1, within.2⟩).elim
  | before uncalled never outside due =>
      have count : (visited ++ [state]).countP splice.callsBack = 0 := by
        rw [count_append, uncalled, other]
        rfl
      by_cases inner : ∃ ret ∈ splice.original.returnPositions,
          splice.original.splicePosition ret < destination ∧ destination ≤ ret
      · obtain ⟨ret, returns, within⟩ := inner
        have elsewhere : target ∉ splice.points := by
          rw [atReturns.mem_points named]
          rintro ⟨other, begins, rfl⟩
          have own := Body.splicePosition_le splice.original other
          cases Body.same_return returns begins ⟨Nat.le_of_lt within.1, within.2⟩ ⟨Nat.le_refl _, own⟩
          exact Nat.lt_irrefl _ within.1
        refine .landed ret returns count (landed_append.mpr (.inr ?_)) within
        rw [layered.stays target elsewhere] at ran
        exact ⟨state, List.mem_singleton_self _, instruction, target, after, destination, here, ran, named, within⟩
      · refine .before count (fun ret returns => ?_) (fun ret returns within => inner ⟨ret, returns, within⟩)
          (Nat.zero_le _)
        rw [landed_append]
        rintro (earlier | last)
        · exact never ret returns earlier
        · obtain ⟨reached, place, same, there, within⟩ := landed_one here ran last
          cases same
          by_cases point : target ∈ splice.points
          · exact layered.entry_foreign named point (Body.idAt?_mem there)
          · rw [layered.stays target point] at there
            cases Body.idAt?_inj atReturns.distinct there named
            exact inner ⟨ret, returns, within⟩

/-- The stage once control goes on to what follows. -/
theorem Reached.falls (layered : splice.Layered entry start) (atReturns : splice.AtReturns)
    (reached : splice.Reached program entry start visited state.active)
    (here : state.active.instruction? = some instruction)
    (ran : (execute program instruction).run.run state.count = (.ok control, after))
    (straight : ∀ target, control ≠ .jump target) (stays : ∀ value, control ≠ .return value) {frame : Frame}
    (body : frame.body = state.active.body) (place : frame.position = state.active.position + 1) :
    splice.Reached program entry start (visited ++ [state]) frame := by
  obtain ⟨woven, position, offset, there, bound, within, stage⟩ := reached
  have held : splice.woven.instructions[start position + offset]? = some instruction := by
    rw [← woven, ← there]
    exact here
  refine ⟨body ▸ woven, ?_⟩
  rcases layered.standing atReturns bound within held with
    ⟨inside, begins, calls, -, -, -, foreign⟩ | ⟨rfl, own, found, -, widens, known⟩
  · refine ⟨position, offset + 1, by rw [place, there, Nat.add_assoc], bound, inside, ?_⟩
    exact stage.inCode here ran straight begins calls foreign
  · have inner := (Array.getElem?_eq_some_iff.mp found).1
    have other : own.opcode ≠ .ret := by
      intro returns
      obtain ⟨value, same⟩ := ret_returns (widens.ret_iff.mpr returns) ran
      exact stays value same
    refine ⟨position + 1, 0, ?_, inner, Nat.zero_le _, stage.onward atReturns here ran straight other found known⟩
    rw [place, there, layered.next position inner]

/-- The stage once control has jumped. -/
theorem Reached.jumps (layered : splice.Layered entry start) (atReturns : splice.AtReturns)
    (reached : splice.Reached program entry start visited state.active)
    (here : state.active.instruction? = some instruction) {target : InstrId}
    (ran : (execute program instruction).run.run state.count = (.ok (.jump target), after)) {frame : Frame}
    (body : frame.body = state.active.body) (went : state.active.body.target? target = some frame.position) :
    splice.Reached program entry start (visited ++ [state]) frame := by
  obtain ⟨woven, position, offset, there, bound, within, stage⟩ := reached
  have held : splice.woven.instructions[start position + offset]? = some instruction := by
    rw [← woven, ← there]
    exact here
  have member := execute_jump ran
  refine ⟨body ▸ woven, ?_⟩
  rcases layered.standing atReturns bound within held with
    ⟨-, -, -, -, none, -, -⟩ | ⟨rfl, own, found, listed, widens, known⟩
  · rw [none] at member
    cases member
  · have other : own.opcode ≠ .ret := by
      intro returns
      obtain ⟨value, same⟩ := ret_returns (widens.ret_iff.mpr returns) ran
      cases same
    rw [widens.targets, Instruction.targets, Instruction.redirect, Operand.targets_mapTargets] at member
    obtain ⟨source, among, rfl⟩ := List.mem_map.mp member
    obtain ⟨destination, goes⟩ := Body.target?_of_mem (atReturns.closed own listed source among)
    have entered := layered.enter source destination goes
    rw [Body.target?_congr woven, entered] at went
    refine ⟨destination, 0, (Option.some.inj went).symm, Nat.le_of_lt (Body.target?_lt goes), Nat.zero_le _, ?_⟩
    exact stage.jumped layered atReturns here ran other found among known goes

/-- The stage once an activation's own frame has taken a step and has control again. -/
theorem Reached.step (layered : splice.Layered entry start) (atReturns : splice.AtReturns) {limits : Limits} {next : State}
    (reached : splice.Reached program entry start visited state.active)
    (stepped : step program limits state = .running next) :
    (next.depth = state.depth → splice.Reached program entry start (visited ++ [state]) next.active) ∧
      ∀ (frame : Frame) (callers : List Frame), next.callers = frame :: callers → next.depth = state.depth + 1 →
        ∀ resumed : Frame, resumed.body = frame.body → resumed.position = frame.position + 1 →
          splice.Reached program entry start (visited ++ [state]) resumed := by
  obtain ⟨instruction, control, after, here, ran, kept, followed⟩ := step_running stepped
  obtain ⟨body, place, -, -, callers⟩ := State.kept_of_outline kept
  have deep : after.callers.length = state.depth := by simpa [State.depth] using congrArg List.length callers
  cases follow_running followed with
  | next =>
      refine ⟨fun _ => ?_, fun frame callers _ deeper => ?_⟩
      · exact reached.falls layered atReturns here ran (by simp) (by simp) body (congrArg (· + 1) place)
      · exact absurd (deep.symm.trans deeper) (Nat.ne_of_lt (deep ▸ Nat.lt_succ_self _))
  | jump found =>
      refine ⟨fun _ => ?_, fun frame callers _ deeper => ?_⟩
      · exact reached.jumps layered atReturns here ran body (body ▸ found)
      · exact absurd (deep.symm.trans deeper) (Nat.ne_of_lt (deep ▸ Nat.lt_succ_self _))
  | «return» waiting =>
      rename_i value caller rest
      have fewer : rest.length + 1 = state.depth := by rw [← deep, waiting, List.length_cons]
      refine ⟨fun same => ?_, fun frame callers _ deeper => ?_⟩
      · have depth : rest.length = state.depth := same
        omega
      · have depth : rest.length = state.depth + 1 := deeper
        omega
  | call entered =>
      refine ⟨fun same => ?_, fun frame callers waits _ resumed sameBody goesOn => ?_⟩
      · have depth : after.callers.length + 1 = state.depth := same
        omega
      · cases (List.cons.inj waits).1
        exact reached.falls layered atReturns here ran (by simp) (by simp) (sameBody.trans body)
          (goesOn.trans (congrArg (· + 1) place))

section Activations

variable {limits : Limits} {first : State}

/-- Whenever an activation's own frame is about to go on, it is at some stage. -/
theorem Reached.of_activation (layered : splice.Layered entry start) (atReturns : splice.AtReturns)
    (activation : Activation program limits first visited state)
    (woven : first.active.body.instructions = splice.woven.instructions) (begins : first.active.position = 0)
    (own : state.depth = first.depth) : splice.Reached program entry start visited state.active := by
  have nothing (ret : Nat) : ¬splice.Landed program [] ret := by
    rintro ⟨_, member, -⟩
    cases member
  have entered : splice.Reached program entry start [] first.active := by
    refine ⟨woven, 0, 0, begins.trans layered.first.symm, Nat.zero_le _, Nat.zero_le _, ?_⟩
    exact .before rfl (fun ret _ => nothing ret) (fun ret _ within => Nat.not_lt_zero _ within.1) (Nat.zero_le _)
  have kept := activation.own_frame (splice.Reached program entry start)
    (fun visited _ frame => ∀ resumed : Frame, resumed.body = frame.body → resumed.position = frame.position + 1 →
      splice.Reached program entry start visited resumed)
    (fun _ _ frame same agree waits resumed body place => by
      obtain ⟨sameBody, samePlace, -⟩ := Frame.kept_of_outline agree
      exact waits resumed (body.trans sameBody) (place.trans (congrArg (· + 1) samePlace)))
    entered
    (fun _ _ _ reached stepped same => (reached.step layered atReturns stepped).1 same)
    (fun _ _ _ frame callers reached stepped waits deeper =>
      (reached.step layered atReturns stepped).2 frame callers waits deeper)
    (fun _ completion frame value waits => by
      obtain ⟨body, place, -⟩ := frame.resume_place completion value
      exact waits _ body place)
  rwa [if_pos own] at kept

/-- In each activation that comes to a return, the callback was called once, unless a jump has gone past it. -/
theorem Layered.calls_once (layered : splice.Layered entry start) (atReturns : splice.AtReturns)
    (activation : Activation program limits first visited state)
    (woven : first.active.body.instructions = splice.woven.instructions) (begins : first.active.position = 0)
    (own : state.depth = first.depth) (here : state.active.instruction? = some instruction)
    (returns : instruction.opcode = .ret) :
    ∃ ret ∈ splice.original.returnPositions, splice.original.idAt? ret = some instruction.id ∧
      (splice.Landed program visited ret → visited.countP splice.callsBack = 0) ∧
      (¬splice.Landed program visited ret → visited.countP splice.callsBack = 1) := by
  obtain ⟨same, position, offset, there, bound, within, stage⟩ :=
    Reached.of_activation layered atReturns activation woven begins own
  have held : splice.woven.instructions[start position + offset]? = some instruction := by
    rw [← same, ← there]
    exact here
  rcases layered.standing atReturns bound within held with ⟨-, -, -, other, -⟩ | ⟨rfl, last, found, -, widens, -⟩
  · exact absurd returns other
  · have ends : position ∈ splice.original.returnPositions :=
      Body.mem_returnPositions.mpr ⟨last, found, widens.ret_iff.mp returns⟩
    have self := Body.splicePosition_le splice.original position
    refine ⟨position, ends, ?_, ?_⟩
    · rw [Body.idAt?, found]
      exact congrArg some widens.id.symm
    · cases stage with
      | before _ _ outside due =>
          rcases Nat.lt_or_eq_of_le self with less | begins
          · exact absurd ⟨less, Nat.le_refl _⟩ (outside position ends)
          · have inside := (Array.getElem?_eq_some_iff.mp found).1
            exact absurd due (Nat.not_le.mpr (atReturns.length_code entry ends begins inside))
      | behind ret member called never within _ =>
          cases Body.same_return ends member ⟨self, Nat.le_refl _⟩ within
          exact ⟨fun landed => absurd landed (never position ends), fun _ => called⟩
      | landed ret member uncalled landed within =>
          cases Body.same_return ends member ⟨self, Nat.le_refl _⟩ ⟨Nat.le_of_lt within.1, within.2⟩
          exact ⟨fun _ => uncalled, fun never => absurd landed never⟩

/-- What is counted as an injected call calls the method that the callback's reference stands for. -/
theorem Layered.calls_callback (layered : splice.Layered entry start) (atReturns : splice.AtReturns)
    {host : TypeDef} {callback : MethodDef} (resolved : program.method? splice.site.callback = some (host, callback))
    (defined : ∀ args, Action.builtin? program splice.site.callback args = pure none)
    (activation : Activation program limits first visited state)
    (woven : first.active.body.instructions = splice.woven.instructions) (begins : first.active.position = 0)
    {called : State} (member : called ∈ visited) (calls : splice.callsBack called = true) :
    ∃ instruction args completion after, called.active.instruction? = some instruction ∧
      (execute program instruction).run.run called.count = (.ok (.call ⟨host, callback, args, completion⟩), after) := by
  obtain ⟨earlier, next, before, own, stepped⟩ := activation.went_on member
  obtain ⟨same, position, offset, there, bound, within, -⟩ :=
    Reached.of_activation layered atReturns before woven begins own
  obtain ⟨instruction, control, after, here, ran, -, -⟩ := step_running stepped
  obtain ⟨opcode, foreign⟩ := (callsBack_iff here).mp calls
  have held : splice.woven.instructions[start position + offset]? = some instruction := by
    rw [← same, ← there]
    exact here
  rcases layered.standing atReturns bound within held with ⟨-, -, -, -, -, method, -⟩ | ⟨-, -, -, -, -, known⟩
  · obtain ⟨args, completion, rfl⟩ := execute_callback resolved defined opcode (method opcode) ran
    exact ⟨instruction, args, completion, after, here, ran⟩
  · exact absurd known foreign

end Activations

end Step

end Splice

namespace Injection

variable {injection : Injection}

theorem atReturns (plain : injection.descriptor.cancellable = false) (returning : injection.descriptor.location = .return)
    (valid : injection.body.validate = .ok ()) : injection.splice.AtReturns := by
  obtain ⟨distinct, sound⟩ := Body.validate_ok valid
  refine ⟨injection.no_slot plain, ?_, distinct, fun own member => (sound own member).1,
    fun own member => (sound own member).2⟩
  show injection.body.locate injection.descriptor.location = injection.original.locate .return
  have same (position : Nat) : injection.original.spliceId? position = injection.body.spliceId? position :=
    congrArg injection.body.idAt? (Body.splicePosition_congr
      (show injection.original.instructions = injection.body.instructions from rfl) position)
  rw [returning, Body.locate, Body.locate, funext same]
  rfl

end Injection

/-- With a callback injected in front of returns with identities that have lasted for it, each activation of the
woven method that comes to a return has called the callback once, unless it jumped past the call into the code
that pushes the value for the return: then it has not called it at all. -/
theorem MixinEngine.return_injection_calls_once {engine : MixinEngine} {target woven : Module} {mixin : MixinDescriptor}
    {assemblies known : Assemblies} {applied : AppliedMixin}
    (accepted : engine.apply target mixin assemblies = (.ok (applied, woven), known)) {injection : Injection}
    (injects : engine.Injects target mixin assemblies injection) (plain : injection.descriptor.cancellable = false)
    (returning : injection.descriptor.location = .return) (valid : injection.body.validate = .ok ())
    (fresh : injection.body.Fresh) (spare : injection.woven.Spare) {program : Program} {others : List Module}
    (modules : program.modules = woven :: others)
    (ordinary : program.carrierKind? injection.context.targetSig = none) {limits : Limits} {call : Call} {body : Body}
    (defined : call.method.body = some body) (same : body.instructions = injection.woven.instructions) {depth : Nat}
    {caller : String} {first state : State} (entered : enterFrame limits depth caller call = .ok first.active)
    {visited : List State} (activation : Activation program limits first visited state)
    (own : state.depth = first.depth) {last : Instruction} (here : state.active.instruction? = some last)
    (returns : last.opcode = .ret) :
    ∃ host callback, program.method? injection.site.callback = some (host, callback) ∧
      injection.callback.Alike callback ∧ host.methods[injection.before.type.methods.length]? = some callback ∧
      (∀ called ∈ visited, injection.splice.callsBack called = true →
        ∃ instruction args completion after, called.active.instruction? = some instruction ∧
          (execute program instruction).run.run called.count =
            (.ok (.call ⟨host, callback, args, completion⟩), after)) ∧
      ∃ ret ∈ injection.body.returnPositions, injection.body.idAt? ret = some last.id ∧
        (injection.splice.Landed program visited ret → visited.countP injection.splice.callsBack = 0) ∧
        (¬injection.splice.Landed program visited ret → visited.countP injection.splice.callsBack = 1) := by
  obtain ⟨host, callback, resolved, alike, -, held⟩ := injection.resolves (injects.hosted accepted) modules
  obtain ⟨-, entry, start, layered⟩ := injection.layered (Body.validate_ok valid).1 (injection.supplies fresh spare)
  have placed := injection.atReturns plain returning valid
  obtain ⟨callee, has, -, made⟩ := enterFrame_ok entered
  cases Option.some.inj (defined.symm.trans has)
  have instructions : first.active.body.instructions = injection.splice.woven.instructions := by rw [made]; exact same
  have begins : first.active.position = 0 := by rw [made]
  refine ⟨host, callback, resolved, alike, held, fun called member calls => ?_, ?_⟩
  · exact layered.calls_callback placed resolved (injection.not_builtin ordinary) activation instructions begins
      member calls
  · exact layered.calls_once placed activation instructions begins own here returns

namespace Truth

def first (value : Int32) : State :=
  ⟨Store.empty.enter (call value), (enterFrame .standard 0 "" (call value)).toOption.getD default, []⟩

/-- Zero's branch lands behind the call, so the method returns without having called the callback. -/
theorem notice_left_out :
    engine.apply target mixin .empty = (.ok (after.applied, woven), .empty) ∧
      engine.Injects target mixin .empty injection ∧ injection.descriptor.cancellable = false ∧
      injection.descriptor.location = .return ∧ injection.body.validate = .ok () ∧
      injection.target.maxDepth = .ok 1 ∧ program.modules = [woven] ∧ (call 0).method.body = some injection.woven ∧
      enterFrame .standard 0 "" (call 0) = .ok (first 0).active ∧
      (∃ visited last, Activation program .standard (first 0) visited last ∧ last.depth = (first 0).depth ∧
        last.active.instruction? = some ⟨5, .ret, .none⟩ ∧ visited.countP injection.splice.callsBack = 0) ∧
      (Store.empty.call program .standard (call 0)).1.toOption == some (.int32 0) := by
  have walked : (walk? program .standard 0 4 [] (first 0)).any (fun (visited, last) =>
      decide (last.depth = 0 ∧ last.active.instruction? = some ⟨5, .ret, .none⟩ ∧
        visited.countP injection.splice.callsBack = 0)) = true := by decide +kernel
  obtain ⟨⟨visited, last⟩, walked, holds⟩ := (Option.any_eq_true _ _).mp walked
  obtain ⟨own, here, never⟩ := of_decide_eq_true holds
  have returned : (Store.empty.call program .standard (call 0)).1.toOption == some (.int32 0) := by decide +kernel
  have entered : enterFrame .standard 0 "" (call 0) = .ok (first 0).active := ok_of_isOk default (by decide +kernel)
  exact ⟨accepted, injects, rfl, rfl, rfl, rfl, rfl, rfl, entered,
    ⟨visited, last, Activation.enter.walk walked, own, here, never⟩, returned⟩

/-- The branch of a number other than zero lands in front of the call. -/
theorem notice_once :
    injection.woven.Spare ∧ ∃ visited last, Activation program .standard (first 1) visited last ∧
      last.active.instruction? = some ⟨5, .ret, .none⟩ ∧ visited.countP injection.splice.callsBack = 1 ∧
      ∃ host callback, program.method? injection.site.callback = some (host, callback) ∧
        injection.callback.Alike callback ∧ ∃ ret ∈ injection.body.returnPositions,
          injection.body.idAt? ret = some 5 ∧ ¬injection.splice.Landed program visited ret := by
  have walked : (walk? program .standard 0 6 [] (first 1)).any (fun (visited, last) =>
      decide (last.depth = 0 ∧ last.active.instruction? = some ⟨5, .ret, .none⟩ ∧
        visited.countP injection.splice.callsBack = 1)) = true := by decide +kernel
  obtain ⟨⟨visited, last⟩, walked, holds⟩ := (Option.any_eq_true _ _).mp walked
  obtain ⟨own, here, once⟩ := of_decide_eq_true holds
  have entered : enterFrame .standard 0 "" (call 1) = .ok (first 1).active := ok_of_isOk default (by decide +kernel)
  have activation : Activation program .standard (first 1) visited last := Activation.enter.walk walked
  have spare : injection.woven.Spare := by decide +kernel
  have modules : program.modules = [woven] := rfl
  have ordinary : program.carrierKind? injection.context.targetSig = none := by decide +kernel
  obtain ⟨host, callback, resolved, alike, -, -, ret, member, found, landed, -⟩ :=
    MixinEngine.return_injection_calls_once accepted injects rfl rfl rfl (.inl rfl) spare modules ordinary
      rfl rfl entered activation own here rfl
  refine ⟨spare, visited, last, activation, here, once, host, callback, resolved, alike, ret, member, found, fun past => ?_⟩
  rw [landed past] at once
  cases once

/-- A branch to the first of two returns. They have the last two identities. -/
def crowded : MethodDef :=
  { test with
    returns := .void
    params := []
    body := some ⟨8, true, #[],
      #[⟨0, .brS, .target 4294967294⟩, ⟨4294967294, .ret, .none⟩, ⟨4294967295, .ret, .none⟩], 0⟩ }

/-- What that method becomes when it is to call back in front of both returns. -/
def crowdedWoven : Option Body := do
  let silent : MixinContext :=
    { context with mixinDef := { mixinType with methods := [{ notice with params := [] }] } }
  let woven ← (silent.applyInject ⟨0, "notice", "System.Void T::Test()", .return, false, .return, 2, []⟩
    { before with type := { type with methods := [crowded] } }).toOption
  (← woven.type.methods.head?).body

-- The calls take the last identity as well, and the branch that should go to the first of them goes to the last return.
example : crowdedWoven.any (fun body =>
    body.instructions[0]? = some ⟨0, .brS, .target 4294967295⟩ ∧ body.target? 4294967295 = some 4 ∧
      body.instructions[4]? = some ⟨4294967295, .ret, .none⟩) = true := by
  decide +kernel

end Truth

end CilWeave
