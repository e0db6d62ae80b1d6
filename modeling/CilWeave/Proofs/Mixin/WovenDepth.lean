import CilWeave.Proofs.Mixin.Carriers
import CilWeave.Proofs.Mixin.WovenBodies
import CilWeave.Proofs.Signature.Names
import CilWeave.Proofs.StackDepth.Consistency

/-!
Stack depths of woven bodies. The code of a call loads its values on top of what the stack holds, and takes
them off again, so every instruction of the original body keeps its depth and the code in front of it has
the depths in between.
-/

namespace CilWeave

/-- The local that a source reads. -/
def Source.slot? : Source → Option UInt16
  | .slot index | .slotAddress index => some index
  | _ => none

/-- The argument that a source reads. -/
def Source.argument? : Source → Option UInt16
  | .argument index => some index
  | _ => none

/-- What an instruction that goes on to the next one does to the stack. -/
structure Instruction.Uses (instruction : Instruction) (pops pushes : Nat) : Prop where
  pops : instruction.pops = pops
  pushes : instruction.pushes = pushes
  falls : instruction.fallsThrough = true
  targets : instruction.targets = []

/-- An instruction that puts what a source holds on the stack. -/
structure Source.Loads (source : Source) (instruction : Instruction) : Prop extends instruction.Uses 0 1 where
  slot : instruction.local? = source.slot?
  argument : instruction.argument? = source.argument?

theorem Source.draft_loads (source : Source) (id : InstrId) : source.Loads (source.draft.withId id) := by
  cases source with
  | argument index =>
      refine Draft.indexed_cases (motive := fun draft => Loads (.argument index) (draft.withId id))
        ⟨⟨⟨rfl, rfl, rfl, rfl⟩, rfl, rfl⟩, ⟨⟨rfl, rfl, rfl, rfl⟩, rfl, rfl⟩⟩ (Nat.le_refl 4) ?_ ?_ ?_ ?_
      all_goals
        intro opcode found same
        cases found
        subst same
        exact ⟨⟨rfl, rfl, rfl, rfl⟩, rfl, rfl⟩
  | slot index =>
      refine Draft.indexed_cases (motive := fun draft => Loads (.slot index) (draft.withId id))
        ⟨⟨⟨rfl, rfl, rfl, rfl⟩, rfl, rfl⟩, ⟨⟨rfl, rfl, rfl, rfl⟩, rfl, rfl⟩⟩ (Nat.le_refl 4) ?_ ?_ ?_ ?_
      all_goals
        intro opcode found same
        cases found
        subst same
        exact ⟨⟨rfl, rfl, rfl, rfl⟩, rfl, rfl⟩
  | slotAddress index =>
      refine Draft.indexed_cases (motive := fun draft => Loads (.slotAddress index) (draft.withId id))
        ⟨⟨⟨rfl, rfl, rfl, rfl⟩, rfl, rfl⟩, ⟨⟨rfl, rfl, rfl, rfl⟩, rfl, rfl⟩⟩ (Nat.zero_le 4) ?_ ?_ ?_ ?_
      all_goals
        intro opcode found
        cases found
  | nothing => exact ⟨⟨rfl, rfl, rfl, rfl⟩, rfl, rfl⟩

namespace CallbackSite

variable (site : CallbackSite)

/-- How many values of a call's code are on the stack before one of its instructions. -/
def level (offset : Nat) : Nat :=
  if offset ≤ site.sources.length then offset
  else if offset = site.sources.length + 1 then (!site.callback.returns.isVoid).toNat
  else 0

/-- How many values of a call's code are on the stack at most. -/
def room : Nat := max site.sources.length (!site.callback.returns.isVoid).toNat

theorem level_zero : site.level 0 = 0 := by simp [level]

theorem level_sources : site.level site.sources.length = site.sources.length := if_pos (Nat.le_refl _)

theorem level_called : site.level (site.sources.length + 1) = (!site.callback.returns.isVoid).toNat := by
  rw [level, if_neg (Nat.not_succ_le_self _), if_pos rfl]

theorem level_dropped : site.level (site.sources.length + 1 + 1) = 0 := by
  rw [level, if_neg (by omega), if_neg (by omega)]

theorem level_le (offset : Nat) : site.level offset ≤ site.room := by
  unfold level room
  split
  · omega
  · split <;> omega

theorem length_callDrafts :
    site.callDrafts.length = site.sources.length + 1 + (!site.callback.returns.isVoid).toNat := by
  unfold callDrafts
  cases site.callback.returns.isVoid <;> simp

theorem level_length : site.level site.callDrafts.length = 0 := by
  rw [length_callDrafts]
  cases returns : site.callback.returns.isVoid with
  | true => simpa [returns] using site.level_called
  | false => exact site.level_dropped

/-- The call takes what was loaded for it. -/
def Fills : Prop := site.callback.params.length + site.callback.hasThis.toNat = site.sources.length

variable {site} {offset : Nat} {draft : Draft}

/-- Each instruction of a call's code takes from the stack what the ones before it left there. -/
theorem callDrafts_uses (fills : site.Fills) (held : site.callDrafts[offset]? = some draft) (id : InstrId) :
    ∃ pops pushes, (draft.withId id).Uses pops pushes ∧ pops ≤ site.level offset ∧
      site.level offset - pops + pushes = site.level (offset + 1) ∧
      ∀ index, ((draft.withId id).local? = some index → ∃ source ∈ site.sources, source.slot? = some index) ∧
        ((draft.withId id).argument? = some index → ∃ source ∈ site.sources, source.argument? = some index) := by
  unfold callDrafts at held
  rw [List.append_assoc] at held
  rcases Nat.lt_trichotomy offset site.sources.length with before | rfl | behind
  · rw [List.getElem?_append_left (by simpa using before), List.getElem?_map] at held
    obtain ⟨source, listed, rfl⟩ := Option.map_eq_some_iff.mp held
    obtain ⟨uses, slot, argument⟩ := source.draft_loads id
    have member := List.mem_of_getElem? listed
    refine ⟨0, 1, uses, Nat.zero_le _, ?_, fun index => ⟨fun own => ⟨source, member, slot ▸ own⟩,
      fun own => ⟨source, member, argument ▸ own⟩⟩⟩
    rw [level, if_pos (Nat.le_of_lt before), level, if_pos (Nat.succ_le_of_lt before), Nat.sub_zero]
  · rw [List.getElem?_append_right (by simp), List.length_map, Nat.sub_self] at held
    cases held
    refine ⟨site.sources.length, (!site.callback.returns.isVoid).toNat, ⟨fills, rfl, rfl, rfl⟩, ?_, ?_,
      fun index => ⟨fun own => (Option.some_ne_none index own.symm).elim,
        fun own => (Option.some_ne_none index own.symm).elim⟩⟩
    · exact Nat.le_of_eq site.level_sources.symm
    · rw [site.level_sources, site.level_called, Nat.sub_self, Nat.zero_add]
  · obtain ⟨rest, rfl⟩ : ∃ rest, offset = site.sources.length + 1 + rest := ⟨_, (Nat.add_sub_of_le behind).symm⟩
    rw [List.getElem?_append_right (by simp; omega), List.length_map,
      show site.sources.length + 1 + rest - site.sources.length = rest + 1 from by omega, List.singleton_append,
      List.getElem?_cons_succ] at held
    cases returns : site.callback.returns.isVoid with
    | true => simp [returns] at held
    | false =>
        rw [returns] at held
        cases rest with
        | succ rest => cases held
        | zero =>
            cases held
            have called : site.level (site.sources.length + 1) = 1 := by rw [site.level_called, returns]; rfl
            refine ⟨1, 0, ⟨rfl, rfl, rfl, rfl⟩, Nat.le_of_eq called.symm, ?_,
              fun index => ⟨fun own => (Option.some_ne_none index own.symm).elim,
                fun own => (Option.some_ne_none index own.symm).elim⟩⟩
            rw [Nat.add_zero, called, site.level_dropped]

end CallbackSite

namespace Splice

variable {splice : Splice} {entry : InstrId → InstrId} {start : Nat → Nat} {position offset place depth : Nat}

/-- Without a carrier, the code of a place is that of a call. -/
theorem code_call (plain : splice.site.carrier = none) (entry : InstrId → InstrId) (position : Nat) :
    splice.code entry position = [] ∨ ∃ ids, splice.code entry position = numbered ids splice.site.callDrafts := by
  unfold code
  split
  · rename_i id _
    split
    · refine .inr ⟨counting (entry id), ?_⟩
      simp [CallbackSite.codeAt, CallbackSite.codeBy, CallbackSite.drafts, CallbackSite.carrierDrafts,
        CallbackSite.askDrafts, plain]
    · exact .inl rfl
  · exact .inl rfl

/-- Just the places have code in front of them. -/
theorem code_ne_nil : splice.code entry position ≠ [] ↔
    ∃ id, splice.original.idAt? position = some id ∧ id ∈ splice.points := by
  unfold code
  cases splice.original.idAt? position with
  | none => simp
  | some id =>
      by_cases point : id ∈ splice.points
      · obtain ⟨first, held, -⟩ := splice.site.codeAt_head splice.cancel (entry id)
        have some := List.ne_nil_of_mem (List.mem_of_getElem? held)
        simp [point, some]
      · simp [point]

/-- What holds in the splice of a call that takes the target's arguments and locals. -/
structure Fits (splice : Splice) (argumentCount : Nat) : Prop where
  plain : splice.site.carrier = none
  fills : splice.site.Fills
  locals : splice.woven.locals = splice.original.locals
  arguments : ∀ source ∈ splice.site.sources, ∀ index, source.argument? = some index → index.toNat < argumentCount
  slots : ∀ source ∈ splice.site.sources, ∀ index, source.slot? = some index →
    index.toNat < splice.original.locals.size

variable {argumentCount : Nat} {returnsValue : Bool}

theorem Fits.level_code (fits : splice.Fits argumentCount) (entry : InstrId → InstrId) (position : Nat) :
    splice.site.level (splice.code entry position).length = 0 := by
  rcases splice.code_call fits.plain entry position with none | ⟨ids, some⟩
  · rw [none]
    exact splice.site.level_zero
  · rw [some, length_numbered]
    exact splice.site.level_length

namespace Layered

theorem start_lt (layered : splice.Layered entry start) {later : Nat} (less : position < later)
    (inside : later ≤ splice.original.instructions.size) :
    start position + (splice.code entry position).length < start later := by
  induction later with
  | zero => exact absurd less (Nat.not_lt_zero _)
  | succ later ih =>
      have next := layered.next later inside
      rcases Nat.lt_or_eq_of_le (Nat.le_of_lt_succ less) with before | rfl
      · have earlier := ih before (Nat.le_of_lt inside)
        omega
      · omega

/-- Blocks do not overlap. -/
theorem block_unique (layered : splice.Layered entry start) {other otherOffset : Nat}
    (inside : position < splice.original.instructions.size) (otherInside : other < splice.original.instructions.size)
    (within : offset ≤ (splice.code entry position).length) (otherWithin : otherOffset ≤ (splice.code entry other).length)
    (same : start position + offset = start other + otherOffset) : position = other ∧ offset = otherOffset := by
  rcases Nat.lt_trichotomy position other with less | rfl | less
  · have apart := layered.start_lt less (Nat.le_of_lt otherInside)
    omega
  · exact ⟨rfl, by omega⟩
  · have apart := layered.start_lt less (Nat.le_of_lt inside)
    omega

end Layered

/-- The context of the body before the splice. -/
abbrev before (splice : Splice) (argumentCount : Nat) (returnsValue : Bool) : StackContext :=
  ⟨splice.original, argumentCount, returnsValue⟩

/-- The context of the body after it. -/
abbrev after (splice : Splice) (argumentCount : Nat) (returnsValue : Bool) : StackContext :=
  ⟨splice.woven, argumentCount, returnsValue⟩

/-- Where the instructions of a block lead, with the depths they bring there. -/
inductive Block (splice : Splice) (entry : InstrId → InstrId) (start : Nat → Nat) (argumentCount : Nat)
    (returnsValue : Bool) (position depth offset : Nat) (wide : Instruction) : Prop
  | code : offset < (splice.code entry position).length →
      (splice.after argumentCount returnsValue).Usable (start position + offset) (depth + splice.site.level offset) wide →
      (∀ next, (splice.after argumentCount returnsValue).Leads (start position + offset) wide next ↔
        next = start position + (offset + 1)) →
      (splice.after argumentCount returnsValue).depthAfter wide (depth + splice.site.level offset) =
        depth + splice.site.level (offset + 1) →
      Block splice entry start argumentCount returnsValue position depth offset wide
  | own {instruction : Instruction} : offset = (splice.code entry position).length →
      splice.original.instructions[position]? = some instruction →
      (splice.after argumentCount returnsValue).Usable (start position + offset) depth wide →
      (∀ next, (splice.after argumentCount returnsValue).Leads (start position + offset) wide next ↔
        ∃ goal, (splice.before argumentCount returnsValue).Leads position instruction goal ∧ next = start goal) →
      (splice.after argumentCount returnsValue).depthAfter wide depth =
        (splice.before argumentCount returnsValue).depthAfter instruction depth →
      Block splice entry start argumentCount returnsValue position depth offset wide

variable {instruction : Instruction}

theorem Fits.sameRoom (fits : splice.Fits argumentCount) :
    (splice.before argumentCount returnsValue).SameRoom (splice.after argumentCount returnsValue) :=
  ⟨rfl, rfl, congrArg Array.size fits.locals⟩

/-- The code in front of an instruction may be used at the depths at which it is reached. -/
theorem Layered.injectedBlock (layered : splice.Layered entry start) (fits : splice.Fits argumentCount)
    (inside : position < splice.original.instructions.size) (less : offset < (splice.code entry position).length) :
    ∃ wide, splice.woven.instructions[start position + offset]? = some wide ∧
      Block splice entry start argumentCount returnsValue position depth offset wide := by
  have next := layered.next position inside
  have last : start (position + 1) ≤ splice.woven.instructions.size := by
    rw [← layered.last]
    rcases Nat.lt_or_eq_of_le (Nat.succ_le_of_lt inside) with before | same
    · exact Nat.le_of_lt (Nat.lt_of_le_of_lt (Nat.le_add_right _ _) (layered.start_lt before (Nat.le_refl _)))
    · exact Nat.le_of_eq (congrArg start same)
  obtain ⟨narrow, held⟩ : ∃ narrow, (splice.code entry position)[offset]? = some narrow :=
    ⟨_, List.getElem?_eq_getElem less⟩
  obtain ⟨-, wide, placed, widens⟩ := layered.injected position offset narrow held
  refine ⟨wide, placed, ?_⟩
  rcases splice.code_call fits.plain entry position with none | ⟨ids, some⟩
  · simp [none] at less
  · rw [some, getElem?_numbered] at held
    obtain ⟨draft, drafted, rfl⟩ := Option.map_eq_some_iff.mp held
    obtain ⟨pops, pushes, uses, covered, left, reads⟩ := CallbackSite.callDrafts_uses fits.fills drafted (ids offset)
    have like := widens.resembles
    have targets : wide.targets = [] := widens.targets.trans uses.targets
    have other : wide.opcode ≠ .ret := by
      rw [Ne, like.returns]
      exact Machine.fallsThrough_ne_ret uses.falls
    have taken : (splice.after argumentCount returnsValue).pops wide = pops := by
      rw [StackContext.pops, if_neg other, like.pops]
      exact uses.pops
    refine .code less ⟨?_, ?_, ?_, ?_, ?_, ?_⟩ ?_ ?_
    · intro index slot
      obtain ⟨source, member, reads⟩ := (reads index).1 (like.slot ▸ slot)
      show index.toNat < splice.woven.locals.size
      rw [fits.locals]
      exact fits.slots source member index reads
    · intro index argument
      obtain ⟨source, member, reads⟩ := (reads index).2 (like.argument ▸ argument)
      exact fits.arguments source member index reads
    · rw [taken]
      omega
    · exact fun returns => absurd returns other
    · simp [targets]
    · exact fun _ => Nat.lt_of_lt_of_le (by omega) last
    · intro goal
      simp only [StackContext.Leads, targets, List.not_mem_nil, false_and, exists_false, false_or, like.falls,
        show ((⟨ids offset, draft.opcode, draft.operand⟩ : Instruction).fallsThrough) = true from uses.falls, true_and,
        Nat.add_assoc]
    · rw [StackContext.depthAfter, taken, like.pushes]
      have pushed : (⟨ids offset, draft.opcode, draft.operand⟩ : Instruction).pushes = pushes := uses.pushes
      omega

/-- A redirected instruction leads to the blocks of the positions that the instruction leads to. -/
theorem Layered.leads_own {wide : Instruction} (layered : splice.Layered entry start)
    (inside : position < splice.original.instructions.size)
    (usable : (splice.before argumentCount returnsValue).Usable position depth instruction)
    (falls : wide.fallsThrough = instruction.fallsThrough) (targets : wide.targets = instruction.targets.map entry)
    (goal : Nat) :
    (splice.after argumentCount returnsValue).Leads (start position + (splice.code entry position).length) wide goal ↔
      ∃ own, (splice.before argumentCount returnsValue).Leads position instruction own ∧ goal = start own := by
  have next := layered.next position inside
  constructor
  · rintro (⟨target, listed, goes⟩ | ⟨through, rfl⟩)
    · rw [targets] at listed
      obtain ⟨old, member, rfl⟩ := List.mem_map.mp listed
      obtain ⟨own, there⟩ := usable.targets old member
      exact ⟨own, .inl ⟨old, member, there⟩, Option.some.inj (goes.symm.trans (layered.enter old own there))⟩
    · exact ⟨position + 1, .inr ⟨falls ▸ through, rfl⟩, next.symm⟩
  · rintro ⟨own, ⟨old, member, there⟩ | ⟨through, rfl⟩, rfl⟩
    · exact .inl ⟨entry old, targets ▸ List.mem_map_of_mem member, layered.enter old own there⟩
    · exact .inr ⟨falls.trans through, next⟩

/-- The instruction behind the code of its position may be used as before. -/
theorem Layered.ownBlock (layered : splice.Layered entry start) (fits : splice.Fits argumentCount)
    (found : splice.original.instructions[position]? = some instruction)
    (usable : (splice.before argumentCount returnsValue).Usable position depth instruction) :
    ∃ wide, splice.woven.instructions[start position + (splice.code entry position).length]? = some wide ∧
      Block splice entry start argumentCount returnsValue position depth (splice.code entry position).length wide := by
  have inside := (Array.getElem?_eq_some_iff.mp found).1
  obtain ⟨wide, placed, widens⟩ := layered.own position instruction found
  have like := (instruction.redirect_resembles entry).trans widens.resembles
  have targets : wide.targets = instruction.targets.map entry :=
    widens.targets.trans (Operand.targets_mapTargets instruction.operand entry)
  have leads := layered.leads_own inside usable like.falls targets
  refine ⟨wide, placed, .own rfl found (fits.sameRoom.usable like usable ?_ ?_) leads (fits.sameRoom.depthAfter like depth)⟩
  · intro target listed
    rw [targets] at listed
    obtain ⟨old, member, rfl⟩ := List.mem_map.mp listed
    obtain ⟨own, there⟩ := usable.targets old member
    exact ⟨start own, layered.enter old own there⟩
  · intro falls
    have more := usable.falls (like.falls ▸ falls)
    have next := layered.next position inside
    have end_ := layered.start_lt more (Nat.le_refl _)
    rw [layered.last] at end_
    show start position + (splice.code entry position).length + 1 < splice.woven.instructions.size
    omega

/-- Each instruction of a block may be used at its depth. -/
theorem Layered.block (layered : splice.Layered entry start) (fits : splice.Fits argumentCount)
    (found : splice.original.instructions[position]? = some instruction)
    (usable : (splice.before argumentCount returnsValue).Usable position depth instruction)
    (within : offset ≤ (splice.code entry position).length) :
    ∃ wide, splice.woven.instructions[start position + offset]? = some wide ∧
      Block splice entry start argumentCount returnsValue position depth offset wide := by
  rcases Nat.lt_or_eq_of_le within with less | rfl
  · exact layered.injectedBlock fits (Array.getElem?_eq_some_iff.mp found).1 less
  · exact layered.ownBlock fits found usable

/-- Control comes to a woven body's positions with the depths of their blocks. -/
theorem Layered.of_reaches (layered : splice.Layered entry start) (fits : splice.Fits argumentCount)
    (consistent : (splice.before argumentCount returnsValue).Consistent)
    (reaches : (splice.after argumentCount returnsValue).Reaches place depth) :
    ∃ position held offset, (splice.before argumentCount returnsValue).Reaches position held ∧
      offset ≤ (splice.code entry position).length ∧ place = start position + offset ∧
      depth = held + splice.site.level offset := by
  refine StackContext.reaches_induction (motive := fun place depth => ∃ position held offset,
    (splice.before argumentCount returnsValue).Reaches position held ∧ offset ≤ (splice.code entry position).length ∧
      place = start position + offset ∧ depth = held + splice.site.level offset) ?_ ?_ reaches
  · refine ⟨0, 0, 0, .entry, Nat.zero_le _, layered.first.symm, ?_⟩
    rw [splice.site.level_zero]
  · rintro place depth wide next - ⟨position, held, offset, there, within, rfl, rfl⟩ found leads
    obtain ⟨instruction, listed, usable⟩ := consistent.usable position held there
    obtain ⟨same, placed, block⟩ := layered.block fits listed usable within
    cases found.symm.trans placed
    cases block with
    | code less _ goes left =>
        exact ⟨position, held, offset + 1, there, less, (goes next).mp leads, left⟩
    | own behind own _ goes left =>
        cases listed.symm.trans own
        obtain ⟨goal, onward, rfl⟩ := (goes next).mp leads
        refine ⟨goal, _, 0, there.leads listed usable onward, Nat.zero_le _, rfl, ?_⟩
        rw [splice.site.level_zero, behind, fits.level_code, Nat.add_zero, left, Nat.add_zero]

/-- Depths stay consistent when calls are spliced in. -/
theorem Layered.consistent (layered : splice.Layered entry start) (fits : splice.Fits argumentCount)
    (consistent : (splice.before argumentCount returnsValue).Consistent) :
    (splice.after argumentCount returnsValue).Consistent := by
  have inside {position held : Nat} (there : (splice.before argumentCount returnsValue).Reaches position held) :
      position < splice.original.instructions.size := by
    obtain ⟨instruction, listed, -⟩ := consistent.usable position held there
    exact (Array.getElem?_eq_some_iff.mp listed).1
  refine ⟨?_, fun place depth reaches => ?_, fun place depth other one same => ?_⟩
  · have some := layered.start_lt consistent.nonempty (Nat.le_refl _)
    rw [layered.last] at some
    exact Nat.lt_of_le_of_lt (Nat.zero_le _) some
  · obtain ⟨position, held, offset, there, within, rfl, rfl⟩ := layered.of_reaches fits consistent reaches
    obtain ⟨instruction, listed, usable⟩ := consistent.usable position held there
    obtain ⟨wide, placed, block⟩ := layered.block fits listed usable within
    refine ⟨wide, placed, ?_⟩
    cases block with
    | code _ usable _ _ => exact usable
    | own behind _ usable _ _ =>
        subst behind
        rwa [fits.level_code, Nat.add_zero]
  · obtain ⟨position, held, offset, there, within, rfl, rfl⟩ := layered.of_reaches fits consistent one
    obtain ⟨position', held', offset', there', within', place, rfl⟩ := layered.of_reaches fits consistent same
    obtain ⟨rfl, rfl⟩ := layered.block_unique (inside there) (inside there') within within' place
    rw [consistent.unique position held held' there there']

/-- Control goes through the whole block of each instruction that it reached in the original body. -/
theorem Layered.reaches (layered : splice.Layered entry start) (fits : splice.Fits argumentCount)
    (consistent : (splice.before argumentCount returnsValue).Consistent)
    (reaches : (splice.before argumentCount returnsValue).Reaches position depth)
    (within : offset ≤ (splice.code entry position).length) :
    (splice.after argumentCount returnsValue).Reaches (start position + offset) (depth + splice.site.level offset) := by
  have through {position depth offset : Nat} (there : (splice.before argumentCount returnsValue).Reaches position depth)
      (enters : (splice.after argumentCount returnsValue).Reaches (start position) depth)
      (within : offset ≤ (splice.code entry position).length) :
      (splice.after argumentCount returnsValue).Reaches (start position + offset) (depth + splice.site.level offset) := by
    obtain ⟨instruction, listed, usable⟩ := consistent.usable position depth there
    induction offset with
    | zero =>
        rw [splice.site.level_zero]
        exact enters
    | succ offset ih =>
        obtain ⟨wide, placed, block⟩ := layered.block fits listed usable (Nat.le_of_succ_le within)
        cases block with
        | code _ used goes left => exact left ▸ (ih (Nat.le_of_succ_le within)).leads placed used ((goes _).mpr rfl)
        | own behind _ _ _ _ => exact absurd within (by omega)
  refine through reaches ?_ within
  refine StackContext.reaches_induction (motive := fun position depth =>
    (splice.after argumentCount returnsValue).Reaches (start position) depth) ?_ ?_ reaches
  · rw [layered.first]
    exact .entry
  · intro position depth instruction next there enters listed leads
    obtain ⟨same, found, usable⟩ := consistent.usable position depth there
    cases listed.symm.trans found
    have last := through there enters (Nat.le_refl _)
    obtain ⟨wide, placed, block⟩ := layered.block fits listed usable (Nat.le_refl _)
    rw [fits.level_code, Nat.add_zero] at last
    cases block with
    | code less _ _ _ => exact absurd less (Nat.lt_irrefl _)
    | own _ own used goes left =>
        cases listed.symm.trans own
        exact left ▸ last.leads placed used ((goes _).mpr ⟨next, leads, rfl⟩)

/-- What bounds the depths of a woven body bounds those of the original body. -/
theorem Layered.bounds_before (layered : splice.Layered entry start) (fits : splice.Fits argumentCount)
    (consistent : (splice.before argumentCount returnsValue).Consistent) {bound : Nat}
    (bounds : (splice.after argumentCount returnsValue).Bounds bound) :
    (splice.before argumentCount returnsValue).Bounds bound := by
  intro position depth instruction there listed
  obtain ⟨same, found, usable⟩ := consistent.usable position depth there
  cases listed.symm.trans found
  obtain ⟨wide, placed, block⟩ := layered.block fits listed usable (Nat.le_refl _)
  have last := layered.reaches fits consistent there (Nat.le_refl _)
  rw [fits.level_code, Nat.add_zero] at last
  have bounded := bounds _ _ wide last placed
  cases block with
  | code less _ _ _ => exact absurd less (Nat.lt_irrefl _)
  | own _ own _ _ left =>
      cases listed.symm.trans own
      exact left ▸ bounded

/-- What bounds the depths of a woven body leaves room for the values of the call at each place. -/
theorem Layered.room_le (layered : splice.Layered entry start) (fits : splice.Fits argumentCount)
    (consistent : (splice.before argumentCount returnsValue).Consistent) {bound : Nat}
    (bounds : (splice.after argumentCount returnsValue).Bounds bound)
    (there : (splice.before argumentCount returnsValue).Reaches position depth) (code : splice.code entry position ≠ []) :
    depth + splice.site.room ≤ bound := by
  rcases splice.code_call fits.plain entry position with none | ⟨ids, some⟩
  · exact absurd none code
  · have length : (splice.code entry position).length =
        splice.site.sources.length + 1 + (!splice.site.callback.returns.isVoid).toNat := by
      rw [some, length_numbered, CallbackSite.length_callDrafts]
    have high {offset : Nat} (within : offset ≤ (splice.code entry position).length) :
        depth + splice.site.level offset ≤ bound := by
      have there' := layered.reaches fits consistent there within
      obtain ⟨wide, placed, -⟩ := (layered.consistent fits consistent).usable _ _ there'
      exact (bounds _ _ wide there' placed).1
    have loaded := high (show splice.site.sources.length ≤ (splice.code entry position).length from by omega)
    have called := high (show splice.site.sources.length + 1 ≤ (splice.code entry position).length from by omega)
    rw [splice.site.level_sources] at loaded
    rw [splice.site.level_called] at called
    unfold CallbackSite.room
    omega

/-- The depths of a woven body are bounded by what bounds those of the original body, and those of the places with the
values of the call on top. -/
theorem Layered.bounds_iff (layered : splice.Layered entry start) (fits : splice.Fits argumentCount)
    (consistent : (splice.before argumentCount returnsValue).Consistent) (bound : Nat) :
    (splice.after argumentCount returnsValue).Bounds bound ↔
      (splice.before argumentCount returnsValue).Bounds bound ∧
        ∀ position depth, (splice.before argumentCount returnsValue).Reaches position depth →
          splice.code entry position ≠ [] → depth + splice.site.room ≤ bound := by
  constructor
  · exact fun bounds => ⟨layered.bounds_before fits consistent bounds,
      fun _ _ there code => layered.room_le fits consistent bounds there code⟩
  · rintro ⟨bounds, points⟩ place depth wide reaches placed
    obtain ⟨position, held, offset, there, within, rfl, rfl⟩ := layered.of_reaches fits consistent reaches
    obtain ⟨instruction, listed, usable⟩ := consistent.usable position held there
    obtain ⟨same, found, block⟩ := layered.block fits listed usable within
    cases placed.symm.trans found
    cases block with
    | code less _ _ left =>
        have top := points position held there (List.ne_nil_of_length_pos (Nat.zero_lt_of_lt less))
        have here := splice.site.level_le offset
        have next := splice.site.level_le (offset + 1)
        rw [left]
        omega
    | own behind own _ _ left =>
        cases listed.symm.trans own
        subst behind
        rw [fits.level_code, Nat.add_zero, left]
        exact bounds position held instruction there listed

end Splice

namespace CallbackSite

variable {site : CallbackSite} {source : Source} {index next : UInt16} {roles : List ParamRole}

/-- Arguments are taken from consecutive indices; where these start again from zero they only get lower. -/
theorem argument_paramSources (member : source ∈ site.paramSources next roles) (reads : source.argument? = some index) :
    index.toNat < next.toNat + (roles.filter fun role => !role.isSpecial).length := by
  induction roles generalizing next with
  | nil => cases member
  | cons role rest ih =>
      cases role with
      | argument =>
          have more : ((.argument :: rest : List ParamRole).filter fun role => !role.isSpecial).length =
              (rest.filter fun role => !role.isSpecial).length + 1 := rfl
          rw [more]
          rcases List.mem_cons.mp member with rfl | later
          · cases reads
            omega
          · have less := ih later
            have least : (next + 1).toNat ≤ next.toNat + 1 := by
              rw [UInt16.toNat_add]
              exact Nat.mod_le _ _
            omega
      | captureLocal slot type =>
          rcases List.mem_cons.mp member with rfl | later
          · cases reads
          · exact ih later
      | storeLocal slot type =>
          rcases List.mem_cons.mp member with rfl | later
          · cases reads
          · exact ih later
      | carrier kind =>
          rcases List.mem_cons.mp member with rfl | later
          · cases held : site.carrier with
            | none => simp [held, Source.argument?] at reads
            | some carrier => simp [held, Source.argument?] at reads
          · exact ih later

/-- Locals are taken for the roles that name them, and for the carrier. -/
theorem slot_paramSources (member : source ∈ site.paramSources next roles) (reads : source.slot? = some index) :
    (∃ role ∈ roles, ∃ type, role.slot? = some (index, type)) ∨ ∃ members, site.carrier = some (index, members) := by
  induction roles generalizing next with
  | nil => cases member
  | cons role rest ih =>
      have later {next : UInt16} (member : source ∈ site.paramSources next rest) :
          (∃ found ∈ role :: rest, ∃ type, found.slot? = some (index, type)) ∨
            ∃ members, site.carrier = some (index, members) :=
        (ih member).imp_left fun ⟨found, listed, type, same⟩ => ⟨found, List.mem_cons_of_mem _ listed, type, same⟩
      cases role with
      | argument =>
          rcases List.mem_cons.mp member with rfl | behind
          · cases reads
          · exact later behind
      | captureLocal slot type =>
          rcases List.mem_cons.mp member with rfl | behind
          · cases reads
            exact .inl ⟨_, List.mem_cons_self, type, rfl⟩
          · exact later behind
      | storeLocal slot type =>
          rcases List.mem_cons.mp member with rfl | behind
          · cases reads
            exact .inl ⟨_, List.mem_cons_self, type, rfl⟩
          · exact later behind
      | carrier kind =>
          rcases List.mem_cons.mp member with rfl | behind
          · cases held : site.carrier with
            | none => simp [held, Source.slot?] at reads
            | some carrier =>
                rw [held] at reads
                cases reads
                exact .inr ⟨carrier.2, rfl⟩
          · exact later behind

theorem argument_sources (member : source ∈ site.sources) (reads : source.argument? = some index) :
    index.toNat < (site.params.filter fun role => !role.isSpecial).length + site.hasThis.toNat := by
  have one : (1 : UInt16).toNat = 1 := rfl
  have zero : (0 : UInt16).toNat = 0 := rfl
  unfold sources at member
  cases this_ : site.hasThis with
  | false =>
      rw [this_] at member
      have less := argument_paramSources member reads
      rw [zero, Nat.zero_add] at less
      exact less
  | true =>
      rw [this_] at member
      rcases List.mem_cons.mp member with rfl | later
      · cases reads
        exact Nat.succ_pos _
      · have less := argument_paramSources later reads
        rw [one, Nat.add_comm] at less
        exact less

theorem slot_sources (member : source ∈ site.sources) (reads : source.slot? = some index) :
    (∃ role ∈ site.params, ∃ type, role.slot? = some (index, type)) ∨
      ∃ members, site.carrier = some (index, members) := by
  unfold sources at member
  split at member
  · rcases List.mem_cons.mp member with rfl | later
    · cases reads
    · exact slot_paramSources later reads
  · exact slot_paramSources member reads

end CallbackSite

/-- The locals that roles name are there, with the types that they state. -/
theorem MixinContext.checkLocals_ok {context : MixinContext} {patch : MethodDef} {target : String} {body : Body}
    {roles : List ParamRole} (checked : context.checkLocals patch target body roles = .ok ()) :
    ∀ role ∈ roles, ∀ index type, role.slot? = some (index, type) →
      (context.home.sig type).fullName = (body.locals[index.toNat]?.map TypeSig.fullName).getD "<absent>" := by
  induction roles with
  | nil => nofun
  | cons role rest ih =>
      intro found member index type named
      cases role with
      | argument =>
          rcases List.mem_cons.mp member with rfl | later
          · cases named
          · exact ih checked found later index type named
      | carrier kind =>
          rcases List.mem_cons.mp member with rfl | later
          · cases named
          · exact ih checked found later index type named
      | captureLocal slot stated =>
          unfold checkLocals at checked
          dsimp only at checked
          split at checked
          · rename_i same
            rcases List.mem_cons.mp member with rfl | later
            · cases named
              exact same
            · exact ih checked found later index type named
          · cases checked
      | storeLocal slot stated =>
          unfold checkLocals at checked
          dsimp only at checked
          split at checked
          · rename_i same
            rcases List.mem_cons.mp member with rfl | later
            · cases named
              exact same
            · exact ih checked found later index type named
          · cases checked

/-- As many plain types as there are plain roles. -/
theorem MixinContext.length_plainTypes {types : List TypeSig} {roles : List ParamRole} (same : types.length = roles.length) :
    (plainTypes types roles).length = (roles.filter fun role => !role.isSpecial).length := by
  unfold plainTypes
  rw [List.length_map]
  induction types generalizing roles with
  | nil =>
      cases roles with
      | nil => rfl
      | cons role rest => cases same
  | cons type rest ih =>
      cases roles with
      | nil => cases same
      | cons role others =>
          have shorter := ih (Nat.succ.inj same)
          rw [List.zip_cons_cons, List.filter_cons, List.filter_cons]
          split
          · rw [List.length_cons, List.length_cons, shorter]
          · exact shorter

namespace Injection

/-- An injection of a plain call into a method with plain names. -/
structure Simple (injection : Injection) : Prop where
  plain : injection.descriptor.cancellable = false
  targets : injection.context.home.PlainTargets
  params : ∀ sig ∈ injection.target.paramTypes, sig.Plain
  patch : ∀ sig ∈ injection.patch.paramTypes, sig.Plain
  roles : ∀ role ∈ injection.descriptor.params, ∀ index type, role.slot? = some (index, type) →
    ¬TypeSig.opens type.fullName

/-- The depths at the places, as far as control reaches them. -/
def pointDepths (injection : Injection) : List Nat :=
  (injection.body.locate injection.descriptor.location).filterMap fun point =>
    (injection.body.target? point).bind injection.target.depthAt?

/-- How many values the code of a call has on the stack at most: those that are loaded, or the result. -/
def room (injection : Injection) : Nat :=
  max injection.callback.argumentCount (!injection.callback.returns.isVoid).toNat

/-- The greatest depth of the woven body, from that of the target's body. -/
def wovenDepth (injection : Injection) (greatest : Nat) : Nat :=
  injection.pointDepths.foldl (fun most depth => max most (depth + injection.room)) greatest

variable {injection : Injection}

theorem fills (injection : Injection) : injection.site.Fills := by
  have count := injection.accepted.2.1
  have loads := injection.site.length_sources
  have params : injection.site.callback.params.length = injection.patch.params.length := by
    show injection.callback.paramTypes.length = _
    rw [MethodDef.paramTypes, List.length_map, injection.callback_params]
  have this_ : injection.site.callback.hasThis = injection.site.hasThis := by
    show (!injection.callback.isStatic) = !injection.target.isStatic
    rw [injection.callback_isStatic]
  rw [CallbackSite.Fills, params, this_, loads, count]
  rfl

theorem room_site (injection : Injection) : injection.site.room = injection.room := by
  have loaded : injection.site.sources.length = injection.callback.argumentCount := by
    rw [← injection.fills]
    show injection.callback.paramTypes.length + _ = injection.callback.params.length + _
    rw [MethodDef.paramTypes, List.length_map]
    rfl
  rw [CallbackSite.room, loaded]
  rfl

/-- The types of the callback's plain parameters are plainly named. -/
theorem plainTypes_plain (targets : injection.context.home.PlainTargets)
    (patch : ∀ sig ∈ injection.patch.paramTypes, sig.Plain) :
    ∀ sig ∈ MixinContext.plainTypes (injection.patch.paramTypes.map injection.context.home.sig) injection.descriptor.params,
      sig.Plain := by
  intro sig member
  obtain ⟨pair, listed, rfl⟩ := List.mem_map.mp member
  have among := (List.of_mem_zip (List.mem_of_mem_filter listed)).1
  obtain ⟨old, own, moved⟩ := List.mem_map.mp among
  exact moved ▸ Rehoming.sig_plain targets (patch old own)

/-- The call takes arguments that the target has. -/
theorem arguments_inside (targets : injection.context.home.PlainTargets)
    (params : ∀ sig ∈ injection.target.paramTypes, sig.Plain) (patch : ∀ sig ∈ injection.patch.paramTypes, sig.Plain)
    {source : Source} (member : source ∈ injection.site.sources) {index : UInt16} (reads : source.argument? = some index) :
    index.toNat < injection.target.argumentCount := by
  have types : (injection.patch.paramTypes.map injection.context.home.sig).length = injection.descriptor.params.length := by
    rw [List.length_map, MethodDef.paramTypes, List.length_map, injection.accepted.2.1]
  have plainCount : injection.target.params.length =
      (injection.descriptor.params.filter fun role => !role.isSpecial).length := by
    have taken : injection.target.paramTypes.length = injection.target.params.length := List.length_map _
    rw [← MixinContext.length_plainTypes types, ← taken]
    exact TypeSig.length_of_joinNames (TypeSig.separable_of_plain params)
      (TypeSig.separable_of_plain (plainTypes_plain targets patch)) injection.names
  show index.toNat < injection.target.params.length + _
  rw [plainCount]
  exact CallbackSite.argument_sources member reads

/-- The carrier has a local. -/
theorem carrier_inside {index : UInt16} {members : CarrierMembers} (added : injection.slot = some (index, members)) :
    index.toNat < injection.original.locals.size := by
  obtain ⟨⟨kind, type⟩, held, same⟩ := Option.map_eq_some_iff.mp added
  cases same
  have less := (injection.accepted.2.2.1 kind type held).2
  have one : injection.original.locals.size = injection.body.locals.size + 1 := by simp [original, held]
  rw [one, UInt16.toNat_ofNat']
  unfold Body.maxLocals at less
  omega

/-- The call takes locals that the target has, and the one that the carrier gets. -/
theorem slots_inside (targets : injection.context.home.PlainTargets)
    (roles : ∀ role ∈ injection.descriptor.params, ∀ index type, role.slot? = some (index, type) →
      ¬TypeSig.opens type.fullName)
    {source : Source} (member : source ∈ injection.site.sources) {index : UInt16} (reads : source.slot? = some index) :
    index.toNat < injection.original.locals.size := by
  obtain ⟨-, -, -, checked, -⟩ := injection.accepted
  rcases CallbackSite.slot_sources member reads with ⟨role, listed, type, slot⟩ | ⟨members, carries⟩
  · rw [original, Array.size_append]
    have same := MixinContext.checkLocals_ok checked role listed index type slot
    rcases Nat.lt_or_ge index.toNat injection.body.locals.size with inside | outside
    · exact Nat.lt_add_right _ inside
    · rw [Array.getElem?_eq_none outside] at same
      have opened : TypeSig.opens (injection.context.home.sig type).fullName := by
        rw [same]
        decide
      exact absurd (Rehoming.opens_sig targets type opened) (roles role listed index type slot)
  · exact carrier_inside carries

/-- The splice of a plain call fits the target. -/
theorem Simple.fits (simple : injection.Simple) (distinct : injection.body.ids.Nodup)
    (supplies : injection.body.Supplies injection.written) :
    injection.splice.Fits injection.target.argumentCount :=
  ⟨injection.no_slot simple.plain, injection.fills, (injection.layered distinct supplies).1,
    fun _ member _ reads => arguments_inside simple.targets simple.params simple.patch member reads,
    fun _ member _ reads => slots_inside simple.targets simple.roles member reads⟩

theorem original_eq (plain : injection.descriptor.cancellable = false) : injection.original = injection.body := by
  have none : injection.carrier = none := Option.map_eq_none_iff.mp (injection.no_slot plain)
  simp [original, none]

/-- Depths stay consistent when a plain call is injected. -/
theorem Simple.consistent (simple : injection.Simple) (distinct : injection.body.ids.Nodup)
    (supplies : injection.body.Supplies injection.written)
    {returnsValue : Bool}
    (consistent : StackContext.Consistent ⟨injection.body, injection.target.argumentCount, returnsValue⟩) :
    StackContext.Consistent ⟨injection.woven, injection.target.argumentCount, returnsValue⟩ := by
  obtain ⟨-, entry, start, layered⟩ := injection.layered distinct supplies
  rw [← original_eq simple.plain] at consistent
  exact layered.consistent (simple.fits distinct supplies) consistent

theorem wovenDepth_le {greatest bound : Nat} : injection.wovenDepth greatest ≤ bound ↔
    greatest ≤ bound ∧ ∀ depth ∈ injection.pointDepths, depth + injection.room ≤ bound := by
  unfold wovenDepth
  generalize injection.pointDepths = depths
  induction depths generalizing greatest with
  | nil => simp
  | cons depth rest ih => simp only [List.foldl_cons, ih, Nat.max_le, List.forall_mem_cons, and_assoc]

/-- A plain call makes a body as deep as the deepest place that control reaches with the values of the call on top, unless
the body was deeper. -/
theorem Simple.maxDepth_woven (simple : injection.Simple) (distinct : injection.body.ids.Nodup)
    (supplies : injection.body.Supplies injection.written) {greatest : UInt16}
    (verified : injection.target.maxDepth = .ok greatest) :
    ({ injection.target with body := some injection.woven } : MethodDef).maxDepth =
      if injection.wovenDepth greatest.toNat ≤ 65535 then .ok (injection.wovenDepth greatest.toNat).toUInt16
      else .error (.tooDeep (injection.wovenDepth greatest.toNat)) := by
  obtain ⟨-, entry, start, layered⟩ := injection.layered distinct supplies
  have original := original_eq simple.plain
  let context : StackContext := injection.splice.before injection.target.argumentCount (!injection.target.returns.isVoid)
  have accepted : context.maxDepth = .ok greatest := by
    rw [MethodDef.maxDepth_of_body injection.defined, ← original] at verified
    exact verified
  obtain ⟨consistent, least⟩ := StackContext.consistent_of_maxDepth accepted
  have fits := simple.fits distinct supplies
  show (injection.splice.after injection.target.argumentCount (!injection.target.returns.isVoid)).maxDepth = _
  refine StackContext.maxDepth_of_bounds (layered.consistent fits consistent) fun bound => ?_
  rw [layered.bounds_iff fits consistent, least, wovenDepth_le,
    show injection.splice.site.room = injection.room from injection.room_site]
  have point {position : Nat} {id : InstrId} : injection.body.target? id = some position ↔
      injection.splice.original.idAt? position = some id := by
    show _ ↔ (injection.original.instructions[position]?).map (·.id) = some id
    rw [original]
    constructor
    · intro found
      obtain ⟨instruction, held, own⟩ := Body.target?_found found
      rw [held, Option.map_some, own]
    · intro named
      obtain ⟨instruction, held, rfl⟩ := Option.map_eq_some_iff.mp named
      exact Body.target?_of_nodup distinct held
  have given (position : Nat) : injection.target.depthAt? position = context.depthAt? position := by
    rw [MethodDef.depthAt?, MethodDef.stackContext?_of_body injection.defined, ← original]
    rfl
  refine and_congr_right fun _ => ⟨fun points depth member => ?_, fun points position depth reaches code => ?_⟩
  · obtain ⟨id, listed, found⟩ := List.mem_filterMap.mp member
    obtain ⟨position, here, held⟩ := Option.bind_eq_some_iff.mp found
    rw [given] at held
    refine points position depth ((StackContext.depthAt?_iff_reaches accepted).mp held) ?_
    exact Splice.code_ne_nil.mpr ⟨id, point.mp here, listed⟩
  · obtain ⟨id, here, listed⟩ := Splice.code_ne_nil.mp code
    refine points depth (List.mem_filterMap.mpr ⟨id, listed, ?_⟩)
    rw [point.mpr here, Option.bind_some, given]
    exact (StackContext.depthAt?_iff_reaches accepted).mpr reaches

end Injection

end CilWeave
