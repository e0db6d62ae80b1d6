import CilWeave.Proofs.Mixin.Cancellation
import CilWeave.Proofs.Mixin.WovenAssignment

/-!
Stack depths of methods that callbacks are injected into, whether these can be cancelled or not. A method that has consistent
depths with a callback had them before; one that has them keeps them if a cancelled callback goes where the stack is as it has
to be.
-/

namespace CilWeave

open Stateful

namespace StackContext

variable {context other : StackContext} {depth : InstrId → Nat → Prop}

/-- Depths are those of the same instructions wherever the locals that they name are declared. -/
theorem Assigns.carry (assigns : context.Assigns depth) (instructions : other.body.instructions = context.body.instructions)
    (arguments : other.argumentCount = context.argumentCount) (returns : other.returnsValue = context.returnsValue)
    (slots : ∀ instruction ∈ context.body.instructions.toList, ∀ index, instruction.local? = some index →
      index.toNat < context.body.locals.size → index.toNat < other.body.locals.size) : other.Assigns depth := by
  have pops (instruction : Instruction) : other.pops instruction = context.pops instruction := by
    simp only [StackContext.pops, returns]
  have target (id : InstrId) : other.body.target? id = context.body.target? id := Body.target?_congr instructions id
  refine ⟨fun instruction found => assigns.entry instruction (instructions ▸ found), fun id member => ?_,
    fun position held instruction found given => ?_, fun position held next instruction last found given leads there => ?_⟩
  · rw [Body.ids, instructions] at member
    exact assigns.unique id member
  · rw [instructions] at found
    obtain ⟨slot, argument, covered, returns, targets, falls⟩ := assigns.usable position held instruction found given
    refine ⟨fun index named => ?_, fun index named => arguments ▸ argument index named, pops instruction ▸ covered,
      fun ret => pops instruction ▸ returns ret, fun goal listed => target goal ▸ targets goal listed,
        instructions ▸ falls⟩
    exact slots instruction (Array.mem_toList_iff.mpr (Array.mem_of_getElem? found)) index named (slot index named)
  · rw [instructions] at found there
    have goes : context.Leads position instruction next := by simpa only [Leads, target] using leads
    have after : other.depthAfter instruction held = context.depthAfter instruction held := by
      simp only [depthAfter, pops]
    rw [after]
    exact assigns.leads position held next instruction last found given goes there

end StackContext

namespace CallbackSite

variable {site : CallbackSite} {draft : Draft}

/-- A draft that names only locals and arguments that the site's sources are read from, or the carrier's local. -/
structure Takes (site : CallbackSite) (draft : Draft) : Prop where
  slot : ∀ index, (draft.withId 0).local? = some index →
    (∃ source ∈ site.sources, source.slot? = some index) ∨ ∃ members, site.carrier = some (index, members)
  argument : ∀ index, (draft.withId 0).argument? = some index → ∃ source ∈ site.sources, source.argument? = some index

theorem Takes.nothing (slot : (draft.withId 0).local? = none) (argument : (draft.withId 0).argument? = none) :
    site.Takes draft := by
  refine ⟨fun index named => ?_, fun index named => ?_⟩
  · cases slot.symm.trans named
  · cases argument.symm.trans named

theorem Takes.source {source : Source} (member : source ∈ site.sources) : site.Takes source.draft := by
  obtain ⟨-, slot, argument⟩ := source.draft_loads 0
  exact ⟨fun index named => .inl ⟨source, member, slot ▸ named⟩,
    fun index named => ⟨source, member, argument ▸ named⟩⟩

variable {slot : UInt16} {members : CarrierMembers}

theorem Takes.load (held : site.carrier = some (slot, members)) : site.Takes (.loadLocal slot) := by
  obtain ⟨-, own, argument⟩ := (Source.slot slot).draft_loads 0
  refine ⟨fun index named => ?_, fun index named => ?_⟩
  · cases own.symm.trans named
    exact .inr ⟨members, held⟩
  · cases argument.symm.trans named

theorem Takes.store (held : site.carrier = some (slot, members)) : site.Takes (.storeLocal slot) := by
  obtain ⟨-, own, argument⟩ := Draft.storeLocal_uses slot
  refine ⟨fun index named => ?_, fun index named => ?_⟩
  · cases own.symm.trans named
    exact .inr ⟨members, held⟩
  · cases argument.symm.trans named

theorem drafts_take {resume : InstrId} {cancel : CancelAction} (member : draft ∈ site.drafts resume cancel) :
    site.Takes draft := by
  cases part_of_mem member with
  | load listed => exact .source listed
  | keep held => exact .store held
  | carrier held => exact .load held
  | call | drop | make | question | value | branch | skip | ret | nop => exact .nothing rfl rfl

end CallbackSite

namespace Injection

variable {injection : Injection}

/-- The context of the target, with the local of the carrier. -/
def host (injection : Injection) : StackContext :=
  ⟨injection.original, injection.target.argumentCount, !injection.target.returns.isVoid⟩

theorem balanced (injection : Injection) : injection.splice.site.Balanced := by
  have carried {slot : UInt16} {members : CarrierMembers}
    (held : injection.slot = some (slot, members)) : ∃ carrier : TypeSig,
      members = .of carrier (injection.context.home.config.attributeName Marker.plainCarrier) := by
    obtain ⟨carrier, -, added⟩ := Option.map_eq_some_iff.mp held
    cases added
    exact ⟨_, rfl⟩
  refine ⟨injection.fills, fun slot members held => ?_, fun slot members held => ?_⟩
  · obtain ⟨carrier, rfl⟩ := carried held
    rfl
  · obtain ⟨carrier, rfl⟩ := carried held
    exact ⟨rfl, rfl, rfl⟩

/-- The carrier of a callback into a method that returns a value holds one. -/
theorem carrier_typed {config : WeaveConfig} {owner : String} {kind : CarrierKind} {type : TypeSig}
    (roles : injection.patch.params.mapM (config.paramRole owner) = .ok injection.descriptor.params)
    (held : injection.carrier = some (kind, type)) (value : injection.target.returns.isVoid = false) :
    ∃ reference arguments, type = .generic reference arguments := by
  have fits := (injection.accepted.2.2.1 _ _ held).1
  obtain ⟨sig, rfl, read⟩ := injection.carrier_moved roles held
  unfold WeaveConfig.carrierKind? at read
  split at read
  · split at read
    · cases read
      rw [MixinContext.carrierFits, value] at fits
      cases fits
    · cases read
  · exact ⟨_, _, rfl⟩
  · cases read

/-- What the depths of injected code rest on: plain names, locals that are there, and carriers of values that hold one. -/
structure Sized (injection : Injection) : Prop where
  targets : injection.context.home.PlainTargets
  params : ∀ sig ∈ injection.target.paramTypes, sig.Plain
  patch : ∀ sig ∈ injection.patch.paramTypes, sig.Plain
  roles : ∀ role ∈ injection.descriptor.params, ∀ index type, role.slot? = some (index, type) →
    ¬TypeSig.opens type.fullName
  valued : ∀ kind type, injection.carrier = some (kind, type) → injection.target.returns.isVoid = false →
    ∃ reference arguments, type = .generic reference arguments

theorem Sized.suits (sized : injection.Sized) : injection.splice.Suits injection.host := by
  refine ⟨injection.balanced, fun withValue slot members cancel held => ?_,
    fun target cancel => injection.cancel_target cancel,
    fun resume draft member index => ⟨fun named => ?_, fun named => ?_⟩⟩
  · have value : withValue = !injection.target.returns.isVoid := injection.cancel_return cancel
    refine ⟨value, fun depth => ?_⟩
    cases returns : injection.target.returns.isVoid with
    | true =>
        rw [value, returns]
        exact .nil depth
    | false =>
        obtain ⟨⟨kind, type⟩, carries, added⟩ := Option.map_eq_some_iff.mp held
        obtain ⟨reference, arguments, rfl⟩ := sized.valued kind type carries returns
        cases added
        rw [value, returns]
        have loads : Draft.Runs injection.host.returnsValue [.loadLocal injection.body.locals.size.toUInt16]
          (depth + 0) (depth + 1) :=
          .use ((Source.slot _).draft_loads 0).toUses depth
        exact loads.append (.use ⟨rfl, rfl, rfl, rfl⟩ depth)
  · rcases (CallbackSite.drafts_take member).slot index named with ⟨source, listed, reads⟩ | ⟨members, carries⟩
    · exact slots_inside sized.targets sized.roles listed reads
    · exact carrier_inside carries
  · obtain ⟨source, listed, reads⟩ := (CallbackSite.drafts_take member).argument index named
    exact arguments_inside sized.targets sized.params sized.patch listed reads

/-- Where a cancelled callback goes from a place that control comes to, the stack is as it has to be there: empty where the
method returns, and otherwise as control finds it there when it comes another way. -/
def Lands (injection : Injection) : Prop :=
  injection.splice.Lands (StackContext.Comes ⟨injection.body, injection.target.argumentCount,
    !injection.target.returns.isVoid⟩)

/-- Depths stay consistent when a callback is injected whose cancellation lands. -/
theorem Sized.consistent (sized : injection.Sized) (lands : injection.Lands) (coherent : injection.body.Coherent)
    (supplies : injection.body.Supplies injection.written)
    (consistent : StackContext.Consistent ⟨injection.body, injection.target.argumentCount,
      !injection.target.returns.isVoid⟩) :
    StackContext.Consistent ⟨injection.woven, injection.target.argumentCount, !injection.target.returns.isVoid⟩ := by
  obtain ⟨locals, entry, start, layered⟩ := injection.layered coherent.distinct supplies
  have before : (injection.host.withCode injection.original).Assigns (StackContext.Comes
      ⟨injection.body, injection.target.argumentCount, !injection.target.returns.isVoid⟩) := by
    refine (consistent.assigns coherent.distinct).carry rfl rfl rfl fun _ _ index _ inside => ?_
    show index.toNat < injection.original.locals.size
    rw [original, Array.size_append]
    exact Nat.lt_add_right _ inside
  have original : injection.original.Coherent := ⟨coherent.distinct, coherent.operands, coherent.targets⟩
  have after := layered.spreads sized.suits lands original before
  have woven : StackContext.Assigns ⟨injection.woven, injection.target.argumentCount, !injection.target.returns.isVoid⟩ _ :=
    after.carry rfl rfl rfl fun _ _ _ _ inside => locals ▸ inside
  refine woven.consistent ?_
  have some : _ < start injection.splice.original.instructions.size := layered.start_lt consistent.nonempty (Nat.le_refl _)
  rw [layered.last] at some
  exact Nat.lt_of_le_of_lt (Nat.zero_le _) some

/-- Depths that are consistent with a callback, in a body with some locals, were so without it. -/
theorem consistent_before (coherent : injection.body.Coherent)
    (supplies : injection.body.Supplies injection.written) {locals : Array TypeSig}
    (consistent : StackContext.Consistent
      ⟨{ injection.woven with locals }, injection.target.argumentCount, !injection.target.returns.isVoid⟩) :
    StackContext.Consistent
      ⟨{ injection.body with locals }, injection.target.argumentCount, !injection.target.returns.isVoid⟩ := by
  obtain ⟨-, entry, start, layered⟩ := injection.layered coherent.distinct supplies
  have original : injection.original.Coherent := ⟨coherent.distinct, coherent.operands, coherent.targets⟩
  let context : StackContext :=
    ⟨{ injection.woven with locals }, injection.target.argumentCount, !injection.target.returns.isVoid⟩
  have after : (context.withCode injection.woven).Assigns context.Comes := consistent.assigns layered.distinct
  have before := layered.restricts injection.balanced original after
  have own : StackContext.Assigns
      ⟨{ injection.body with locals }, injection.target.argumentCount, !injection.target.returns.isVoid⟩ _ :=
    before.carry rfl rfl rfl fun _ _ _ _ inside => inside
  refine own.consistent ?_
  obtain ⟨position, offset, inside, -, -⟩ := layered.covers consistent.nonempty
  exact Nat.lt_of_le_of_lt (Nat.zero_le position) inside

end Injection

end CilWeave
