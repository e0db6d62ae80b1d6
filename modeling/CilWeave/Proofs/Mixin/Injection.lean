import Mathlib.Data.List.Perm.Subperm
import CilWeave.Proofs.Mixin.Accepted
import CilWeave.Proofs.Mixin.Layering
import CilWeave.Proofs.Mixin.Locating
import CilWeave.Proofs.Signature.Names

/-!
Accepted injections: what was checked, the method that was moved onto the type under a name that was not
taken, and the body its calls were spliced into.
-/

namespace CilWeave

open Stateful

/-- A name is kept if it is free, and gets a number behind it otherwise: there are more numbered names than names that are
taken. -/
theorem uniqueName_free (base : String) (taken : List String) : uniqueName base taken ∉ taken ∧
    (uniqueName base taken = base ∨ ∃ number, uniqueName base taken = base ++ "_" ++ Decimal.digitText (number + 1)) := by
  unfold uniqueName
  split
  · dsimp only
    cases found : ((List.range (taken.length + 1)).map fun number =>
        base ++ "_" ++ Decimal.digitText (number + 1)).find? fun candidate => !taken.contains candidate with
    | some name =>
        obtain ⟨number, -, rfl⟩ := List.mem_map.mp (List.mem_of_find?_eq_some found)
        exact ⟨by simpa using List.find?_some found, .inr ⟨number, rfl⟩⟩
    | none =>
        have all := List.find?_eq_none.mp found
        have distinct : ((List.range (taken.length + 1)).map fun number =>
            base ++ "_" ++ Decimal.digitText (number + 1)).Nodup := by
          refine List.nodup_range.map_on fun left _ right _ same => ?_
          exact Nat.succ.inj (digitText_inj ((String.append_right_inj _).mp same))
        have fewer : ((List.range (taken.length + 1)).map fun number =>
            base ++ "_" ++ Decimal.digitText (number + 1)).length ≤ taken.length :=
          distinct.length_le_of_subset fun name member => by simpa using all name member
        rw [List.length_map, List.length_range] at fewer
        exact absurd fewer (Nat.not_succ_le_self _)
  · rename_i free
    exact ⟨by simpa using free, .inl rfl⟩

theorem uniqueName_prefix (base : String) (taken : List String) : ∃ rest, uniqueName base taken = base ++ rest := by
  rcases (uniqueName_free base taken).2 with same | ⟨number, same⟩
  · exact ⟨"", by rw [same, String.append_empty]⟩
  · exact ⟨"_" ++ Decimal.digitText (number + 1), by rw [same, String.append_assoc]⟩

/-- An injection that was accepted, with the method it is for and the code it left there. -/
structure Injection where
  context : MixinContext
  descriptor : InjectDescriptor
  before : PatchState
  after : PatchState
  index : Nat
  patch : MethodDef
  target : MethodDef
  body : Body
  carrier : Option (CarrierKind × TypeSig)
  cancel : CancelAction
  woven : Body
  applied : context.applyInject descriptor before = .ok after
  patched : context.mixinDef.methods[descriptor.methodIndex]? = some patch
  named : before.type.methodIndex? descriptor.targetMethod = some index
  held : before.type.methods[index]? = some target
  defined : target.body = some body
  carries : context.carrier? patch (patch.paramTypes.map context.home.sig) descriptor = .ok carrier
  cancels : context.cancelAction patch descriptor.targetMethod body target.returns carrier.isSome
    descriptor.cancelTarget = .ok cancel
  wove : after.type.methods[index]? = some { target with body := some woven }

namespace Injection

variable (injection : Injection)

/-- The method that is called: the mixin's method, moved onto the target type. -/
def callback : MethodDef := injection.context.ported injection.before injection.patch

/-- The local for the carrier and the carrier's members. -/
def slot : Option (UInt16 × CarrierMembers) :=
  injection.carrier.map fun carrier =>
    (injection.body.locals.size.toUInt16,
      CarrierMembers.of carrier.2 (injection.context.home.config.attributeName Marker.plainCarrier))

def site : CallbackSite :=
  ⟨injection.callback.ref injection.context.targetSig, !injection.target.isStatic, injection.descriptor.params,
    injection.slot⟩

/-- The body before the callback is spliced in; the carrier has a local of its own. -/
def original : Body :=
  { injection.body with
    locals := injection.body.locals ++ (injection.carrier.map (·.2)).toArray }

def splice : Splice :=
  ⟨injection.site, injection.cancel, injection.body.locate injection.descriptor.location, injection.original,
    injection.woven⟩

end Injection

theorem MixinContext.addCarrier_ok {context : MixinContext} {body original : Body} {carrier : Option TypeSig}
    {slot : Option (UInt16 × CarrierMembers)} (added : context.addCarrier body carrier = .ok (slot, original)) :
    (slot = carrier.map fun type =>
        (body.locals.size.toUInt16, CarrierMembers.of type (context.home.config.attributeName Marker.plainCarrier))) ∧
      original = { body with locals := body.locals ++ carrier.toArray } ∧
      (carrier.isSome = true → body.locals.size < Body.maxLocals) := by
  cases carrier with
  | none =>
      cases added
      exact ⟨rfl, by simp, by simp⟩
  | some type =>
      obtain ⟨⟨index, extended⟩, room, added⟩ := bind_ok added
      unfold Body.addLocal at room
      split at room
      · rename_i less
        cases room
        cases added
        exact ⟨rfl, by simp [CarrierMembers.of], fun _ => less⟩
      · cases room

namespace MixinContext

variable {context : MixinContext} {descriptor : InjectDescriptor} {state : PatchState} {plan : InjectPlan}

/-- What is planned is done if the carrier gets a local and the code is spliced in. -/
theorem applyInject_made {slot : Option (UInt16 × CarrierMembers)} {original spliced : Body}
    (planned : context.planInject descriptor state = .ok plan)
    (carried : context.addCarrier plan.body plan.carrier = .ok (slot, original))
    (ran : plan.points.foldlM (splice ⟨(context.ported state plan.patch).ref context.targetSig,
      plan.hasThis, descriptor.params, slot⟩
      plan.cancel plan.body.ids) original = .ok spliced) : ∃ after, context.applyInject descriptor state = .ok after := by
  rw [applyInject_eq planned, spliceCallback]
  simp only [bind, Except.bind, carried]
  rw [ran]
  exact ⟨_, rfl⟩

/-- What is planned is done, if there is room for the carrier. -/
theorem applyInject_of_plan (planned : context.planInject descriptor state = .ok plan)
    (points : plan.points = plan.body.locate descriptor.location) :
    (∃ after, context.applyInject descriptor state = .ok after) ∨
      context.applyInject descriptor state = .error (.body .tooManyLocals) := by
  cases carried : context.addCarrier plan.body plan.carrier with
  | error fault =>
      right
      rw [applyInject_eq planned, spliceCallback]
      simp only [bind, Except.bind, carried]
      unfold addCarrier Body.addLocal at carried
      split at carried
      · cases carried
      · split at carried <;> cases carried
        rfl
  | ok added =>
      obtain ⟨slot, original⟩ := added
      obtain ⟨-, same, -⟩ := addCarrier_ok carried
      have ids : original.ids = plan.body.ids := by rw [same]; rfl
      have members : ∀ point ∈ plan.points, point ∈ original.ids := fun point member =>
        ids ▸ Body.mem_locate (points ▸ member)
      obtain ⟨woven, spliced⟩ := spliceAll_of_mem members
      exact .inl (applyInject_made planned carried spliced)

end MixinContext

variable {context : MixinContext} {descriptor : InjectDescriptor} {before after : PatchState}

/-- Every injection that is accepted is one. -/
theorem Injection.of_applied (applied : context.applyInject descriptor before = .ok after) :
    ∃ injection : Injection, injection.context = context ∧ injection.descriptor = descriptor ∧
      injection.before = before ∧ injection.after = after := by
  obtain ⟨plan, slot, original, spliced, planned, added, ran, type⟩ := MixinContext.applyInject_ok applied
  obtain ⟨target, carrier, patched, named, held, defined, -, -, -, chosen, -, -, -, -, action, -, -⟩ :=
    MixinContext.planInject_ok planned
  refine ⟨⟨context, descriptor, before, after, plan.index, plan.patch, target, plan.body, carrier, plan.cancel,
    spliced.relax.2, applied, patched, named, held, defined, chosen, action, ?_⟩, rfl, rfl, rfl, rfl⟩
  rw [type]
  simp [List.getElem?_append_left (List.getElem?_eq_some_iff.mp held).1, held]

/-- An injection for a method that is known, with the code that is then found there. -/
def Injection.of (applied : context.applyInject descriptor before = .ok after) (index : Nat) (patch target : MethodDef)
    (body : Body) (carrier : Option (CarrierKind × TypeSig)) (cancel : CancelAction)
    (patched : context.mixinDef.methods[descriptor.methodIndex]? = some patch)
    (named : before.type.methodIndex? descriptor.targetMethod = some index)
    (held : before.type.methods[index]? = some target) (defined : target.body = some body)
    (carries : context.carrier? patch (patch.paramTypes.map context.home.sig) descriptor = .ok carrier)
    (cancels : context.cancelAction patch descriptor.targetMethod body target.returns carrier.isSome
      descriptor.cancelTarget = .ok cancel) : Injection :=
  ⟨context, descriptor, before, after, index, patch, target, body, carrier, cancel,
    ((after.type.methods[index]?).bind (·.body)).getD default, applied, patched, named, held, defined, carries, cancels, by
      obtain ⟨injection, rfl, rfl, rfl, rfl⟩ := Injection.of_applied applied
      cases Option.some.inj (injection.named.symm.trans named)
      cases Option.some.inj (injection.held.symm.trans held)
      rw [injection.wove]
      rfl⟩

/-- What an accepted injection has checked and done. -/
theorem Injection.accepted (injection : Injection) :
    injection.target.isStatic = injection.patch.isStatic ∧
      injection.patch.params.length = injection.descriptor.params.length ∧
      (∀ kind type, injection.carrier = some (kind, type) →
        injection.context.carrierFits kind injection.target.returns = true ∧
          injection.body.locals.size < Body.maxLocals) ∧
      injection.context.checkLocals injection.patch injection.descriptor.targetMethod injection.body
        injection.descriptor.params = .ok () ∧
      ∃ spliced : Body,
        (injection.body.locate injection.descriptor.location).foldlM
            (MixinContext.splice injection.site injection.cancel injection.body.ids) injection.original = .ok spliced ∧
          injection.woven = spliced.relax.2 ∧
          injection.after.type =
            { injection.before.type with
              methods := (injection.before.type.methods ++ [injection.callback]).modify injection.index
                fun method => { method with body := some injection.woven } } := by
  obtain ⟨context, descriptor, before, after, index, patch, target, body, carrier, cancel, woven, applied, patched,
    named, held, defined, carries, cancels, wove⟩ := injection
  obtain ⟨plan, slot, original, spliced, planned, added, ran, type⟩ := MixinContext.applyInject_ok applied
  obtain ⟨method, carried, patchHeld, found, has, code, static, count, -, chosen, fits, locals, points, -, action, this_,
    carrierType⟩ := MixinContext.planInject_ok planned
  obtain ⟨planPatch, planIndex, planThis, planBody, planCarrier, planPoints, planCancel, planRefs⟩ := plan
  dsimp only at *
  cases Option.some.inj (patchHeld.symm.trans patched)
  cases Option.some.inj (found.symm.trans named)
  cases Option.some.inj (has.symm.trans held)
  cases Option.some.inj (code.symm.trans defined)
  cases Except.ok.inj (chosen.symm.trans carries)
  cases Except.ok.inj (action.symm.trans cancels)
  subst points this_ carrierType
  obtain ⟨slotEq, rfl, room⟩ := MixinContext.addCarrier_ok added
  have same : woven = spliced.relax.2 := by
    rw [type] at wove
    simp only [List.getElem?_modify_eq, List.getElem?_append_left (List.getElem?_eq_some_iff.mp held).1,
      held] at wove
    simpa using (congrArg MethodDef.body (Option.some.inj wove)).symm
  subst same
  refine ⟨static, count, ?_, locals, spliced, ?_, rfl, type⟩
  · intro kind type is
    subst is
    exact ⟨fits kind type rfl, room rfl⟩
  · simpa [Injection.site, Injection.slot, Injection.callback, Injection.original, slotEq, Option.map_map,
      Function.comp_def] using ran

namespace Injection

variable (injection : Injection)

/-- The state that an injection leaves: it has looked at what its callback names, and touched the callback and its target. -/
theorem done : ∃ (plan : MixinContext.InjectPlan) (body : Body), injection.after =
    let state := ((injection.before.see (plan.refs ++ injection.context.home.methodRefs injection.patch)).addTouched
      injection.callback).setBody plan.index body |>.touch injection.descriptor.targetMethod
    { state with applied := { state.applied with injections := state.applied.injections + plan.points.length } } := by
  have applied := injection.applied
  obtain ⟨plan, planned, -⟩ := bind_ok applied
  rw [MixinContext.applyInject_eq planned] at applied
  obtain ⟨⟨slot, original⟩, -, applied⟩ := bind_ok applied
  obtain ⟨spliced, -, applied⟩ := bind_ok applied
  obtain ⟨-, -, patched, -⟩ := MixinContext.planInject_ok planned
  have own : plan.patch = injection.patch := Option.some.inj (patched.symm.trans injection.patched)
  refine ⟨plan, spliced.relax.2, ?_⟩
  rw [← Except.ok.inj applied, callback, ← own]

/-- The callback's plain parameters are named as the target's parameters. -/
theorem names : TypeSig.joinNames injection.target.paramTypes =
    TypeSig.joinNames (MixinContext.plainTypes (injection.patch.paramTypes.map injection.context.home.sig)
      injection.descriptor.params) := by
  obtain ⟨plan, -, -, -, planned, -⟩ := MixinContext.applyInject_ok injection.applied
  obtain ⟨method, -, patched, found, held, -, -, -, names, -⟩ := MixinContext.planInject_ok planned
  rw [Option.some.inj (patched.symm.trans injection.patched)] at names
  rw [Option.some.inj (found.symm.trans injection.named), injection.held] at held
  rw [Option.some.inj held]
  exact names

/-- There are as many places as the descriptor expects. -/
theorem counts :
    (injection.body.locate injection.descriptor.location).length = injection.descriptor.expected := by
  obtain ⟨plan, -, -, -, planned, -⟩ := MixinContext.applyInject_ok injection.applied
  obtain ⟨method, -, -, found, held, code, -, -, -, -, -, -, points, expected, -⟩ := MixinContext.planInject_ok planned
  rw [Option.some.inj (found.symm.trans injection.named), injection.held] at held
  cases held
  have same : plan.body = injection.body := Option.some.inj (code.symm.trans injection.defined)
  rw [← same, ← points, expected]

/-- There is a carrier just for a callback that may cancel. -/
theorem carried : injection.carrier.isSome = injection.descriptor.cancellable := by
  have carries := MixinContext.carrier?_ok injection.carries
  generalize injection.carrier = carrier at carries ⊢
  cases carries with
  | none plain => exact plain.symm
  | last cancels => exact cancels.symm

/-- How many instructions are put into the target. -/
def written : Nat := injection.splice.points.length * injection.site.length injection.cancel

/-- No instruction of the target is lost. -/
theorem ids_subset : injection.body.ids ⊆ injection.woven.ids := by
  obtain ⟨-, -, -, -, spliced, ran, woven, -⟩ := injection.accepted
  have kept : injection.original.ids ⊆ spliced.ids := MixinContext.spliceAll_subset ran
  rw [woven, spliced.relax_widens.ids]
  exact kept

variable {injection} in
theorem body_spare (spare : injection.woven.Spare) : injection.body.Spare := fun last => spare (injection.ids_subset last)

/-- If the last identity is not in use in the woven body, the original one had identities for all that was put in. -/
theorem supplies (fresh : injection.body.Fresh) (spare : injection.woven.Spare) :
    injection.body.Supplies injection.written := by
  obtain ⟨-, -, -, -, spliced, ran, woven, -⟩ := injection.accepted
  have kept : spliced.Spare := spare.congr (by rw [woven, spliced.relax_widens.ids])
  have room : injection.original.nextFresh.toNat + injection.written < UInt32.size := MixinContext.spliceAll_room ran kept
  exact ⟨fresh.above (body_spare spare), room⟩

/-- The callback was put in front of one place after the other, and branches were widened then. -/
theorem spliced (distinct : injection.body.ids.Nodup) (supplies : injection.body.Supplies injection.written) :
    ∃ (spliced : Body) (entries : Entries), injection.woven = spliced.relax.2 ∧
      MixinContext.Spliced injection.site injection.cancel injection.original injection.body.nextFresh entries spliced ∧
      ∀ id, (entries.lookup id).isSome ↔ id ∈ injection.splice.points := by
  obtain ⟨-, -, -, -, spliced, ran, woven, -⟩ := injection.accepted
  have points : ∀ point ∈ injection.splice.points, point ∈ injection.original.ids :=
    fun _ member => show _ ∈ injection.body.ids from Body.mem_locate member
  obtain ⟨result, entries, ran', placed, keys⟩ := MixinContext.spliceAll_ok injection.splice.points
    (MixinContext.spliced_none injection.site injection.cancel injection.original) distinct supplies.above
    (Body.locate_nodup distinct _) points (fun _ _ => rfl) supplies.room
  cases Except.ok.inj (ran'.symm.trans ran)
  exact ⟨spliced, entries, woven, placed, fun id => (keys id).trans (by simp)⟩

/-- The woven body is laid out in blocks. -/
theorem layered (distinct : injection.body.ids.Nodup) (supplies : injection.body.Supplies injection.written) :
    injection.woven.locals = injection.original.locals ∧ ∃ entry start, injection.splice.Layered entry start := by
  obtain ⟨spliced, entries, woven, placed, exactly⟩ := injection.spliced distinct supplies
  have relaxed := placed.layered distinct supplies.above exactly
  rw [← woven] at relaxed
  refine ⟨?_, _, _, relaxed⟩
  rw [woven, spliced.relax_widens.rest]
  exact placed.locals

end Injection

end CilWeave
