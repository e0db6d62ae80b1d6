import CilWeave.Proofs.Mixin.Accounting
import CilWeave.Proofs.Mixin.SameCode

/-!
Weaving a module that was saved and loaded after an earlier weave. Two runs on modules of the same code are followed side by
side: whatever one does the other does as well, and the code stays the same, with the same identities.
-/

namespace CilWeave

open Stateful

namespace Verification

/-- Verifications of modules of the same code that have come equally far. -/
inductive SameCode (state : Verification) : Verification → Prop
  | of (module : Module) (alike : state.module.SameCode module) : SameCode state { state with module }

variable {config : WeaveConfig} {state other : Verification}

theorem method_sameCode (same : state.SameCode other) (typeName name : String) :
    Both SameCode (method config typeName state name) (method config typeName other name) := by
  obtain ⟨module, code⟩ := same
  unfold method
  refine rel_elim (code.type? typeName) (.ok (.of _ code)) fun type type' alike => ?_
  dsimp only
  rw [alike.methodIndex?]
  split
  · exact .ok (.of _ code)
  · cases type.methodIndex? name with
    | none => exact .ok (.of _ code)
    | some index =>
        have depths : (type'.methods[index]?).map MethodDef.maxDepth = (type.methods[index]?).map MethodDef.maxDepth :=
          rel_map_eq (forall₂_getElem? alike.methods index) fun _ _ method => method.maxDepth
        dsimp only
        rw [depths]
        cases (type.methods[index]?).map MethodDef.maxDepth with
        | none => exact .ok (.of _ code)
        | some depth =>
            cases depth with
            | ok depth =>
                refine .ok (.of _ (code.modifyType typeName fun _ _ one => ?_))
                exact one.modify index fun _ _ method => method.withMaxStack depth
            | error cause =>
                dsimp only
                split
                · exact .error _
                · exact .ok (.of _ code)

theorem run_sameCode (config : WeaveConfig) {module module' : Module} (same : module.SameCode module')
    (applied : List AppliedMixin) :
    Both SameCode (run config module applied) (run config module' applied) := by
  have begins : SameCode ⟨module, [], 0, []⟩ ⟨module', [], 0, []⟩ := .of _ same
  refine Both.foldlM (fun applied _ left right mixed => ?_) begins
  exact Both.foldlM (fun name _ left right going => method_sameCode going applied.targetType name) mixed

end Verification

namespace PatchState

/-- States on types of the same code in which the same has been done. -/
inductive SameCode (state : PatchState) : PatchState → Prop
  | of (methods : List MethodDef) (alike : List.Forall₂ MethodDef.SameCode state.type.methods methods) :
      SameCode state { state with type := { state.type with methods } }

namespace SameCode

variable {state other : PatchState} (same : state.SameCode other)

include same

theorem type : state.type.SameCode other.type := by
  obtain ⟨methods, alike⟩ := same
  exact .of _ alike

theorem see (references : List TypeRef) : (state.see references).SameCode (other.see references) := by
  obtain ⟨methods, alike⟩ := same
  exact .of _ alike

theorem touch (name : String) : (state.touch name).SameCode (other.touch name) := by
  obtain ⟨methods, alike⟩ := same
  exact .of _ alike

theorem addTouched (method : MethodDef) : (state.addTouched method).SameCode (other.addTouched method) := by
  obtain ⟨methods, alike⟩ := same
  exact .of _ (List.rel_append alike (.cons (.refl method) .nil))

theorem setBody (index : Nat) {body body' : Body} (code : body.SameCode body') :
    (state.setBody index body).SameCode (other.setBody index body') := by
  obtain ⟨methods, alike⟩ := same
  exact .of _ (forall₂_modify alike index fun _ _ method => method.withBody code)

theorem note (change : AppliedMixin → AppliedMixin) :
    SameCode { state with applied := change state.applied } { other with applied := change other.applied } := by
  obtain ⟨methods, alike⟩ := same
  exact .of _ alike

theorem methodNames : other.type.methods.map (·.name) = state.type.methods.map (·.name) := by
  obtain ⟨methods, alike⟩ := same
  refine forall₂_map alike fun method method' one => ?_
  obtain ⟨_, -⟩ := one
  rfl

end SameCode

end PatchState

namespace MixinContext

variable {context : MixinContext} {state other : PatchState}

theorem mapField_sameCode (same : state.SameCode other) (descriptor : FieldDescriptor) :
    Both (fun left right => left.1.SameCode right.1 ∧ left.2 = right.2) (context.mapField state descriptor)
      (context.mapField other descriptor) := by
  obtain ⟨methods, alike⟩ := same
  have fields (name : String) : TypeDef.field? { state.type with methods } name = state.type.field? name := rfl
  unfold mapField
  cases context.mixinDef.field? descriptor.field with
  | none => exact .error _
  | some field =>
      cases descriptor with
      | capture _ target =>
          dsimp only
          simp only [fields]
          cases state.type.field? target with
          | none => exact .error _
          | some existing => exact .ok ⟨.of _ alike, rfl⟩
      | add name =>
          dsimp only
          simp only [fields]
          split
          · exact .error _
          · exact .ok ⟨.of _ alike, rfl⟩

theorem mapFields_sameCode (same : state.SameCode other) (descriptors : List FieldDescriptor) (fields : Table FieldRef) :
    Both (fun left right => left.1.SameCode right.1 ∧ left.2 = right.2) (context.mapFields descriptors state fields)
      (context.mapFields descriptors other fields) := by
  induction descriptors generalizing state other fields with
  | nil => exact .ok ⟨same, rfl⟩
  | cons descriptor rest ih =>
      refine (context.mapField_sameCode same descriptor).bind ?_
      rintro ⟨state, name, field⟩ ⟨other, -⟩ ⟨same, rfl⟩
      exact ih same _

/-! Nothing is asked of an interface's methods but their signatures. -/

theorem portInterfaceMethods_restart (interface : TypeDef) (asked : List MethodDef) (state : PatchState) :
    context.portInterfaceMethods interface.restart (asked.map MethodDef.restart) state =
      context.portInterfaceMethods interface asked state := by
  induction asked generalizing state with
  | nil => rfl
  | cons expected rest ih =>
      rw [List.map_cons, portInterfaceMethods, portInterfaceMethods]
      simp only [ih]
      rfl

theorem applyImplements_restart (sig : TypeSig) (interface : TypeDef) (state : PatchState) :
    context.applyImplements sig (some interface.restart) state = context.applyImplements sig (some interface) state := by
  have asked : (interface.restart.methods.filter fun method => !method.isStatic) =
      (interface.methods.filter fun method => !method.isStatic).map MethodDef.restart := List.filter_map
  rw [applyImplements, applyImplements]
  dsimp only
  rw [asked, portInterfaceMethods_restart]

section

variable (same : state.SameCode other)

include same

/-- What is ported for an interface is added to both types. -/
theorem portInterfaceMethod_sameCode (interface : TypeDef) (expected : MethodDef) :
    Both (fun left right => left.1.SameCode right.1 ∧ left.2 = right.2) (context.portInterfaceMethod interface expected state)
      (context.portInterfaceMethod interface expected other) := by
  have taken (name : String) (params : List TypeSig) :
      (other.type.methodByParams? name params).isSome = (state.type.methodByParams? name params).isSome := by
    refine rel_isSome_eq (forall₂_find? same.type.methods fun method method' one => ?_)
    obtain ⟨_, -⟩ := one
    rfl
  unfold portInterfaceMethod
  dsimp only
  split
  · simp only [taken, same.type.fullName]
    split
    · exact .error _
    · exact .ok ⟨same.see _, rfl⟩
  · exact .error _

theorem portInterfaceMethods_sameCode (interface : TypeDef) (asked : List MethodDef) :
    Both (fun left right => left.1.SameCode right.1 ∧ left.2 = right.2) (context.portInterfaceMethods interface asked state)
      (context.portInterfaceMethods interface asked other) := by
  induction asked generalizing state other with
  | nil => exact .ok ⟨same, rfl⟩
  | cons expected rest ih =>
      refine (context.portInterfaceMethod_sameCode same interface expected).bind ?_
      rintro ⟨middle, method⟩ ⟨middle', -⟩ ⟨going, rfl⟩
      refine (ih going).bind ?_
      rintro ⟨last, methods⟩ ⟨last', -⟩ ⟨gone, rfl⟩
      exact .ok ⟨gone, rfl⟩

theorem applyImplements_sameCode (sig : TypeSig) (found : Option TypeDef) :
    Both PatchState.SameCode (context.applyImplements sig found state) (context.applyImplements sig found other) := by
  have addAll {methods : List MethodDef} {state other : PatchState} (same : state.SameCode other) :
      (methods.foldl PatchState.addTouched state).SameCode (methods.foldl PatchState.addTouched other) := by
    induction methods generalizing state other with
    | nil => exact same
    | cons method rest ih => exact ih (same.addTouched method)
  unfold applyImplements
  cases found with
  | none => exact .error _
  | some interface =>
      refine (context.portInterfaceMethods_sameCode (same.see sig.refs) interface _).bind ?_
      rintro ⟨middle, methods⟩ ⟨middle', -⟩ ⟨going, rfl⟩
      refine .ok (addAll ?_)
      obtain ⟨held, alike⟩ := going
      have implements : TypeDef.implements { middle.type with methods := held } (context.home.sig sig) =
          middle.type.implements (context.home.sig sig) := rfl
      simp only [implements]
      split
      · exact .of _ alike
      · exact .of _ alike

theorem applyOverwrite_sameCode (index : Nat) :
    Both PatchState.SameCode (context.applyOverwrite index state) (context.applyOverwrite index other) := by
  unfold applyOverwrite
  refine .bind_same fun patch _ => ?_
  have position (name : String) : other.type.methodIndex? name = state.type.methodIndex? name := same.type.methodIndex? name
  have kinds (position : Nat) : ((other.type.methods[position]?).any fun method => method.isStatic != patch.isStatic) =
      ((state.type.methods[position]?).any fun method => method.isStatic != patch.isStatic) := by
    refine rel_any_eq (forall₂_getElem? same.type.methods position) fun method method' one => ?_
    obtain ⟨_, -⟩ := one
    rfl
  dsimp only
  rw [position]
  split
  · simp only [kinds]
    split
    · exact .error _
    · cases patch.body with
      | none => exact .error _
      | some body =>
          refine .ok (PatchState.SameCode.note ?_ fun applied => { applied with overwrites := applied.overwrites + 1 })
          exact ((same.see _).setBody _ (.refl (context.home.body body))).touch _
  · exact .error _

end

/-- Plans that differ at most in the counter of the target's body. -/
inductive InjectPlan.SameCode (plan : InjectPlan) : InjectPlan → Prop
  | of (body : Body) (alike : plan.body.SameCode body) : SameCode plan { plan with body }

theorem checkLocals_counter (patch : MethodDef) (target : String) (body : Body) (next : InstrId) (roles : List ParamRole) :
    context.checkLocals patch target { body with nextId := next } roles = context.checkLocals patch target body roles := by
  induction roles with
  | nil => rfl
  | cons role rest ih => cases role <;> simp only [checkLocals, ih]

theorem cancelAction_counter (patch : MethodDef) (target : String) (body : Body) (next : InstrId) (returns : TypeSig)
    (cancellable : Bool) (cancelTarget : CancelTarget) :
    context.cancelAction patch target { body with nextId := next } returns cancellable cancelTarget =
      context.cancelAction patch target body returns cancellable cancelTarget := by
  unfold cancelAction
  rw [Body.spliceId?_counter]
  rfl

theorem planBody_sameCode {descriptor : InjectDescriptor} {index : Nat} {patch target : MethodDef}
    {carrier : Option (CarrierKind × TypeSig)} {body body' : Body} (code : body.SameCode body') :
    Both InjectPlan.SameCode (context.planBody descriptor index patch target carrier body)
      (context.planBody descriptor index patch target carrier body') := by
  obtain ⟨next, alike⟩ := code
  unfold planBody
  simp only [checkLocals_counter, cancelAction_counter, Body.locate_counter]
  refine .bind_same fun _ _ => .ite (.error _) (.bind_same fun cancel _ => ?_)
  exact .ok (.of _ (.of next alike))

theorem planInject_sameCode (same : state.SameCode other) (descriptor : InjectDescriptor) :
    Both InjectPlan.SameCode (context.planInject descriptor state) (context.planInject descriptor other) := by
  unfold planInject
  refine .bind_same fun patch _ => ?_
  have position := same.type.methodIndex? descriptor.targetMethod
  dsimp only
  rw [position]
  cases state.type.methodIndex? descriptor.targetMethod with
  | none => exact .error _
  | some index =>
      dsimp only
      refine rel_elim (forall₂_getElem? same.type.methods index) (.error _) fun method method' one => ?_
      obtain ⟨name, flags, returns, params, body, attributes⟩ := method
      obtain ⟨_, bodies⟩ := one
      cases bodies with
      | none => exact .error _
      | @some body body' code =>
          refine .ite (.error _) (.ite (.error _) (.ite (.error _) (.bind_same fun carrier _ => ?_)))
          cases carrier with
          | none => exact planBody_sameCode code
          | some pair => exact .ite (.error _) (planBody_sameCode code)

theorem addCarrier_sameCode {body body' : Body} (code : body.SameCode body') (carrier : Option TypeSig) :
    Both (fun left right => left.1 = right.1 ∧ left.2.SameCode right.2) (context.addCarrier body carrier)
      (context.addCarrier body' carrier) := by
  obtain ⟨next, alike⟩ := code
  unfold addCarrier
  cases carrier with
  | none => exact .ok ⟨rfl, .of next alike⟩
  | some carrier =>
      dsimp only
      unfold Body.addLocal
      split
      · exact .ok ⟨rfl, .of next alike⟩
      · exact .error _

/-- Bodies of the same code are the same once code has been spliced in. -/
theorem spliceAll_sameCode {site : CallbackSite} {cancel : CancelAction} {own points : List InstrId} {body body' : Body}
    (code : body.SameCode body') :
    Both Body.SameCode (points.foldlM (splice site cancel own) body) (points.foldlM (splice site cancel own) body') := by
  refine Both.foldlM (fun point _ body body' code => ?_) code
  rw [splice_sameCode code]
  exact .refl fun woven _ => .refl woven

theorem spliceCallback_sameCode (same : state.SameCode other) (descriptor : InjectDescriptor) {plan plan' : InjectPlan}
    (planned : plan.SameCode plan') (callback : MethodDef) {body body' : Body} (code : body.SameCode body') :
    Both PatchState.SameCode (context.spliceCallback descriptor plan callback body state)
      (context.spliceCallback descriptor plan' callback body' other) := by
  obtain ⟨_, ⟨_, -⟩⟩ := planned
  unfold spliceCallback
  refine (context.addCarrier_sameCode code plan.carrier).bind ?_
  rintro ⟨slot, original⟩ ⟨-, original'⟩ ⟨rfl, started⟩
  refine (spliceAll_sameCode started).bind fun woven woven' spliced => ?_
  refine .ok (PatchState.SameCode.note ?_ fun applied => { applied with injections := applied.injections + plan.points.length })
  exact (same.setBody _ spliced.relax).touch _

theorem applyInject_sameCode (same : state.SameCode other) (descriptor : InjectDescriptor) :
    Both PatchState.SameCode (context.applyInject descriptor state) (context.applyInject descriptor other) := by
  unfold applyInject
  refine (context.planInject_sameCode same descriptor).bind fun plan plan' planned => ?_
  have alike : plan'.patch = plan.patch ∧ plan'.index = plan.index ∧ plan'.refs = plan.refs := by
    obtain ⟨body, -⟩ := planned
    exact ⟨rfl, rfl, rfl⟩
  obtain ⟨patch, index, refs⟩ := alike
  dsimp only
  rw [same.methodNames, patch, index, refs]
  have added := (same.see (plan.refs ++ context.home.methodRefs plan.patch)).addTouched (context.ported state plan.patch)
  unfold ported at added
  exact rel_elim (added.type.bodyAt plan.index) (.error _) fun body body' code =>
    context.spliceCallback_sameCode added descriptor planned _ code

end MixinContext

/-- Outcomes that are related, with the same modules known afterwards. -/
inductive BothKnown {ε α β : Type} (related : α → β → Prop) :
    Except ε α × Assemblies → Except ε β × Assemblies → Prop
  | of {left : Except ε α} {right : Except ε β} (known : Assemblies) (both : Both related left right) :
      BothKnown related (left, known) (right, known)

/-- What is to hold of both outcomes holds if it does for a common fault and for related results. -/
@[elab_as_elim]
theorem BothKnown.elim {ε α β : Type} {related : α → β → Prop} {left : Except ε α × Assemblies}
    {right : Except ε β × Assemblies}
    {motive : Except ε α × Assemblies → Except ε β × Assemblies → Prop} (both : BothKnown related left right)
    (error : ∀ fault known, motive (.error fault, known) (.error fault, known))
    (ok : ∀ result result' known, related result result' → motive (.ok result, known) (.ok result', known)) :
    motive left right := by
  obtain ⟨known, both⟩ := both
  exact both.elim (fun fault => error fault known) fun result result' same => ok result result' known same

theorem BothKnown.error {ε α β : Type} {related : α → β → Prop} (fault : ε) (known : Assemblies) :
    BothKnown related (.error fault, known) (.error fault, known) := .of known (.error fault)

namespace MixinEngine

variable {engine : MixinEngine} {context : MixinContext} {target target' : Module} {state state' : PatchState}

/-- The same interface is found in modules of the same code, up to the counters of its methods. -/
theorem resolveInterface_sameCode (same : target.SameCode target') (assemblies : Assemblies) (interface : TypeSig) :
    ∃ found found' known, engine.resolveInterface assemblies target interface = (found, known) ∧
      engine.resolveInterface assemblies target' interface = (found', known) ∧
      (found' = found ∨ ∃ type type', found = some type ∧ found' = some type' ∧ type.SameCode type') := by
  unfold resolveInterface
  cases interface.reference? with
  | none => exact ⟨_, _, _, rfl, rfl, .inl rfl⟩
  | some reference =>
      dsimp only
      refine rel_elim (same.resolveType? reference) ?_ fun type type' alike => ?_
      · exact ⟨_, _, _, rfl, rfl, .inl rfl⟩
      · exact ⟨_, _, _, rfl, rfl, .inr ⟨type, type', rfl, rfl, alike⟩⟩

theorem applyOp_sameCode (code : target.SameCode target') (same : state.SameCode state')
    (assemblies : Assemblies) (op : MixinOp) :
    BothKnown PatchState.SameCode (engine.applyOp context target assemblies state op)
      (engine.applyOp context target' assemblies state' op) := by
  cases op with
  | implements interface =>
      obtain ⟨found, found', known, resolved, resolved', alike⟩ :=
        engine.resolveInterface_sameCode code assemblies interface
      simp only [applyOp, resolved, resolved']
      refine .of known ?_
      rcases alike with rfl | ⟨type, type', rfl, rfl, alike⟩
      · exact context.applyImplements_sameCode same interface _
      · rw [← context.applyImplements_restart interface type', alike.restart, context.applyImplements_restart]
        exact context.applyImplements_sameCode same interface _
  | overwrite index name => exact .of assemblies (context.applyOverwrite_sameCode same index)
  | inject descriptor => exact .of assemblies (context.applyInject_sameCode same descriptor)

theorem applyOps_sameCode (code : target.SameCode target') (same : state.SameCode state')
    (assemblies : Assemblies) (ops : List MixinOp) :
    BothKnown PatchState.SameCode (engine.applyOps context target ops assemblies state)
      (engine.applyOps context target' ops assemblies state') := by
  induction ops generalizing assemblies state state' with
  | nil => exact .of assemblies (.ok same)
  | cons op rest ih =>
      unfold applyOps
      exact (engine.applyOp_sameCode code same assemblies op).elim .error fun _ _ known same => ih same known

theorem subjects_sameCode (code : target.SameCode target') (mixin : MixinDescriptor) :
    Both (fun left right => left.1 = right.1 ∧ left.2.1.SameCode right.2.1 ∧ left.2.2 = right.2.2)
      (engine.subjects target mixin) (engine.subjects target' mixin) := by
  unfold subjects
  dsimp only
  rw [code.typeIndex?]
  cases target.typeIndex? mixin.target.fullName with
  | none => exact .error _
  | some index =>
      dsimp only
      refine rel_elim (forall₂_getElem? code.types index) (.error _) fun type type' alike => ?_
      cases engine.mixinModule.type? mixin.mixinType with
      | none => exact .error _
      | some mixinDef => exact .ok ⟨rfl, alike, rfl⟩

theorem begin_sameCode (code : target.SameCode target') (mixin : MixinDescriptor) {type type' : TypeDef}
    (alike : type.SameCode type')
    (mixinDef : TypeDef) :
    Both (fun left right => left.1.SameCode right.1 ∧ left.2 = right.2 ∧ left.2.mixinDef = mixinDef)
      (engine.begin target mixin type mixinDef) (engine.begin target' mixin type' mixinDef) := by
  obtain ⟨methods, alike⟩ := alike
  obtain ⟨types, -⟩ := code
  refine (MixinContext.mapFields_sameCode (.of methods alike) mixin.fields .empty).bind ?_
  rintro ⟨mapped, fields⟩ ⟨mapped', -⟩ ⟨same, rfl⟩
  exact .ok ⟨same, rfl, rfl⟩

theorem finish_sameCode (code : target.SameCode target') (index : Nat) (home : Rehoming) (references : List TypeRef)
    (same : state.SameCode state') :
    (finish target index home references state).SameCode (finish target' index home references state') := by
  have listed (names : List String) (module : Module) (types : List TypeDef) :
      names.foldl Module.addAssemblyRef { module with types } = { names.foldl Module.addAssemblyRef module with types } := by
    induction names generalizing module with
    | nil => rfl
    | cons name rest ih =>
        have one : Module.addAssemblyRef { module with types } name = { module.addAssemblyRef name with types } := by
          unfold Module.addAssemblyRef
          have known : Module.isKnownAssembly { module with types } name = module.isKnownAssembly name := rfl
          rw [known]
          split <;> rfl
        rw [List.foldl_cons, List.foldl_cons, one, ih]
  obtain ⟨types, alike⟩ := code
  obtain ⟨methods, held⟩ := same
  have placed := forall₂_set alike index (TypeDef.SameCode.of methods held)
  rw [← finish_types target index home references state] at placed
  have other : finish { target with types } index home references { state with type := { state.type with methods } } =
      { finish target index home references state with types := types.set index { state.type with methods } } := by
    unfold finish
    dsimp only
    rw [listed _ target types]
  rw [other]
  exact .of _ placed

/-- A mixin does the same to modules of the same code. -/
theorem apply_sameCode (code : target.SameCode target') (mixin : MixinDescriptor)
    (assemblies : Assemblies) :
    BothKnown (fun left right => left.1 = right.1 ∧ left.2.SameCode right.2) (engine.apply target mixin assemblies)
      (engine.apply target' mixin assemblies) := by
  unfold apply
  refine (engine.subjects_sameCode code mixin).elim (fun fault => .error fault assemblies) ?_
  rintro ⟨index, type, mixinDef⟩ ⟨-, type', -⟩ ⟨rfl, alike, rfl⟩
  dsimp only
  refine (engine.begin_sameCode code mixin alike mixinDef).elim (fun fault => .error fault assemblies) ?_
  rintro ⟨mapped, context⟩ ⟨mapped', -⟩ ⟨same, rfl, rfl⟩
  have seen : mapped'.seen = mapped.seen := by
    obtain ⟨methods, -⟩ := same
    rfl
  have cleared : PatchState.SameCode { mapped with seen := [] } { mapped' with seen := [] } := by
    obtain ⟨methods, held⟩ := same
    exact .of _ held
  dsimp only
  rw [seen]
  refine (engine.applyOps_sameCode code cleared assemblies mixin.ops).elim .error fun last last' known same => ?_
  have applied : last.applied = last'.applied := by
    obtain ⟨methods, -⟩ := same
    rfl
  exact .of known (.ok ⟨applied, finish_sameCode code index context.home mapped.seen same⟩)

end MixinEngine

namespace Weaver

theorem applyAll_sameCode {engine : MixinEngine} (mixins : List MixinDescriptor)
    {target target' : Module} (code : target.SameCode target') (assemblies : Assemblies) :
    BothKnown (fun left right => left.1 = right.1 ∧ left.2.SameCode right.2) (applyAll engine mixins target assemblies)
      (applyAll engine mixins target' assemblies) := by
  induction mixins generalizing target target' assemblies with
  | nil => exact .of assemblies (.ok ⟨rfl, code⟩)
  | cons mixin rest ih =>
      unfold applyAll
      refine (engine.apply_sameCode code mixin assemblies).elim .error ?_
      rintro ⟨applied, middle⟩ ⟨-, middle'⟩ known ⟨rfl, code⟩
      dsimp only
      refine (ih code known).elim .error ?_
      rintro ⟨later, last⟩ ⟨-, last'⟩ reached ⟨rfl, code⟩
      exact .of reached (.ok ⟨rfl, code⟩)

variable (weaver : Weaver) {module : Module}

/-- A weave does the same to modules of the same code. -/
theorem weave_sameCode (code : weaver.target.SameCode module) :
    BothKnown (fun left right => left.1 = right.1 ∧ left.2.SameCode right.2) weaver.weave
      { weaver with target := module }.weave := by
  have name : module.name = weaver.target.name := by
    obtain ⟨types, -⟩ := code
    rfl
  have read : descriptors { weaver with target := module } = weaver.descriptors := rfl
  unfold weave
  rw [read]
  cases weaver.descriptors with
  | error fault => exact .of _ (.error fault)
  | ok mixins =>
      have engine : engine { weaver with target := module } mixins = weaver.engine mixins := rfl
      dsimp only
      rw [engine]
      refine (applyAll_sameCode mixins code weaver.assemblies).elim .error ?_
      rintro ⟨applied, woven⟩ ⟨-, woven'⟩ known ⟨rfl, code⟩
      dsimp only
      refine (Verification.run_sameCode weaver.config code applied).elim (fun fault => .error fault known) ?_
      rintro state _ ⟨final, code⟩
      exact .of known (.ok ⟨by rw [name], code⟩)

/-- The outcome of a weave from modules of the same code, as the weaver keeps it. -/
theorem apply_sameCode (code : weaver.target.SameCode module) :
    { weaver with target := module }.apply.1 = weaver.apply.1 ∧
      { weaver with target := module }.apply.2.assemblies = weaver.apply.2.assemblies ∧
      weaver.apply.2.target.SameCode { weaver with target := module }.apply.2.target := by
  unfold apply
  refine (weaver.weave_sameCode code).elim (fun _ _ => ⟨rfl, rfl, code⟩) ?_
  rintro ⟨report, target⟩ ⟨-, target'⟩ known ⟨rfl, code⟩
  exact ⟨rfl, rfl, code⟩

end Weaver

namespace Weaver

end Weaver

namespace Loop

def number : ParamDef := ⟨"x", .primitive .int32, []⟩

/-- A method whose return leaves three identities above its own. -/
def narrow : MethodDef :=
  { test with params := [number, number, number], body := some ⟨8, true, #[], #[⟨4294967292, .ret, .none⟩], 0⟩ }

/-- A callback that takes four instructions to call. -/
def watch : MethodDef :=
  { enter with
    params := [number, number, number]
    attributes := [marked .inject [.string "System.Void T::Test(System.Int32,System.Int32,System.Int32)", .string "HEAD"]] }

end Loop

end CilWeave
