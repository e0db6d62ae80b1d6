import Mathlib.Data.List.Induction
import CilWeave.Proofs.Mixin.Resolution

/-!
What each operation of a mixin makes of the methods of its target type, and an induction over whole weaves:
what holds of the target's methods and is kept by each operation holds of the woven module's methods.
-/

namespace CilWeave

open Stateful

namespace MixinContext

variable {context : MixinContext} {state after : PatchState}

/-- The methods for an interface are methods of the mixin, moved onto the type. -/
theorem portInterfaceMethods_mem {interface : TypeDef} {expected methods : List MethodDef}
    (ported : context.portInterfaceMethods interface expected state = .ok (after, methods)) :
    ∀ method ∈ methods, ∃ patch ∈ context.mixinDef.methods, patch.body.isSome = true ∧
      method = context.home.method patch patch.name .interfaceImplementation := by
  obtain ⟨answers, implemented⟩ := portInterfaceMethods_ok ported
  intro method member
  rw [implemented.made] at member
  obtain ⟨⟨asked, patch⟩, among, rfl⟩ := List.mem_map.mp member
  obtain ⟨found, defined⟩ := implemented.answered _ among
  have name := List.find?_some found
  simp only [Bool.and_eq_true, beq_iff_eq] at name
  exact ⟨patch, List.mem_of_find?_eq_some found, defined, by rw [name.1]⟩

theorem mapField_methods {descriptor : FieldDescriptor} {name : String} {field : FieldRef}
    (mapped : context.mapField state descriptor = .ok (after, name, field)) :
    after.type.methods = state.type.methods ∧
    after.applied = { state.applied with fieldsAdded := after.applied.fieldsAdded } := by
  cases mapField_iff.mp mapped <;> exact ⟨rfl, rfl⟩

/-- Fields are mapped without a change to the methods. -/
theorem mapFields_methods {descriptors : List FieldDescriptor} {fields mapped : Table FieldRef}
    (ran : context.mapFields descriptors state fields = .ok (after, mapped)) :
    after.type.methods = state.type.methods ∧
    after.applied = { state.applied with fieldsAdded := after.applied.fieldsAdded } := by
  refine mapFields_preserves (motive := fun later => later.type.methods = state.type.methods ∧
    later.applied = { state.applied with fieldsAdded := later.applied.fieldsAdded }) ?_ ⟨rfl, rfl⟩ ran
  intro descriptor before later name field one kept
  obtain ⟨methods, applied⟩ := mapField_methods one
  exact ⟨methods.trans kept.1, by rw [applied, kept.2]⟩

/-- How a method of the type after an operation comes about. -/
inductive Makes (context : MixinContext) (op : MixinOp) (state after : PatchState) : MethodDef → Prop
  | kept {method : MethodDef} : method ∈ state.type.methods → Makes context op state after method
  | implementation {interface : TypeSig} {patch : MethodDef} : op = .implements interface →
      patch ∈ context.mixinDef.methods → patch.body.isSome = true →
      Makes context op state after (context.home.method patch patch.name .interfaceImplementation)
  | overwritten {index position : Nat} {name : String} {target patch : MethodDef} {body : Body} : op = .overwrite index name →
      patch ∈ context.mixinDef.methods → patch.body = some body →
      state.type.methodIndex? (context.overwrittenName patch) = some position →
      state.type.methods[position]? = some target → target.isStatic = patch.isStatic →
      Makes context op state after { target with body := some (context.home.body body) }
  | callback (injection : Injection) : op = .inject injection.descriptor → injection.context = context →
      injection.before = state → injection.after = after → Makes context op state after injection.callback
  | injected (injection : Injection) : op = .inject injection.descriptor → injection.context = context →
      injection.before = state → injection.after = after →
      Makes context op state after { injection.target with body := some injection.woven }

end MixinContext

/-- Where an item of a list comes from in which one place was changed. -/
theorem mem_modify {α : Type} {change : α → α} {items : List α} {position : Nat} {result : α}
    (member : result ∈ items.modify position change) :
    result ∈ items ∨ ∃ item, items[position]? = some item ∧ result = change item := by
  obtain ⟨index, found⟩ := List.getElem?_of_mem member
  rw [List.getElem?_modify] at found
  obtain ⟨old, there, rfl⟩ := Option.map_eq_some_iff.mp found
  split
  · rename_i here
    subst here
    exact .inr ⟨old, there, rfl⟩
  · exact .inl (List.mem_of_getElem? there)

namespace MixinEngine

variable {engine : MixinEngine} {context : MixinContext} {target : Module} {assemblies known : Assemblies}
  {state after : PatchState}

/-- Every method of the type after an operation comes about in one of these ways. -/
theorem applyOp_makes {op : MixinOp}
    (applied : engine.applyOp context target assemblies state op = (.ok after, known)) :
    ∀ method ∈ after.type.methods, context.Makes op state after method := by
  cases op with
  | implements interface =>
      obtain ⟨found, middle, methods, -, ported, type, -⟩ :=
        MixinContext.applyImplements_ok (congrArg Prod.fst applied)
      intro method member
      rw [type] at member
      rcases List.mem_append.mp member with old | new
      · exact .kept old
      · obtain ⟨patch, listed, defined, rfl⟩ := MixinContext.portInterfaceMethods_mem ported method new
        exact .implementation rfl listed defined
  | overwrite index name =>
      obtain ⟨patch, body, position, target, patched, defined, named, held, static, type, -⟩ :=
        MixinContext.applyOverwrite_ok (congrArg Prod.fst applied)
      intro method member
      rw [type] at member
      rcases mem_modify member with old | ⟨same, there, rfl⟩
      · exact .kept old
      · cases held.symm.trans there
        exact .overwritten rfl (List.mem_of_getElem? patched) defined named held static
  | inject descriptor =>
      obtain ⟨injection, rfl, rfl, rfl, rfl⟩ := Injection.of_applied (congrArg Prod.fst applied)
      obtain ⟨-, -, -, -, spliced, -, -, type⟩ := injection.accepted
      intro method member
      rw [type] at member
      have held : (injection.before.type.methods ++ [injection.callback])[injection.index]? = some injection.target := by
        rw [List.getElem?_append_left (List.getElem?_eq_some_iff.mp injection.held).1, injection.held]
      rcases mem_modify member with old | ⟨same, there, rfl⟩
      · rcases List.mem_append.mp old with old | new
        · exact .kept old
        · rw [List.mem_singleton.mp new]
          exact .callback injection rfl rfl rfl rfl
      · cases held.symm.trans there
        exact .injected injection rfl rfl rfl rfl

/-- An operation is one of a mixin's, on the type as the operations before it leave it. -/
def Works (engine : MixinEngine) (target : Module) (mixin : MixinDescriptor) (assemblies : Assemblies)
    (context : MixinContext) (op : MixinOp) (state after : PatchState) : Prop :=
  ∃ index type mixinDef mapped earlier later between known, engine.subjects target mixin = .ok (index, type, mixinDef) ∧
    engine.begin target mixin type mixinDef = .ok (mapped, context) ∧ mixin.ops = earlier ++ op :: later ∧
    engine.applyOps context target earlier assemblies { mapped with seen := [] } = (.ok state, between) ∧
    engine.applyOp context target between state op = (.ok after, known)

variable {mixin : MixinDescriptor} {applied : AppliedMixin} {woven : Module}

theorem Works.injects {injection : Injection} {after : PatchState}
    (works : engine.Works target mixin assemblies injection.context (.inject injection.descriptor) injection.before after) :
    engine.Injects target mixin assemblies injection := by
  obtain ⟨index, type, mixinDef, mapped, earlier, later, between, known, subjects, begun, split, first, -⟩ := works
  exact ⟨index, type, mixinDef, mapped, between, earlier, later, subjects, begun, split, first⟩

section

variable {motive : PatchState → Prop} {ops : List MixinOp} {start : PatchState}
  (step : ∀ earlier op later state after between known, ops = earlier ++ op :: later →
    engine.applyOps context target earlier assemblies start = (.ok state, between) →
    engine.applyOp context target between state op = (.ok after, known) → motive state → motive after)
  (begins : motive start)

include step begins

/-- What each operation keeps holds after any of them. -/
theorem applyOps_reaches {done later : List MixinOp} {between : Assemblies} (split : ops = done ++ later)
    (ran : engine.applyOps context target done assemblies start = (.ok state, between)) : motive state := by
  induction done using List.reverseRecOn generalizing later state between with
  | nil =>
      cases ran
      exact begins
  | append_singleton done op ih =>
      rw [List.append_assoc] at split
      obtain ⟨middle, next, earlier, last⟩ := applyOps_append ran
      obtain ⟨result, final, one, rest⟩ := applyOps_cons last
      cases rest
      exact step done op later middle state next between split earlier one (ih split earlier)

/-- What each operation keeps, all of them keep. -/
theorem applyOps_preserves (ran : engine.applyOps context target ops assemblies start = (.ok after, known)) :
    motive after := applyOps_reaches step begins (List.append_nil ops).symm ran

end

end MixinEngine

/-- What holds of every method. -/
def Module.EachMethod (module : Module) (holds : MethodDef → Prop) : Prop :=
  ∀ type ∈ module.types, ∀ method ∈ type.methods, holds method

namespace MixinEngine

variable {engine : MixinEngine} {target woven : Module} {mixin : MixinDescriptor} {assemblies known : Assemblies}
  {applied : AppliedMixin}

/-- The context of a mixin's operations: that of its fields, which have been mapped. -/
theorem begin_mapped {type mixinDef : TypeDef} {mapped : PatchState} {context : MixinContext}
    (begun : engine.begin target mixin type mixinDef = .ok (mapped, context)) :
    ∃ fields, context = ⟨mixin, mixinDef, mixin.target.fullName, type.sig,
        ⟨engine.config, engine.mixinModule.name, target.name, mixin.mixinType, engine.types, fields⟩⟩ ∧
      MixinContext.mapFields ⟨mixin, mixinDef, mixin.target.fullName, type.sig,
          ⟨engine.config, engine.mixinModule.name, target.name, mixin.mixinType, engine.types, .empty⟩⟩
        mixin.fields ⟨type, ⟨mixin.mixinType, mixin.target.fullName, 0, 0, 0, 0, []⟩, []⟩ .empty =
          .ok (mapped, fields) := by
  unfold begin at begun
  obtain ⟨⟨state, fields⟩, ran, begun⟩ := bind_ok begun
  cases begun
  exact ⟨fields, rfl, ran⟩

section

variable {holds : MethodDef → Prop}
  (step : ∀ context op state after method, engine.Works target mixin assemblies context op state after →
    context.Makes op state after method → (∀ earlier ∈ state.type.methods, holds earlier) → holds method)
  (each : target.EachMethod holds)

include step each

/-- What holds of a module's methods and is kept by each operation of a mixin holds when some of them have been applied. -/
theorem reaches_methods {index : Nat} {type mixinDef : TypeDef} {mapped state : PatchState} {context : MixinContext}
    {done later : List MixinOp} {between : Assemblies} (subjects : engine.subjects target mixin = .ok (index, type, mixinDef))
    (begun : engine.begin target mixin type mixinDef = .ok (mapped, context)) (split : mixin.ops = done ++ later)
    (ran : engine.applyOps context target done assemblies { mapped with seen := [] } = (.ok state, between)) :
    ∀ method ∈ state.type.methods, holds method := by
  obtain ⟨-, held, -⟩ := subjects_ok subjects
  have own : ∀ method ∈ type.methods, holds method := each type (List.mem_of_getElem? held)
  obtain ⟨fields, -, fieldsMapped⟩ := begin_mapped begun
  have same : mapped.type.methods = type.methods := (MixinContext.mapFields_methods fieldsMapped).1
  refine applyOps_reaches (motive := fun state => ∀ method ∈ state.type.methods, holds method) ?_ ?_ split ran
  · intro earlier op later state after between reached split before one kept method member
    exact step context op state after method
      ⟨index, type, mixinDef, mapped, earlier, later, between, reached, subjects, begun, split, before, one⟩
      (applyOp_makes one method member) kept
  · exact fun method member => own method (same ▸ member)

/-- What holds of a module's methods and is kept by each operation of a mixin holds of the methods of the module with
the mixin applied. -/
theorem apply_preserves (accepted : engine.apply target mixin assemblies = (.ok (applied, woven), known)) :
    woven.EachMethod holds := by
  obtain ⟨index, type, mixinDef, mapped, context, final, subjects, begun, ran, -, rfl⟩ := apply_ok accepted
  have all := reaches_methods step each subjects begun (List.append_nil _).symm ran
  intro other listed method member
  rw [finish_types] at listed
  rcases List.mem_or_eq_of_mem_set listed with old | rfl
  · exact each other old method member
  · exact all method member

end

end MixinEngine

namespace Weaver

variable {weaver after : Weaver} {mixins : List MixinDescriptor} {woven : Module} {known : Assemblies}
  {applied : List AppliedMixin}

/-- An operation is one of a weave's, on the type as everything before it leaves it. -/
def Works (weaver : Weaver) (mixins : List MixinDescriptor) (context : MixinContext) (op : MixinOp)
    (state after : PatchState) : Prop :=
  ∃ earlier mixin later applied middle between, mixins = earlier ++ mixin :: later ∧
    applyAll (weaver.engine mixins) earlier weaver.target weaver.assemblies = (.ok (applied, middle), between) ∧
    (weaver.engine mixins).Works middle mixin between context op state after

theorem Works.injects {injection : Injection} {after : PatchState}
    (works : weaver.Works mixins injection.context (.inject injection.descriptor) injection.before after) :
    weaver.Injects mixins injection := by
  obtain ⟨earlier, mixin, later, applied, middle, between, split, before, works⟩ := works
  exact ⟨earlier, mixin, later, applied, middle, between, split, before, works.injects⟩

theorem Works.mixinDef {context : MixinContext} {op : MixinOp} {state after : PatchState}
    (works : weaver.Works mixins context op state after) : context.mixinDef ∈ weaver.mixins.types := by
  obtain ⟨-, mixin, -, -, middle, between, -, -, index, type, mixinDef, mapped, -, -, -, -, subjects, begun, -⟩ := works
  obtain ⟨fields, rfl, -⟩ := MixinEngine.begin_mapped begun
  exact List.mem_of_find?_eq_some (MixinEngine.subjects_ok subjects).2.2

section

variable {motive : List AppliedMixin → Module → Prop} (begins : motive [] weaver.target)
  (step : ∀ earlier mixin later applied one target middle between known, mixins = earlier ++ mixin :: later →
    applyAll (weaver.engine mixins) earlier weaver.target weaver.assemblies = (.ok (applied, target), between) →
    (weaver.engine mixins).apply target mixin between = (.ok (one, middle), known) → motive applied target →
    motive (applied ++ [one]) middle)

include begins step

/-- What each mixin keeps holds after any of them. -/
theorem applyAll_reaches {done later : List MixinDescriptor} {target : Module} {between : Assemblies}
    (split : mixins = done ++ later)
    (ran : applyAll (weaver.engine mixins) done weaver.target weaver.assemblies = (.ok (applied, target), between)) :
    motive applied target := by
  induction done using List.reverseRecOn generalizing later applied target between with
  | nil =>
      cases ran
      exact begins
  | append_singleton done mixin ih =>
      rw [List.append_assoc] at split
      obtain ⟨first, last, middle, next, rfl, earlier, ran⟩ := applyAll_append ran
      obtain ⟨one, others, result, final, rfl, accepted, rest⟩ := applyAll_cons ran
      cases rest
      exact step done mixin later first one middle target next between split earlier accepted (ih split earlier)

end

section

variable {holds : MethodDef → Prop}
  (step : ∀ context op state after method, weaver.Works mixins context op state after →
    context.Makes op state after method → (∀ earlier ∈ state.type.methods, holds earlier) → holds method)
  (each : weaver.target.EachMethod holds)

include step each

/-- What holds of the target's methods and is kept by each operation holds of all methods after any mixin. -/
theorem applyAll_reaches_methods {done later : List MixinDescriptor} {target : Module} {between : Assemblies}
    (split : mixins = done ++ later)
    (ran : applyAll (weaver.engine mixins) done weaver.target weaver.assemblies = (.ok (applied, target), between)) :
    target.EachMethod holds := by
  refine applyAll_reaches (motive := fun _ module => module.EachMethod holds) each ?_ split ran
  intro earlier mixin later applied one target middle between known split before accepted kept
  exact MixinEngine.apply_preserves (fun context op state after method works =>
    step context op state after method ⟨earlier, mixin, later, applied, target, between, split, before, works⟩)
      kept accepted

/-- What holds of the target's methods and is kept by each operation holds of all methods before they are verified. -/
theorem applyAll_preserves_methods
    (ran : applyAll (weaver.engine mixins) mixins weaver.target weaver.assemblies = (.ok (applied, woven), known)) :
    woven.EachMethod holds := applyAll_reaches_methods step each (List.append_nil mixins).symm ran

/-- What holds of the target's methods and is kept by each operation holds of the methods that each operation finds. -/
theorem Works.reaches_methods {context : MixinContext} {op : MixinOp} {state after : PatchState}
    (works : weaver.Works mixins context op state after) : ∀ method ∈ state.type.methods, holds method := by
  obtain ⟨earlier, mixin, later, applied, middle, between, split, before, index, type, mixinDef, mapped, done, rest, reached,
    known, subjects, begun, ops, ran, -⟩ := works
  have kept := applyAll_reaches_methods step each split before
  exact MixinEngine.reaches_methods (fun context op state after method works =>
    step context op state after method ⟨earlier, mixin, later, applied, middle, between, split, before, works⟩) kept
    subjects begun ops ran

end

end Weaver

namespace Verification

variable {holds : MethodDef → Prop} {config : WeaveConfig}
  (sized : ∀ method depth, holds method → holds (method.withMaxStack depth))

include sized

/-- What a method keeps when its depth is written down, each of a module's methods keeps when a name is verified. -/
theorem method_preserves {state after : Verification} {typeName name : String} (each : state.module.EachMethod holds)
    (verified : method config typeName state name = .ok after) : after.module.EachMethod holds := by
  rcases method_ok verified with same | ⟨index, depth, same⟩
  · exact same ▸ each
  · rw [same, Module.modifyType]
    split
    · intro type listed method member
      rcases mem_modify listed with old | ⟨old, among, rfl⟩
      · exact each type old method member
      · have own := each old (List.mem_of_getElem? among)
        rcases mem_modify member with same | ⟨same, there, rfl⟩
        · exact own method same
        · exact sized _ _ (own same (List.mem_of_getElem? there))
    · exact each

/-- What a method keeps when its depth is written down, each of a module's methods keeps when some are verified. -/
theorem run_preserves {module : Module} {applied : List AppliedMixin} {outcome : Verification}
    (each : module.EachMethod holds) (ran : run config module applied = .ok outcome) : outcome.module.EachMethod holds :=
  run_keeps (motive := fun state => state.module.EachMethod holds)
    (fun _ _ _ _ _ _ kept verified => method_preserves sized kept verified) each ran

end Verification

/-- What holds of the target's methods, is kept by each operation and when a depth is written down holds of all
methods of an accepted weave. -/
theorem Weaver.apply_preserves {weaver after : Weaver} {report : WeaveReport} {holds : MethodDef → Prop}
    (step : ∀ mixins context op state after method, weaver.descriptors = .ok mixins →
      weaver.Works mixins context op state after → context.Makes op state after method →
      (∀ earlier ∈ state.type.methods, holds earlier) → holds method)
    (sized : ∀ method depth, holds method → holds (method.withMaxStack depth)) (each : weaver.target.EachMethod holds)
    (accepted : weaver.apply = (.ok report, after)) : after.target.EachMethod holds := by
  obtain ⟨mixins, applied, woven, known, outcome, read, ran, verified, same⟩ := apply_woven accepted
  have before := applyAll_preserves_methods (fun context op state after method =>
    step mixins context op state after method read) each ran
  exact same ▸ Verification.run_preserves sized before verified

end CilWeave
