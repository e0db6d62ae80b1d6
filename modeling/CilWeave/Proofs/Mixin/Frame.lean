import CilWeave.Proofs.Mixin.Closure

/-!
What a weave leaves alone. Types that no mixin is for stay as they are; the others get members behind those they have, and
of their own methods only those that are reported as touched may get another body.
-/

namespace CilWeave

open Stateful

/-- Everything but the body stays, and the body as well unless the method was touched. -/
def MethodDef.Rests (touched : Prop) (method later : MethodDef) : Prop :=
  ∃ body, later = { method with body } ∧ (¬touched → body = method.body)

namespace MethodDef.Rests

variable {touched : Prop} {method middle later : MethodDef}

theorem refl (touched : Prop) (method : MethodDef) : method.Rests touched method := ⟨method.body, rfl, fun _ => rfl⟩

theorem trans (first : method.Rests touched middle) (second : middle.Rests touched later) : method.Rests touched later := by
  obtain ⟨_, rfl, one⟩ := first
  obtain ⟨body, rfl, two⟩ := second
  exact ⟨body, rfl, fun spared => (two spared).trans (one spared)⟩

theorem mono {more : Prop} (rests : method.Rests touched later) (wider : touched → more) : method.Rests more later := by
  obtain ⟨body, same, spared⟩ := rests
  exact ⟨body, same, fun none => spared (mt wider none)⟩

end MethodDef.Rests

/-- A type that may have gained members, and other bodies for the methods of some full names. -/
structure TypeDef.Rests (touched : String → Prop) (type later : TypeDef) : Prop where
  space : later.space = type.space
  name : later.name = type.name
  flags : later.flags = type.flags
  base : later.base = type.base
  attributes : later.attributes = type.attributes
  interfaces : type.interfaces <+: later.interfaces
  fields : type.fields <+: later.fields
  methods : Persist (fun method => method.Rests (touched (method.fullNameIn type.fullName))) type.methods later.methods

namespace TypeDef.Rests

variable {touched : String → Prop} {type middle later : TypeDef}

theorem refl (touched : String → Prop) (type : TypeDef) : type.Rests touched type :=
  ⟨rfl, rfl, rfl, rfl, rfl, List.prefix_rfl, List.prefix_rfl, .refl (fun _ => .refl _ _) _⟩

theorem fullName (rests : type.Rests touched later) : later.fullName = type.fullName := by
  rw [TypeDef.fullName, TypeDef.fullName, TypeDef.ref, TypeDef.ref, rests.space, rests.name]

theorem mono {more : String → Prop} (rests : type.Rests touched later) (wider : ∀ name, touched name → more name) :
    type.Rests more later where
  __ := rests
  methods index method held := by
    obtain ⟨other, there, same⟩ := rests.methods index method held
    exact ⟨other, there, same.mono (wider _)⟩

theorem trans (first : type.Rests touched middle) (second : middle.Rests touched later) : type.Rests touched later where
  space := second.space.trans first.space
  name := second.name.trans first.name
  flags := second.flags.trans first.flags
  base := second.base.trans first.base
  attributes := second.attributes.trans first.attributes
  interfaces := first.interfaces.trans second.interfaces
  fields := first.fields.trans second.fields
  methods index method held := by
    obtain ⟨between, there, one⟩ := first.methods index method held
    obtain ⟨other, last, two⟩ := second.methods index between there
    refine ⟨other, last, one.trans ?_⟩
    obtain ⟨_, rfl, -⟩ := one
    rwa [first.fullName] at two

/-- Another body for the method that is found by a name. -/
theorem modify {name : String} {index : Nat} (named : type.methodIndex? name = some index) (touches : touched name)
    {change : MethodDef → MethodDef} (changes : ∀ method : MethodDef, method.Alike (change method)) :
    type.Rests touched { type with methods := type.methods.modify index change } where
  __ := refl touched type
  methods position method held := by
    rw [List.getElem?_modify, held]
    by_cases here : index = position
    · subst here
      obtain ⟨own, found, called⟩ := TypeDef.methodIndex?_mem named
      cases held.symm.trans found
      obtain ⟨body, other⟩ := changes method
      exact ⟨change method, by simp, body, other, fun spared => absurd (called ▸ touches) spared⟩
    · exact ⟨method, by simp [here], .refl _ _⟩

theorem addMethods (touched : String → Prop) (type : TypeDef) (added : List MethodDef) :
    type.Rests touched { type with methods := type.methods ++ added } where
  __ := refl touched type
  methods := .append (fun _ => .refl _ _) _ _

end TypeDef.Rests

namespace MixinContext

variable {context : MixinContext} {state after : PatchState}

theorem mapField_rests {descriptor : FieldDescriptor} {name : String} {field : FieldRef} (touched : String → Prop)
    (mapped : context.mapField state descriptor = .ok (after, name, field)) : state.type.Rests touched after.type := by
  cases mapField_iff.mp mapped with
  | captured => exact .refl _ _
  | added => exact { TypeDef.Rests.refl touched state.type with fields := List.prefix_append _ _ }

theorem mapFields_rests {descriptors : List FieldDescriptor} {fields mapped : Table FieldRef} (touched : String → Prop)
    (ran : context.mapFields descriptors state fields = .ok (after, mapped)) : state.type.Rests touched after.type :=
  mapFields_preserves (motive := fun later => state.type.Rests touched later.type)
    (fun _ _ _ _ _ one rests => rests.trans (mapField_rests touched one)) (.refl _ _) ran

end MixinContext

theorem Injection.rests (injection : Injection) :
    injection.before.type.Rests (· ∈ injection.after.applied.touched) injection.after.type := by
  obtain ⟨-, -, -, -, -, -, -, type⟩ := injection.accepted
  have touches : injection.descriptor.targetMethod ∈ injection.after.applied.touched := by
    rw [injection.touches.2]
    simp
  -- The callback comes last, so the target is found by its name as before.
  have named : ({ injection.before.type with
      methods := injection.before.type.methods ++ [injection.callback] } : TypeDef).methodIndex?
        injection.descriptor.targetMethod = some injection.index := by
    rw [TypeDef.methodIndex?, List.findIdx?_append]
    exact Option.or_of_isSome (congrArg Option.isSome injection.named) ▸ injection.named
  rw [type]
  exact (TypeDef.Rests.addMethods _ _ [injection.callback]).trans (.modify named touches fun _ => ⟨_, rfl⟩)

namespace MixinEngine

variable {engine : MixinEngine} {context : MixinContext} {target woven : Module} {assemblies known : Assemblies}
  {state after : PatchState} {mixin : MixinDescriptor} {applied : AppliedMixin}

/-- An operation leaves alone what it does not touch. -/
theorem applyOp_rests {op : MixinOp} (applied : engine.applyOp context target assemblies state op = (.ok after, known)) :
    state.type.Rests (· ∈ after.applied.touched) after.type := by
  cases op with
  | implements interface =>
      obtain ⟨_, _, methods, -, -, type, -⟩ := MixinContext.applyImplements_ok (congrArg Prod.fst applied)
      rw [type]
      exact { TypeDef.Rests.addMethods (· ∈ after.applied.touched) state.type methods with
        interfaces := TypeDef.interfacesWith_prefix _ _ }
  | overwrite index name =>
      obtain ⟨_, _, position, _, -, -, named, -, -, type, touches, -⟩ :=
        MixinContext.applyOverwrite_ok (congrArg Prod.fst applied)
      rw [type]
      refine .modify named ?_ fun _ => ⟨_, rfl⟩
      rw [touches.2]
      simp
  | inject descriptor =>
      obtain ⟨injection, rfl, rfl, rfl, rfl⟩ := Injection.of_applied (congrArg Prod.fst applied)
      exact injection.rests

/-- A mixin leaves alone what it does not touch. -/
theorem apply_rests (accepted : engine.apply target mixin assemblies = (.ok (applied, woven), known)) :
    applied.targetType = mixin.target.fullName ∧
      ∃ (place : Nat) (type later : TypeDef), target.types[place]? = some type ∧ type.fullName = mixin.target.fullName ∧
        type.Rests (· ∈ applied.touched) later ∧ woven.types = target.types.set place later := by
  obtain ⟨index, type, mixinDef, mapped, context, final, subjects, begun, ran, rfl, rfl⟩ := apply_ok accepted
  obtain ⟨-, held, -⟩ := subjects_ok subjects
  obtain ⟨fields, -, fieldsMapped⟩ := begin_mapped begun
  have account := (MixinContext.mapFields_methods fieldsMapped).2
  have begins : type.Rests (· ∈ mapped.applied.touched) mapped.type := MixinContext.mapFields_rests _ fieldsMapped
  have kept : final.applied.targetType = mapped.applied.targetType ∧
    type.Rests (· ∈ final.applied.touched) final.type := by
    refine applyOps_preserves (motive := fun state => state.applied.targetType = mapped.applied.targetType ∧
      type.Rests (· ∈ state.applied.touched) state.type) ?_ (by exact ⟨rfl, begins⟩) ran
    rintro earlier op later state after between reached split before one ⟨targetType, rests⟩
    obtain ⟨added, advances⟩ := applyOp_advances one
    exact ⟨advances.targetType.trans targetType, (rests.mono advances.touched).trans (applyOp_rests one)⟩
  refine ⟨kept.1.trans ?_, index, type, final.type, held, subjects_fullName subjects, kept.2, finish_types _ _ _ _ _⟩
  rw [account]

end MixinEngine

/-- A method that is found has a type, which is found as well. -/
theorem Module.place?_ok {module : Module} {typeName name : String} {place index : Nat}
    (found : module.place? typeName name = some (place, index)) :
    ∃ type, module.typeIndex? typeName = some place ∧ module.types[place]? = some type ∧ type.fullName = typeName ∧
      type.methodIndex? name = some index := by
  obtain ⟨other, named⟩ := Option.ne_none_iff_exists'.mp (typeIndex?_of_place? found)
  obtain ⟨type, held, first⟩ := type?_of_place named
  rw [place?_of_held named held] at found
  obtain ⟨_, method, same⟩ := Option.map_eq_some_iff.mp found
  cases same
  exact ⟨type, named, held, type?_fullName first, method⟩

/-- Types that none of the mixins was for are as they were, and of the others stays what the mixins did not touch. The
assemblies that were listed come first. -/
structure Module.Rests (applied : List AppliedMixin) (module later : Module) : Prop where
  name : later.name = module.name
  assemblyRefs : module.assemblyRefs <+: later.assemblyRefs
  count : later.types.length = module.types.length
  types : Persist (fun type other =>
    type.Rests (fun name => ∃ mixin ∈ applied, mixin.targetType = type.fullName ∧ name ∈ mixin.touched) other ∧
      ((∀ mixin ∈ applied, mixin.targetType ≠ type.fullName) → other = type)) module.types later.types

namespace Module.Rests

variable {applied : List AppliedMixin} {module middle later : Module}

theorem refl (applied : List AppliedMixin) (module : Module) : module.Rests applied module :=
  ⟨rfl, List.prefix_rfl, rfl, .refl (fun _ => ⟨.refl _ _, fun _ => rfl⟩) _⟩

theorem mono {more : List AppliedMixin} (rests : module.Rests applied later) (wider : applied ⊆ more) :
    module.Rests more later where
  __ := rests
  types place type held := by
    obtain ⟨other, there, kept, same⟩ := rests.types place type held
    refine ⟨other, there, kept.mono ?_, fun spared => same fun mixin member => spared mixin (wider member)⟩
    rintro name ⟨mixin, member, touched⟩
    exact ⟨mixin, wider member, touched⟩

theorem trans (first : module.Rests applied middle) (second : middle.Rests applied later) : module.Rests applied later where
  name := second.name.trans first.name
  assemblyRefs := first.assemblyRefs.trans second.assemblyRefs
  count := second.count.trans first.count
  types place type held := by
    obtain ⟨between, there, kept, same⟩ := first.types place type held
    obtain ⟨other, last, more, again⟩ := second.types place between there
    rw [kept.fullName] at more again
    exact ⟨other, last, kept.trans more, fun spared => (again spared).trans (same spared)⟩

/-- A touched method gets its depth written down. -/
theorem resize {mixin : AppliedMixin} (member : mixin ∈ applied) {name : String} (touched : name ∈ mixin.touched)
    {place index : Nat} (found : module.place? mixin.targetType name = some (place, index)) (depth : UInt16) :
    module.Rests applied (module.resize place index depth) := by
  refine ⟨rfl, List.prefix_rfl, List.length_modify .., fun position type held => ?_⟩
  rw [Module.resize, List.getElem?_modify, held]
  by_cases here : place = position
  · subst here
    obtain ⟨own, -, there, called, method⟩ := Module.place?_ok found
    cases held.symm.trans there
    have sized (method : MethodDef) : method.Alike (method.withMaxStack depth) := ⟨_, rfl⟩
    refine ⟨_, by simp, .modify method ⟨mixin, member, called.symm, touched⟩ sized, fun spared => ?_⟩
    exact absurd called.symm (spared mixin member)
  · exact ⟨type, by simp [here], .refl _ _, fun _ => rfl⟩

end Module.Rests

theorem MixinEngine.apply_leaves {engine : MixinEngine} {target woven : Module} {mixin : MixinDescriptor}
    {assemblies known : Assemblies} {applied : AppliedMixin}
    (accepted : engine.apply target mixin assemblies = (.ok (applied, woven), known)) : target.Rests [applied] woven := by
  obtain ⟨targetType, place, type, later, held, called, rests, placed⟩ := apply_rests accepted
  have adds := (apply_continues accepted).adds
  obtain ⟨added, refs, -⟩ := adds.refs
  refine ⟨adds.name, refs ▸ List.prefix_append _ _, by rw [placed, List.length_set], ?_⟩
  rw [placed]
  refine .set (fun _ => ⟨.refl _ _, fun _ => rfl⟩) held ⟨rests.mono ?_, fun spared => ?_⟩
  · intro name touched
    exact ⟨applied, List.mem_singleton_self _, targetType.trans called.symm, touched⟩
  · exact absurd (targetType.trans called.symm) (spared applied (List.mem_singleton_self _))

namespace Verification

variable {config : WeaveConfig} {state after : Verification} {typeName name : String}

/-- A name that is verified changes nothing but the depth that is written down for the method it finds. -/
theorem method_resizes (verified : method config typeName state name = .ok after) :
    after.module = state.module ∨ ∃ place index depth, state.module.place? typeName name = some (place, index) ∧
      after.module = state.module.resize place index depth := by
  have step := method_step config typeName state name
  rw [verified] at step
  cases step with
  | absent | known | missing | unknown => exact .inl rfl
  | sized found named _ _ =>
      obtain ⟨place, there, held, same⟩ := Module.place_of_type? found
      exact .inr ⟨place, _, _, by rw [Module.place?_of_held there held, named]; rfl, same _⟩

theorem run_rests {module : Module} {applied : List AppliedMixin} (ran : run config module applied = .ok after) :
    module.Rests applied after.module := by
  refine run_keeps (motive := fun state => module.Rests applied state.module) ?_ (.refl _ _) ran
  intro mixin member name touched before after rests verified
  rcases method_resizes verified with same | ⟨place, index, depth, found, same⟩
  · exact same ▸ rests
  · exact same ▸ rests.trans (.resize member touched found depth)

end Verification

namespace Weaver

variable {weaver after : Weaver} {report : WeaveReport}

theorem applyAll_rests {engine : MixinEngine} {mixins : List MixinDescriptor} {target woven : Module}
    {assemblies known : Assemblies} {applied : List AppliedMixin}
    (ran : applyAll engine mixins target assemblies = (.ok (applied, woven), known)) :
    applied.map (·.targetType) = mixins.map (·.target.fullName) ∧ target.Rests applied woven := by
  induction mixins generalizing target assemblies applied with
  | nil =>
      cases ran
      exact ⟨rfl, .refl _ _⟩
  | cons mixin rest ih =>
      obtain ⟨one, others, middle, between, rfl, first, ran⟩ := applyAll_cons ran
      obtain ⟨names, rests⟩ := ih ran
      have own : target.Rests (one :: others) middle := (MixinEngine.apply_leaves first).mono (by simp)
      refine ⟨?_, own.trans (rests.mono (List.subset_cons_self _ _))⟩
      rw [List.map_cons, List.map_cons, names, (MixinEngine.apply_rests first).1]

/-- What an accepted weave reports and leaves. -/
theorem apply_reports (accepted : weaver.apply = (.ok report, after)) :
    ∃ mixins applied woven known outcome, weaver.descriptors = .ok mixins ∧
      applyAll (weaver.engine mixins) mixins weaver.target weaver.assemblies = (.ok (applied, woven), known) ∧
      Verification.run weaver.config woven applied = .ok outcome ∧
      report = ⟨weaver.target.name, applied, outcome.verified, outcome.unverified⟩ ∧
      after = { weaver with target := outcome.module, assemblies := known } := by
  obtain ⟨mixins, applied, woven, known, outcome, read, ran, verified, -⟩ := apply_woven accepted
  refine ⟨mixins, applied, woven, known, outcome, read, ran, verified, ?_⟩
  simp only [apply, weave, read, ran, verified, Prod.mk.injEq, Except.ok.injEq] at accepted
  exact ⟨accepted.1.symm, accepted.2.symm⟩

/-- Mixins that can be applied one after the other are woven if what they leave can be verified. -/
theorem apply_accepts {mixins : List MixinDescriptor} {applied : List AppliedMixin} {woven : Module} {known : Assemblies}
    {outcome : Verification} (read : weaver.descriptors = .ok mixins)
    (ran : applyAll (weaver.engine mixins) mixins weaver.target weaver.assemblies = (.ok (applied, woven), known))
    (verified : Verification.run weaver.config woven applied = .ok outcome) :
    weaver.apply = (.ok ⟨weaver.target.name, applied, outcome.verified, outcome.unverified⟩,
      { weaver with target := outcome.module, assemblies := known }) := by
  simp only [apply, weave, read, ran, verified]

/-- Mixins that are read in the order of their priorities stay in it. -/
theorem descriptors_of_sorted {mixins : List MixinDescriptor}
    (read : (weaver.config.mixinDescriptors weaver.mixins).toOption = some mixins)
    (sorted : mixins.Pairwise fun left right => decide (right.priority ≤ left.priority) = true) :
    weaver.descriptors = .ok mixins := by
  rw [descriptors, ok_of_toOption read]
  exact congrArg Except.ok (List.mergeSort_of_pairwise sorted)

/-- A weave changes nothing that it does not report: the module and its types keep their names and places, types that no
mixin is for stay as they are, and the others keep what they had in front of what they gain, with the bodies of all methods
that no mixin touched. -/
theorem keeps_unreported (accepted : weaver.apply = (.ok report, after)) :
    ∃ mixins, weaver.descriptors = .ok mixins ∧
      report.mixins.map (·.targetType) = mixins.map (·.target.fullName) ∧
      weaver.target.Rests report.mixins after.target := by
  obtain ⟨mixins, applied, woven, known, outcome, read, ran, verified, rfl, rfl⟩ := apply_reports accepted
  obtain ⟨names, rests⟩ := applyAll_rests ran
  exact ⟨mixins, read, names, rests.trans (Verification.run_rests verified)⟩

end Weaver

namespace Leak

theorem keeps_unreported_poke :
    weaver.apply = (.ok report, after) ∧ ∃ mixins, weaver.descriptors = .ok mixins ∧
      report.mixins.map (·.targetType) = mixins.map (·.target.fullName) ∧ weaver.target.Rests report.mixins after.target :=
  ⟨accepted, Weaver.keeps_unreported accepted⟩

end Leak

end CilWeave
