import CilWeave.Proofs.Mixin.Operations

/-!
What a weave touches is found by its name when it is verified. Methods keep their places and names, and
their bodies if they had any, so a name that finds a method with a body finds one ever after.
-/

namespace CilWeave

open Stateful

/-- The same method, with a body if it had one. -/
def MethodDef.Keeps (method later : MethodDef) : Prop :=
  method.Alike later ∧ (method.body.isSome = true → later.body.isSome = true)

theorem MethodDef.Keeps.refl (method : MethodDef) : method.Keeps method := ⟨.refl method, id⟩

theorem MethodDef.Keeps.trans (first second third : MethodDef) (one : first.Keeps second) (two : second.Keeps third) :
    first.Keeps third := ⟨one.1.trans _ _ _ two.1, two.2 ∘ one.2⟩

theorem MethodDef.Keeps.setBody (body : Body) (method : MethodDef) : method.Keeps { method with body := some body } :=
  ⟨⟨some body, rfl⟩, fun _ => rfl⟩

/-- A type of the same name whose methods are still there, with bodies if they had them. -/
structure TypeDef.Keeps (type later : TypeDef) : Prop where
  fullName : later.fullName = type.fullName
  methods : Persist MethodDef.Keeps type.methods later.methods

theorem TypeDef.Keeps.refl (type : TypeDef) : type.Keeps type := ⟨rfl, .refl .refl _⟩

theorem TypeDef.Keeps.trans (type middle later : TypeDef) (first : type.Keeps middle) (second : middle.Keeps later) :
    type.Keeps later :=
  ⟨second.fullName.trans first.fullName, .trans MethodDef.Keeps.trans first.methods second.methods⟩

/-- The type has a method of that full name, and the one that is found has a body. -/
def TypeDef.Has (type : TypeDef) (name : String) : Prop :=
  ∃ method, type.method? name = some method ∧ method.body.isSome = true

/-- The type of that name has a method of that full name, and the one that is found has a body. -/
def Module.Has (module : Module) (typeName name : String) : Prop :=
  ∃ type, module.type? typeName = some type ∧ type.Has name

theorem TypeDef.Keeps.has {type later : TypeDef} (keeps : type.Keeps later) {name : String} (has : type.Has name) :
    later.Has name := by
  obtain ⟨method, found, some⟩ := has
  have blind : ∀ method later : MethodDef, method.Keeps later →
      (later.fullNameIn type.fullName == name) = (method.fullNameIn type.fullName == name) := by
    rintro method later ⟨⟨body, rfl⟩, -⟩
    rfl
  obtain ⟨other, there, kept⟩ := keeps.methods.find? blind found
  refine ⟨other, ?_, kept.2 some⟩
  rw [TypeDef.method?, keeps.fullName]
  exact there

/-- The method that is found by a full name is the one at its index. -/
theorem TypeDef.method?_of_index {type : TypeDef} {name : String} {index : Nat} {method : MethodDef}
    (named : type.methodIndex? name = some index) (held : type.methods[index]? = some method) :
    type.method? name = some method := by
  obtain ⟨inside, found, before⟩ := List.findIdx?_eq_some_iff_getElem.mp named
  have there := (List.getElem?_eq_some_iff.mp held).2
  rw [there] at found
  exact List.find?_eq_some_iff_getElem.mpr ⟨found, index, inside, there,
    fun earlier less => by simpa using before earlier less⟩

/-- A type whose methods have only grown finds a method by its name in the place that it has. -/
theorem TypeDef.Keeps.method?_of_index {type later : TypeDef} (keeps : type.Keeps later) {name : String} {index : Nat}
    (named : type.methodIndex? name = some index) {method : MethodDef} (held : later.methods[index]? = some method) :
    later.method? name = some method := by
  obtain ⟨inside, found, before⟩ := List.findIdx?_eq_some_iff_getElem.mp named
  obtain ⟨within, there⟩ := List.getElem?_eq_some_iff.mp held
  have blind {position : Nat} (early : position < type.methods.length) (late : position < later.methods.length) :
      (later.methods[position].fullNameIn later.fullName == name) =
        (type.methods[position].fullNameIn type.fullName == name) := by
    obtain ⟨other, same, ⟨⟨body, rfl⟩, -⟩⟩ := keeps.methods position _ (List.getElem?_eq_getElem early)
    rw [(List.getElem?_eq_some_iff.mp same).2, keeps.fullName]
    rfl
  refine List.find?_eq_some_iff_getElem.mpr ⟨?_, index, within, there, fun earlier less => ?_⟩
  · rw [← there, blind inside within]
    exact found
  · rw [blind (Nat.lt_trans less inside) (Nat.lt_trans less within)]
    simpa using before earlier less

theorem TypeDef.Keeps.has_of_body {type later : TypeDef} (keeps : type.Keeps later) {name : String} {index : Nat}
    (named : type.methodIndex? name = some index) {method : MethodDef} (held : later.methods[index]? = some method)
    (some : method.body.isSome = true) : later.Has name :=
  ⟨method, keeps.method?_of_index named held, some⟩

/-- Types stay in their places, and so do their methods, with bodies if they had them. -/
def Module.Keeps (module later : Module) : Prop := Persist TypeDef.Keeps module.types later.types

theorem Module.Keeps.refl (module : Module) : module.Keeps module := Persist.refl .refl _

theorem Module.Keeps.trans {module middle later : Module} (first : module.Keeps middle) (second : middle.Keeps later) :
    module.Keeps later := Persist.trans TypeDef.Keeps.trans first second

theorem Module.Keeps.has {module later : Module} (keeps : module.Keeps later) {typeName name : String}
    (has : module.Has typeName name) : later.Has typeName name := by
  obtain ⟨type, found, own⟩ := has
  have same : ∀ type later : TypeDef, type.Keeps later → (later.fullName == typeName) = (type.fullName == typeName) :=
    fun _ _ kept => by rw [kept.fullName]
  obtain ⟨other, there, kept⟩ := Persist.find? keeps same found
  exact ⟨other, there, kept.has own⟩

/-- The type so far is the one that the account is for, and has what was touched. -/
structure PatchState.Finds (state : PatchState) : Prop where
  targetType : state.applied.targetType = state.type.fullName
  touched : ∀ name ∈ state.applied.touched, state.type.Has name

theorem PatchState.Finds.touch {state after : PatchState} (finds : state.Finds) (keeps : state.type.Keeps after.type)
    {names : List String} (touches : state.applied.Touches names after.applied)
    (has : ∀ name ∈ names, after.type.Has name) :
    after.Finds := by
  refine ⟨by rw [touches.1, finds.targetType, keeps.fullName], fun name member => ?_⟩
  rw [touches.2] at member
  rcases List.mem_append.mp member with old | new
  · exact keeps.has (finds.touched name old)
  · exact has name new

theorem Injection.touches (injection : Injection) : injection.before.applied.Touches
    [injection.callback.fullNameIn injection.before.type.fullName, injection.descriptor.targetMethod]
    injection.after.applied := by
  obtain ⟨plan, body, same⟩ := injection.done
  rw [same]
  exact ⟨rfl, List.append_assoc _ _ _⟩

theorem Injection.keeps (injection : Injection) : injection.before.type.Keeps injection.after.type := by
  obtain ⟨-, -, -, -, -, -, -, type⟩ := injection.accepted
  exact type ▸ ⟨rfl, .trans MethodDef.Keeps.trans (.append .refl _ [injection.callback])
    (.modify .refl (.setBody injection.woven) _ injection.index)⟩

namespace MixinEngine

variable {engine : MixinEngine} {context : MixinContext} {target woven : Module} {assemblies known : Assemblies}
  {state after : PatchState} {mixin : MixinDescriptor} {applied : AppliedMixin}

theorem applyOp_keeps {op : MixinOp} (applied : engine.applyOp context target assemblies state op = (.ok after, known)) :
    state.type.Keeps after.type := by
  cases op with
  | implements interface =>
      obtain ⟨_, _, methods, -, -, type, -⟩ := MixinContext.applyImplements_ok (congrArg Prod.fst applied)
      exact type ▸ ⟨rfl, .append .refl _ methods⟩
  | overwrite index name =>
      obtain ⟨_, _, position, _, -, -, -, -, -, type, -⟩ := MixinContext.applyOverwrite_ok (congrArg Prod.fst applied)
      exact type ▸ ⟨rfl, .modify .refl (.setBody _) _ position⟩
  | inject descriptor =>
      obtain ⟨injection, rfl, rfl, rfl, rfl⟩ := Injection.of_applied (congrArg Prod.fst applied)
      exact injection.keeps

theorem applyOps_keeps {ops : List MixinOp} (ran : engine.applyOps context target ops assemblies state = (.ok after, known)) :
    state.type.Keeps after.type :=
  applyOps_preserves (motive := fun after => state.type.Keeps after.type)
    (fun _ _ _ _ _ _ _ _ _ one keeps => .trans _ _ _ keeps (applyOp_keeps one)) (.refl state.type) ran

theorem begin_keeps {type mixinDef : TypeDef} {mapped : PatchState}
    (begun : engine.begin target mixin type mixinDef = .ok (mapped, context)) : type.Keeps mapped.type := by
  obtain ⟨fields, -, ran⟩ := begin_mapped begun
  exact ⟨(MixinContext.mapFields_grows ran).fullName, (MixinContext.mapFields_methods ran).1 ▸ .refl .refl _⟩

theorem apply_keeps (accepted : engine.apply target mixin assemblies = (.ok (applied, woven), known)) :
    target.Keeps woven := by
  obtain ⟨index, type, mixinDef, mapped, context, final, subjects, begun, ran, -, rfl⟩ := apply_ok accepted
  have worked := applyOps_keeps ran
  rw [Module.Keeps, finish_types]
  exact .set .refl (subjects_ok subjects).2.1 (.trans _ _ _ (begin_keeps begun) worked)

theorem Works.finds_overwrite {index : Nat} {name : String}
    (works : engine.Works target mixin assemblies context (.overwrite index name) state after)
    (finds : state.Finds) : after.Finds := by
  obtain ⟨-, -, -, -, -, -, between, known, -, -, -, -, one⟩ := works
  obtain ⟨patch, body, position, old, -, -, named, held, -, type, touches, -⟩ :=
    MixinContext.applyOverwrite_ok (congrArg Prod.fst one)
  refine finds.touch (applyOp_keeps one) touches fun name member => ?_
  cases List.mem_singleton.mp member
  have put : after.type.methods[position]? = some { old with body := some (context.home.body body) } := by
    rw [type]
    simp [held]
  exact (applyOp_keeps one).has_of_body named put rfl

/-- What an injection touches is found if no other method has the callback's full name. -/
theorem Works.finds_inject {injection : Injection}
    (works : engine.Works target mixin assemblies injection.context (.inject injection.descriptor) injection.before
      injection.after)
    (apart : ∀ method ∈ injection.after.type.methods, method.name ≠ injection.callback.name →
      method.fullNameIn injection.before.type.fullName ≠ injection.callback.fullNameIn injection.before.type.fullName)
    (some : injection.callback.body.isSome = true) (finds : injection.before.Finds) : injection.after.Finds := by
  obtain ⟨-, -, -, -, -, -, between, known, -, -, -, -, one⟩ := works
  have keeps := applyOp_keeps one
  refine finds.touch keeps injection.touches fun name member => ?_
  obtain rfl | rfl := List.mem_pair.mp member
  · obtain ⟨added, others⟩ := injection.after_methods
    obtain ⟨inside, there⟩ := List.getElem?_eq_some_iff.mp added
    refine ⟨injection.callback, ?_, some⟩
    rw [TypeDef.method?, keeps.fullName]
    refine List.find?_eq_some_iff_getElem.mpr ⟨beq_self_eq_true _, _, inside, there, fun earlier less => ?_⟩
    have held := List.getElem?_eq_getElem (Nat.lt_trans less inside)
    simpa using apart _ (List.mem_of_getElem? held) (others earlier less _ held)
  · exact keeps.has_of_body injection.named injection.wove rfl

/-- What an accepted mixin touched is found if each of its operations leaves what was touched so. -/
theorem apply_finds
    (step : ∀ context op state after, engine.Works target mixin assemblies context op state after →
      state.Finds → after.Finds)
    (accepted : engine.apply target mixin assemblies = (.ok (applied, woven), known)) :
    ∀ name ∈ applied.touched, woven.Has applied.targetType name := by
  obtain ⟨index, type, mixinDef, mapped, context, final, subjects, begun, ran, rfl, rfl⟩ := apply_ok accepted
  obtain ⟨fields, -, fieldsMapped⟩ := begin_mapped begun
  obtain ⟨named, -⟩ := subjects_ok subjects
  have name := subjects_fullName subjects
  have kept := begin_keeps begun
  have begins : PatchState.Finds { mapped with seen := [] } := by
    have account := (MixinContext.mapFields_methods fieldsMapped).2
    refine ⟨?_, fun touched member => ?_⟩
    · show mapped.applied.targetType = mapped.type.fullName
      rw [account, kept.fullName, name]
    · have none : touched ∈ mapped.applied.touched := member
      rw [account] at none
      cases none
  have finds : final.Finds := by
    refine applyOps_preserves (motive := PatchState.Finds) ?_ begins ran
    intro earlier op later state after between known split before one finds
    exact step context op state after
      ⟨index, type, mixinDef, mapped, earlier, later, between, known, subjects, begun, split, before, one⟩ finds
  intro touched member
  have worked := applyOps_keeps ran
  have whole : final.type.fullName = type.fullName := (TypeDef.Keeps.trans _ _ _ kept worked).fullName
  refine ⟨final.type, ?_, finds.touched touched member⟩
  rw [Module.type?, finish_types, finds.targetType, whole, name]
  exact find?_set named (by rw [whole, name, beq_self_eq_true])

end MixinEngine

/-- What a weave touched is found if each operation leaves what was touched so. -/
theorem Weaver.applyAll_finds {weaver : Weaver} {mixins : List MixinDescriptor} {applied : List AppliedMixin}
    {woven : Module} {known : Assemblies}
    (step : ∀ context op state after, weaver.Works mixins context op state after → state.Finds → after.Finds)
    (ran : applyAll (weaver.engine mixins) mixins weaver.target weaver.assemblies = (.ok (applied, woven), known)) :
    ∀ mixin ∈ applied, ∀ name ∈ mixin.touched, woven.Has mixin.targetType name := by
  refine applyAll_reaches
    (motive := fun applied module => ∀ mixin ∈ applied, ∀ name ∈ mixin.touched, module.Has mixin.targetType name)
    (fun _ none => by cases none) ?_ (List.append_nil mixins).symm ran
  intro earlier mixin later applied one target middle between known split before accepted finds other member name touched
  rcases List.mem_append.mp member with old | new
  · exact (MixinEngine.apply_keeps accepted).has (finds other old name touched)
  · cases List.mem_singleton.mp new
    refine MixinEngine.apply_finds (fun context op state after works => ?_) accepted name touched
    exact step context op state after ⟨earlier, mixin, later, applied, target, between, split, before, works⟩

namespace Verification

variable {config : WeaveConfig} {state after : Verification} {typeName name : String} {fault : WeaveFault}

theorem method_keeps (verified : method config typeName state name = .ok after) : state.module.Keeps after.module := by
  rcases method_ok verified with same | ⟨index, depth, same⟩
  · exact same ▸ .refl _
  · have sized (method : MethodDef) : method.Keeps (method.withMaxStack depth) :=
      ⟨⟨_, rfl⟩, fun some => by rw [MethodDef.withMaxStack, Option.isSome_map, some]⟩
    rw [same, Module.modifyType]
    split
    · exact Persist.modify .refl (fun type => ⟨rfl, .modify .refl sized type.methods index⟩) _ _
    · exact .refl _

/-- A name that fails is that of a method whose stack depths fail, where these have to be known. -/
theorem method_error (failed : method config typeName state name = .error fault) :
    ∃ type index method cause, fault = .invalidStack name cause ∧ state.module.type? typeName = some type ∧
      type.methodIndex? name = some index ∧ type.methods[index]? = some method ∧ method.maxDepth = .error cause ∧
      config.verifyStack = true := by
  have step := method_step config typeName state name
  rw [failed] at step
  cases step with
  | refused found named held depth strict => exact ⟨_, _, _, _, rfl, found, named, held, depth, strict⟩

/-- If what was touched is found, verification fails only at a method that has a body, and what is kept when depths are
written down holds of that method. -/
theorem run_error {holds : MethodDef → Prop} (sized : ∀ method depth, holds method → holds (method.withMaxStack depth))
    {module : Module} {applied : List AppliedMixin} (each : module.EachMethod holds)
    (finds : ∀ mixin ∈ applied, ∀ name ∈ mixin.touched, module.Has mixin.targetType name)
    (failed : run config module applied = .error fault) :
    ∃ name method cause, fault = .invalidStack name cause ∧ holds method ∧ method.body.isSome = true ∧
      method.maxDepth = .error cause := by
  obtain ⟨mixin, member, name, touched, state, kept, failed⟩ :=
    run_stops (motive := fun state => module.Keeps state.module ∧ state.module.EachMethod holds)
      (fun _ _ _ _ _ _ kept verified =>
        ⟨kept.1.trans (method_keeps verified), method_preserves sized kept.2 verified⟩) ⟨.refl module, each⟩ failed
  obtain ⟨type, index, method, cause, same, found, named, held, depth, -⟩ := method_error failed
  obtain ⟨other, there, own, first, some⟩ := kept.1.has (finds mixin member name touched)
  cases found.symm.trans there
  cases (type.method?_of_index named held).symm.trans first
  exact ⟨name, method, cause, same, kept.2 type (List.mem_of_find?_eq_some found) method (List.mem_of_getElem? held), some,
    depth⟩

end Verification

end CilWeave
