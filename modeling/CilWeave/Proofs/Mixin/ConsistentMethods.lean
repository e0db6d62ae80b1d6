import CilWeave.Proofs.Mixin.Accounting
import CilWeave.Proofs.Mixin.CancelledDepth
import CilWeave.Proofs.Mixin.Composition

/-!
Methods with consistent depths, as they are found by their names. Injections whose cancellation lands keep them, and a mixin
that was verified alone had them before it was applied: in the methods it is for, and in its callbacks.
-/

namespace CilWeave

open Stateful

namespace MethodDef

/-- The method has a body, and its depths are consistent. -/
def Consistent (method : MethodDef) : Prop :=
  ∃ body, method.body = some body ∧ StackContext.Consistent ⟨body, method.argumentCount, !method.returns.isVoid⟩

/-- The method has a body, and its depths are consistent if it declares these locals. -/
def ConsistentWith (method : MethodDef) (locals : Array TypeSig) : Prop :=
  ∃ body, method.body = some body ∧
    StackContext.Consistent ⟨{ body with locals }, method.argumentCount, !method.returns.isVoid⟩

/-- A plainly named method whose body, if it has one, holds together. -/
structure Sane (method : MethodDef) : Prop extends method.Plain where
  coherent : ∀ body, method.body = some body → body.Coherent
  fresh : ∀ body, method.body = some body → body.Fresh

variable {method other : MethodDef}

theorem consistent_of_maxDepth {greatest : UInt16} (verified : method.maxDepth = .ok greatest) : method.Consistent := by
  cases defined : method.body with
  | none =>
      rw [maxDepth, stackContext?, defined] at verified
      cases verified
  | some body =>
      rw [maxDepth_of_body defined] at verified
      exact ⟨body, defined, (StackContext.consistent_of_maxDepth verified).1⟩

/-- Depths that are consistent can be written down, unless they are too great. -/
theorem Consistent.maxDepth (consistent : method.Consistent) {cause : StackFault} (failed : method.maxDepth = .error cause) :
    ∃ depth, cause = .tooDeep depth ∧ 65535 < depth := by
  obtain ⟨body, defined, consistent⟩ := consistent
  rw [maxDepth_of_body defined] at failed
  exact consistent.tooDeep failed

/-- Consistency depends on a method's code, and not on the depth that is written down. -/
theorem Consistent.of_code (consistent : method.Consistent) (alike : method.Alike other) (code : other.code = method.code) :
    other.Consistent := by
  obtain ⟨body, defined, consistent⟩ := consistent
  obtain ⟨later, rfl⟩ := alike
  rw [MethodDef.code, MethodDef.code, defined] at code
  obtain ⟨again, redefined, same⟩ := Option.map_eq_some_iff.mp code
  cases redefined
  obtain ⟨instructions, locals⟩ := Prod.mk.inj same
  refine ⟨again, rfl, ?_⟩
  have resembles : StackContext.Resembles ⟨body, method.argumentCount, !method.returns.isVoid⟩
      ⟨again, method.argumentCount, !method.returns.isVoid⟩ :=
    ⟨⟨rfl, rfl, congrArg Array.size locals⟩, by rw [Body.ids, instructions, Body.ids],
      fun _ instruction found => ⟨instruction, instructions ▸ found, ⟨.rfl, rfl, rfl, rfl, rfl, rfl⟩, rfl⟩⟩
  exact resembles.consistent consistent

theorem Consistent.withMaxStack (consistent : method.Consistent) (depth : UInt16) : (method.withMaxStack depth).Consistent :=
  consistent.of_code ⟨_, rfl⟩ (Verification.withMaxStack_code method depth)

/-- A method of the same name and signature, with consistent depths if they were. -/
def Secures (method later : MethodDef) : Prop := method.Alike later ∧ (method.Consistent → later.Consistent)

theorem Secures.refl (method : MethodDef) : method.Secures method := ⟨.refl method, id⟩

theorem Secures.trans (first second third : MethodDef) (one : first.Secures second) (two : second.Secures third) :
    first.Secures third := ⟨one.1.trans _ _ _ two.1, two.2 ∘ one.2⟩

end MethodDef

/-- The method that is found by a full name has consistent depths. -/
def TypeDef.Verifies (type : TypeDef) (name : String) : Prop :=
  ∃ method, type.method? name = some method ∧ method.Consistent

def Module.Verifies (module : Module) (typeName name : String) : Prop :=
  ∃ type, module.type? typeName = some type ∧ type.Verifies name

/-- A type of the same name whose methods are still there, with consistent depths if they were. -/
structure TypeDef.Secures (type later : TypeDef) : Prop where
  fullName : later.fullName = type.fullName
  methods : Persist MethodDef.Secures type.methods later.methods

namespace TypeDef.Secures

variable {type middle later : TypeDef}

theorem trans (first : type.Secures middle) (second : middle.Secures later) : type.Secures later :=
  ⟨second.fullName.trans first.fullName, .trans MethodDef.Secures.trans first.methods second.methods⟩

theorem verifies (secures : type.Secures later) {name : String} (verifies : type.Verifies name) : later.Verifies name := by
  obtain ⟨method, found, consistent⟩ := verifies
  have blind : ∀ method later : MethodDef, method.Secures later →
      (later.fullNameIn type.fullName == name) = (method.fullNameIn type.fullName == name) := by
    rintro method later ⟨⟨body, rfl⟩, -⟩
    rfl
  obtain ⟨other, there, kept⟩ := secures.methods.find? blind found
  refine ⟨other, ?_, kept.2 consistent⟩
  rw [TypeDef.method?, secures.fullName]
  exact there

/-- Other code for the method in a place keeps what it keeps of that method. -/
theorem modify {index : Nat} {method : MethodDef} {change : MethodDef → MethodDef} (held : type.methods[index]? = some method)
    (secures : method.Secures (change method)) : type.Secures { type with methods := type.methods.modify index change } := by
  refine ⟨rfl, ?_⟩
  show Persist _ _ (type.methods.modify index change)
  rw [List.modify_eq_set, held]
  exact .set .refl held secures

end TypeDef.Secures

namespace Injection

variable (injection : Injection)

theorem secures (keeps : injection.target.Secures { injection.target with body := some injection.woven }) :
    injection.before.type.Secures injection.after.type := by
  have added : injection.before.type.Secures
      { injection.before.type with methods := injection.before.type.methods ++ [injection.callback] } :=
    ⟨rfl, .append .refl _ _⟩
  have held : (injection.before.type.methods ++ [injection.callback])[injection.index]? = some injection.target := by
    rw [List.getElem?_append_left (List.getElem?_eq_some_iff.mp injection.held).1, injection.held]
  rw [injection.after_type]
  exact added.trans (.modify held keeps)

/-- The callback is found by its full name if that has no other reading. -/
theorem callback_index (plain : ∀ method ∈ injection.after.type.methods, method.Plain) :
    injection.after.type.methodIndex? (injection.callback.fullNameIn injection.before.type.fullName) =
      some injection.before.type.methods.length := by
  obtain ⟨added, others⟩ := injection.after_methods
  obtain ⟨inside, there⟩ := List.getElem?_eq_some_iff.mp added
  have own := plain injection.callback (List.mem_of_getElem? added)
  rw [TypeDef.methodIndex?, injection.keeps.fullName]
  refine List.findIdx?_eq_some_iff_getElem.mpr ⟨inside, by rw [there, beq_self_eq_true], fun earlier less => ?_⟩
  have held := List.getElem?_eq_getElem (Nat.lt_trans less inside)
  have other := plain _ (List.mem_of_getElem? held)
  simp only [beq_iff_eq]
  exact fun same => others earlier less _ held (other.name_eq own same)

/-- A callback whose cancellation lands keeps the depths of its target consistent. -/
theorem secures_target (sized : injection.Sized) (lands : injection.Lands) (sane : injection.target.Sane)
    (spare : injection.woven.Spare) : injection.target.Secures { injection.target with body := some injection.woven } := by
  refine ⟨⟨_, rfl⟩, ?_⟩
  rintro ⟨body, defined, consistent⟩
  cases injection.defined.symm.trans defined
  have supplies := injection.supplies (sane.fresh _ defined) spare
  exact ⟨_, rfl, sized.consistent lands (sane.coherent _ defined) supplies consistent⟩

/-- Where no callback was put in front of anything, methods are what they were. -/
theorem methods_stay {place : Nat} (other : injection.index ≠ place) {method : MethodDef}
    (held : injection.before.type.methods[place]? = some method) : injection.after.type.methods[place]? = some method := by
  have inside := (List.getElem?_eq_some_iff.mp held).1
  have methods : injection.after.type.methods = (injection.before.type.methods ++ [injection.callback]).modify injection.index
      fun method => { method with body := some injection.woven } := congrArg TypeDef.methods injection.after_type
  rw [methods, List.getElem?_modify_ne _ _ other, List.getElem?_append_left inside, held]

/-- Depths that are consistent after an injection were so before it. -/
theorem consistent_back (sane : injection.target.Sane) (spare : injection.woven.Spare) {place : Nat}
    (inside : place < injection.before.type.methods.length)
    {method : MethodDef} (held : injection.after.type.methods[place]? = some method) {locals : Array TypeSig}
    (consistent : method.ConsistentWith locals) :
    ∃ old, injection.before.type.methods[place]? = some old ∧ old.ConsistentWith locals := by
  have there := List.getElem?_eq_getElem inside
  by_cases here : injection.index = place
  · subst here
    cases held.symm.trans injection.wove
    obtain ⟨body, defined, consistent⟩ := consistent
    cases defined
    have supplies := injection.supplies (sane.fresh _ injection.defined) spare
    exact ⟨injection.target, injection.held, injection.body, injection.defined,
      consistent_before (sane.coherent _ injection.defined) supplies consistent⟩
  · cases held.symm.trans (injection.methods_stay here there)
    exact ⟨_, there, consistent⟩

end Injection

namespace Verification

variable {config : WeaveConfig} {state after : Verification} {module : Module} {applied : List AppliedMixin}

theorem method_verifies {typeName name : String} (verified : method config typeName state name = .ok after)
    {typeName' name' : String} (verifies : state.module.Verifies typeName' name') : after.module.Verifies typeName' name' := by
  rcases method_resizes verified with same | ⟨place, index, depth, found, same⟩
  · rwa [same]
  · obtain ⟨type, -, held, -, named⟩ := Module.place?_ok found
    obtain ⟨own, there, -⟩ := TypeDef.methodIndex?_mem named
    have resized : type.Secures { type with methods := type.methods.modify index fun method => method.withMaxStack depth } :=
      .modify there ⟨⟨_, rfl⟩, fun consistent => consistent.withMaxStack depth⟩
    have placed : after.module.types = state.module.types.set place
        { type with methods := type.methods.modify index fun method => method.withMaxStack depth } := by
      rw [same, Module.resize, List.modify_eq_set, held]
      rfl
    exact Module.found_of_placed held placed rfl (fun _ => resized.verifies) verifies

/-- If what was touched has consistent depths, verification fails only for one that is too great. -/
theorem run_tooDeep (verifies : ∀ mixin ∈ applied, ∀ name ∈ mixin.touched, module.Verifies mixin.targetType name)
    {fault : WeaveFault} (failed : run config module applied = .error fault) :
    ∃ name depth, fault = .invalidStack name (.tooDeep depth) ∧ 65535 < depth := by
  obtain ⟨mixin, member, name, touched, state, kept, failed⟩ :=
    run_stops (motive := fun state => ∀ mixin ∈ applied, ∀ name ∈ mixin.touched,
      state.module.Verifies mixin.targetType name)
      (fun _ _ _ _ _ _ kept verified mixin member name touched =>
        method_verifies verified (kept mixin member name touched)) verifies failed
  obtain ⟨type, index, method, cause, rfl, found, named, held, depth, -⟩ := method_error failed
  obtain ⟨other, there, own, first, consistent⟩ := kept mixin member name touched
  cases found.symm.trans there
  cases (type.method?_of_index named held).symm.trans first
  obtain ⟨greatest, rfl, more⟩ := consistent.maxDepth depth
  exact ⟨name, greatest, rfl, more⟩

/-- What was touched and verified has consistent depths. -/
theorem run_consistent (strict : config.verifyStack = true) {outcome : Verification} {one : AppliedMixin}
    (ran : run config module [one] = .ok outcome) {name : String} (touched : name ∈ one.touched)
    {type : TypeDef} {index : Nat}
    {method : MethodDef} (found : module.type? one.targetType = some type) (named : type.methodIndex? name = some index)
    (held : type.methods[index]? = some method) : method.Consistent := by
  obtain ⟨place, typed, there, -⟩ := Module.place_of_type? found
  have place? : module.place? one.targetType name = some (place, index) := by
    rw [Module.place?_of_held typed there, named]
    rfl
  -- Verification leaves the method where it was, with the code that it had.
  have outline := run_outline ran
  have keeps : module.Keeps outcome.module :=
    run_keeps (motive := fun state => module.Keeps state.module)
      (fun _ _ _ _ _ _ kept verified => kept.trans (method_keeps verified)) (.refl module) ran
  obtain ⟨later, there', kept⟩ := keeps place type there
  obtain ⟨last, held', alike, -⟩ := kept.methods index method held
  have settled : last.Settled := run_settles strict ran place? List.mem_cons_self rfl touched
    (fun mixin member _ => by rw [List.mem_singleton.mp member]) ((Module.methodAt?_of_held there').trans held')
  obtain ⟨body, depth, -, verified, -⟩ := settled
  have code : method.code = last.code := by
    have before := Module.code?_of there held
    have after := Module.code?_of there' held'
    rw [Module.code?, outline, ← Module.code?, before] at after
    exact Option.some.inj after
  obtain ⟨again, rfl⟩ := alike
  exact (MethodDef.consistent_of_maxDepth verified).of_code ⟨method.body, rfl⟩ code

end Verification

namespace MixinEngine

variable {engine : MixinEngine} {target woven : Module} {mixin : MixinDescriptor} {assemblies known : Assemblies}
  {applied : AppliedMixin}

/-- A mixin that only injects, into types with plain names, methods that hold together. -/
structure Proper (engine : MixinEngine) (mixin : MixinDescriptor) : Prop where
  injects : ∀ op ∈ mixin.ops, ∃ descriptor, op = .inject descriptor
  targets : ∀ name target, engine.types.get? name = some target → (TypeRef.ofFullName none target).Plain
  patches : ∀ mixinDef, engine.mixinModule.type? mixin.mixinType = some mixinDef →
    ∀ patch ∈ mixinDef.methods, patch.Sane

/-- What an operation of a mixin works with. -/
theorem Works.setting {context : MixinContext} {op : MixinOp} {state after : PatchState}
    (works : engine.Works target mixin assemblies context op state after) :
    op ∈ mixin.ops ∧ context.home.types = engine.types ∧ engine.mixinModule.type? mixin.mixinType =
      some context.mixinDef := by
  obtain ⟨index, type, mixinDef, mapped, earlier, later, between, known, subjects, begun, split, -, -⟩ := works
  obtain ⟨-, -, -, defined, -, types⟩ := begin_ok begun
  exact ⟨split ▸ List.mem_append_right earlier List.mem_cons_self, types, defined ▸ (subjects_ok subjects).2.2⟩

end MixinEngine

/-- A method that is moved still holds together. -/
theorem Rehoming.method_sane {home : Rehoming} (targets : home.PlainTargets) {patch : MethodDef} (sane : patch.Sane)
    (name : String) (flags : MethodFlags) : (home.method patch name flags).Sane := by
  refine ⟨Rehoming.method_plain targets sane.toPlain name flags, fun body defined => ?_, fun body defined => ?_⟩
  all_goals obtain ⟨old, held, rfl⟩ := Option.map_eq_some_iff.mp defined
  · exact home.body_coherent (sane.coherent old held)
  · exact home.body_fresh (sane.fresh old held)

/-- A moved method has consistent depths if and only if it had them. -/
theorem Injection.callback_consistent (injection : Injection) :
    injection.callback.Consistent ↔ injection.patch.Consistent := by
  have count : injection.callback.argumentCount = injection.patch.argumentCount := by
    rw [MethodDef.argumentCount, injection.callback_isStatic, injection.accepted.1, injection.callback_params]
    rfl
  have void : injection.callback.returns.isVoid = injection.patch.returns.isVoid :=
    TypeSig.isVoid_mapRefs injection.context.home.typeRef injection.patch.returns
  have moved (body : Body) : StackContext.Resembles
      ⟨body, injection.patch.argumentCount, !injection.patch.returns.isVoid⟩
      ⟨injection.context.home.body body, injection.patch.argumentCount, !injection.patch.returns.isVoid⟩ :=
    injection.context.home.body_resembles
  constructor
  · rintro ⟨body, defined, consistent⟩
    obtain ⟨old, held, rfl⟩ := Option.map_eq_some_iff.mp defined
    rw [count, void] at consistent
    exact ⟨old, held, (moved old).symm.consistent consistent⟩
  · rintro ⟨body, defined, consistent⟩
    refine ⟨injection.context.home.body body, congrArg (Option.map injection.context.home.body) defined, ?_⟩
    rw [count, void]
    exact (moved body).consistent consistent

/-- A type that is worked on keeps the consistent depths of a type's methods, and all that was touched has them. -/
structure PatchState.Secured (type : TypeDef) (targetType : String) (state : PatchState) : Prop where
  kept : type.Secures state.type
  targetType : state.applied.targetType = targetType
  touched : ∀ name ∈ state.applied.touched, state.type.Verifies name

namespace MixinEngine

variable {engine : MixinEngine} {target woven : Module} {mixin : MixinDescriptor} {assemblies known : Assemblies}
  {applied : AppliedMixin} (proper : engine.Proper mixin)
  (spare : ∀ injection, engine.Injects target mixin assemblies injection → injection.woven.Spare)

include proper spare

/-- Each operation leaves methods that hold together. -/
theorem Proper.step (context : MixinContext) (op : MixinOp) (state after : PatchState) (method : MethodDef)
    (works : engine.Works target mixin assemblies context op state after) (makes : context.Makes op state after method)
    (sane : ∀ earlier ∈ state.type.methods, earlier.Sane) : method.Sane := by
  obtain ⟨listed, types, defined⟩ := works.setting
  obtain ⟨descriptor, injects⟩ := proper.injects op listed
  cases makes with
  | kept member => exact sane method member
  | implementation own _ _ => cases injects.symm.trans own
  | overwritten own _ _ _ _ _ => cases injects.symm.trans own
  | callback injection _ own _ _ =>
      subst own
      have targets : injection.context.home.PlainTargets :=
        fun name target found => proper.targets name target (types ▸ found)
      exact Rehoming.method_sane targets (proper.patches _ defined _ (List.mem_of_getElem? injection.patched)) _ _
  | injected injection own same before later =>
      subst own same before later
      have target := sane _ (List.mem_of_getElem? injection.held)
      have intact := injection.woven_intact (target.coherent _ injection.defined) (target.fresh _ injection.defined)
        (spare injection works.injects)
      refine ⟨⟨target.returns, target.params⟩, fun body given => ?_, fun body given => ?_⟩ <;> cases given
      · exact intact.sound.toCoherent
      · exact intact.fresh

variable (sane : target.EachMethod MethodDef.Sane)

include sane

theorem Proper.sane_before {injection : Injection} (injects : engine.Injects target mixin assemblies injection) :
    ∀ method ∈ injection.before.type.methods, method.Sane := by
  obtain ⟨index, type, mixinDef, mapped, between, earlier, later, subjects, begun, split, ran⟩ := injects
  exact reaches_methods (proper.step spare) sane subjects begun split ran

theorem Proper.sane_after {injection : Injection} (injects : engine.Injects target mixin assemblies injection) :
    ∀ method ∈ injection.after.type.methods, method.Sane := by
  have before := proper.sane_before spare sane injects
  obtain ⟨index, type, mixinDef, mapped, between, earlier, later, subjects, begun, split, ran⟩ := injects
  have one : engine.applyOp injection.context target between injection.before (.inject injection.descriptor) =
      (.ok injection.after, between) := by rw [applyOp, injection.applied]
  exact fun method member => proper.step spare injection.context _ injection.before injection.after method
    ⟨index, type, mixinDef, mapped, earlier, later, between, between, subjects, begun, split, ran, one⟩
    (applyOp_makes one method member) before

/-- What was touched still has consistent depths after an injection that keeps them, if its target and its callback had them. -/
theorem Proper.secured_inject {type : TypeDef} {name : String} {injection : Injection}
    (injects : engine.Injects target mixin assemblies injection) (secured : injection.before.Secured type name)
    (secures : injection.target.Secures { injection.target with body := some injection.woven })
    (verifies : type.Verifies injection.descriptor.targetMethod) (callback : injection.callback.Consistent) :
    injection.after.Secured type name := by
  have step := injection.secures secures
  refine ⟨secured.kept.trans step, injection.touches.1.trans secured.targetType, fun name member => ?_⟩
  rw [injection.touches.2] at member
  rcases List.mem_append.mp member with old | new
  · exact step.verifies (secured.touched name old)
  · obtain rfl | rfl := List.mem_pair.mp new
    · have plain : ∀ method ∈ injection.after.type.methods, method.Plain :=
        fun method member => (proper.sane_after spare sane injects method member).toPlain
      exact ⟨injection.callback,
        TypeDef.method?_of_index (injection.callback_index plain) injection.after_methods.1, callback⟩
    · exact step.verifies (secured.kept.verifies verifies)

/-- A mixin keeps consistent depths if its injections do, and gives them to what it touches if its targets and its callbacks
have them. -/
theorem Proper.verifies
    (secures : ∀ injection, engine.Injects target mixin assemblies injection →
      injection.target.Secures { injection.target with body := some injection.woven })
    (targets : ∀ descriptor, .inject descriptor ∈ mixin.ops →
      target.Verifies mixin.target.fullName descriptor.targetMethod)
    (callbacks : ∀ injection, engine.Injects target mixin assemblies injection → injection.callback.Consistent)
    (accepted : engine.apply target mixin assemblies = (.ok (applied, woven), known)) :
    (∀ typeName name, target.Verifies typeName name → woven.Verifies typeName name) ∧
      ∀ name ∈ applied.touched, woven.Verifies applied.targetType name := by
  obtain ⟨index, type, mixinDef, mapped, context, final, subjects, begun, ran, rfl, rfl⟩ := apply_ok accepted
  obtain ⟨named, held, -⟩ := subjects_ok subjects
  have called := subjects_fullName subjects
  have first : target.type? mixin.target.fullName = some type := Module.type?_of_held named held
  obtain ⟨fields, -, fieldsMapped⟩ := begin_mapped begun
  obtain ⟨methods, account⟩ := MixinContext.mapFields_methods fieldsMapped
  have grown : mapped.type.fullName = type.fullName := (MixinContext.mapFields_grows fieldsMapped).fullName
  have begins : PatchState.Secured type mixin.target.fullName { mapped with seen := [] } := by
    refine ⟨⟨grown, ?_⟩, ?_, fun name member => ?_⟩
    · show Persist _ type.methods mapped.type.methods
      exact methods ▸ .refl .refl _
    · show mapped.applied.targetType = _
      rw [account]
    · have none : name ∈ mapped.applied.touched := member
      rw [account] at none
      cases none
  have worked : final.Secured type mixin.target.fullName := by
    refine applyOps_preserves ?_ begins ran
    intro earlier op later state after between next split before one secured
    have listed : op ∈ mixin.ops := split ▸ List.mem_append_right earlier List.mem_cons_self
    obtain ⟨descriptor, rfl⟩ := proper.injects op listed
    obtain ⟨injection, rfl, rfl, rfl, rfl⟩ := Injection.of_applied (congrArg Prod.fst one)
    have injects : engine.Injects target mixin assemblies injection :=
      ⟨index, type, mixinDef, mapped, between, earlier, later, subjects, begun, split, before⟩
    obtain ⟨own, found, verifies⟩ := targets injection.descriptor listed
    cases first.symm.trans found
    exact proper.secured_inject spare sane injects secured (secures injection injects) verifies (callbacks injection injects)
  obtain ⟨kept, targetType, touched⟩ := worked
  refine ⟨fun typeName name verifies => ?_, fun name member => ⟨final.type, ?_, touched name member⟩⟩
  · exact Module.found_of_placed held (finish_types ..) kept.fullName (fun _ => kept.verifies) verifies
  · rw [Module.type?, finish_types, targetType]
    exact find?_set named (by rw [kept.fullName, called, beq_self_eq_true])

end MixinEngine

end CilWeave
