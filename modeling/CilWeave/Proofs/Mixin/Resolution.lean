import CilWeave.Machine.Run
import CilWeave.Proofs.Mixin.Growth

/-!
Injections as operations of mixins, and where their calls go. No method that was there before has the
callback's name, so in a program whose first module was woven the call resolves to the callback.
-/

namespace CilWeave

open Machine Stateful

/-- A module that has the target type of an injection, which may have grown since. -/
def Injection.Hosted (injection : Injection) (module : Module) : Prop :=
  injection.context.targetSig = injection.before.type.sig ∧
    ∃ type, module.type? injection.after.type.fullName = some type ∧ injection.after.type.Grows type

theorem Injection.Hosted.grows {injection : Injection} {module later : Module} (hosted : injection.Hosted module)
    (grows : module.Grows later) : injection.Hosted later := by
  obtain ⟨signed, type, found, grown⟩ := hosted
  obtain ⟨other, there, more⟩ := grows.type? found
  exact ⟨signed, other, there, .trans _ _ _ grown more⟩

namespace MixinEngine

variable {engine : MixinEngine} {target woven : Module} {mixin : MixinDescriptor} {assemblies known : Assemblies}
  {applied : AppliedMixin} {injection : Injection}

/-- An injection is one of a mixin's operations, on the type as the operations before it leave it. -/
def Injects (engine : MixinEngine) (target : Module) (mixin : MixinDescriptor) (assemblies : Assemblies)
    (injection : Injection) : Prop :=
  ∃ index type mixinDef mapped between earlier later, engine.subjects target mixin = .ok (index, type, mixinDef) ∧
    engine.begin target mixin type mixinDef = .ok (mapped, injection.context) ∧
    mixin.ops = earlier ++ .inject injection.descriptor :: later ∧
    engine.applyOps injection.context target earlier assemblies { mapped with seen := [] } =
      (.ok injection.before, between)

theorem Injects.hosted (injects : engine.Injects target mixin assemblies injection)
    (accepted : engine.apply target mixin assemblies = (.ok (applied, woven), known)) : injection.Hosted woven := by
  obtain ⟨index, type, mixinDef, mapped, between, earlier, later, subjects, begun, split, first⟩ := injects
  obtain ⟨position, other, definition, state, context, final, found, began, ran, -, rfl⟩ := apply_ok accepted
  cases Except.ok.inj (subjects.symm.trans found)
  cases Except.ok.inj (begun.symm.trans began)
  obtain ⟨named, -⟩ := subjects_ok subjects
  obtain ⟨grown, signed, -⟩ := begin_ok begun
  rw [split] at ran
  obtain ⟨before, last, again, ran⟩ := applyOps_append ran
  cases first.symm.trans again
  obtain ⟨after, next, one, ran⟩ := applyOps_cons ran
  cases Except.ok.inj (injection.applied.symm.trans (congrArg Prod.fst one))
  have start := applyOps_grows first
  have whole := TypeDef.Grows.trans _ _ _ grown start
  have more := applyOps_grows ran
  refine ⟨signed.trans whole.sig.symm, final.type, ?_, more⟩
  have grows := TypeDef.Grows.trans _ _ _ whole (MixinContext.applyInject_grows injection.applied)
  have name := subjects_fullName subjects
  rw [Module.type?, finish_types, grows.fullName, name]
  refine find?_set named ?_
  rw [more.fullName, grows.fullName, name, beq_self_eq_true]

end MixinEngine

namespace Weaver

variable {weaver after : Weaver} {mixins : List MixinDescriptor} {injection : Injection}

/-- An injection is an operation of a mixin, on the module as the mixins before it leave it. -/
def Injects (weaver : Weaver) (mixins : List MixinDescriptor) (injection : Injection) : Prop :=
  ∃ earlier mixin later applied middle between, mixins = earlier ++ mixin :: later ∧
    applyAll (weaver.engine mixins) earlier weaver.target weaver.assemblies = (.ok (applied, middle), between) ∧
    (weaver.engine mixins).Injects middle mixin between injection

/-- An injection of the weave leaves the last identity in use. -/
def Exhausts (weaver : Weaver) (mixins : List MixinDescriptor) : Prop :=
  ∃ injection, weaver.Injects mixins injection ∧ ¬injection.woven.Spare

theorem Injects.spare (injects : weaver.Injects mixins injection) (within : ¬weaver.Exhausts mixins) : injection.woven.Spare :=
  Decidable.not_not.mp fun last => within ⟨injection, injects, last⟩

theorem applyAll_append {engine : MixinEngine} {target woven : Module} {assemblies known : Assemblies}
    {applied : List AppliedMixin} {others : List MixinDescriptor}
    (ran : applyAll engine (mixins ++ others) target assemblies = (.ok (applied, woven), known)) :
    ∃ one two middle between, applied = one ++ two ∧
      applyAll engine mixins target assemblies = (.ok (one, middle), between) ∧
      applyAll engine others middle between = (.ok (two, woven), known) := by
  induction mixins generalizing target assemblies applied with
  | nil => exact ⟨[], applied, target, assemblies, rfl, rfl, ran⟩
  | cons mixin rest ih =>
      obtain ⟨first, later, next, reached, all, one, ran⟩ := applyAll_cons ran
      obtain ⟨done, two, middle, between, split, others, ran⟩ := ih ran
      exact ⟨first :: done, two, middle, between, by rw [all, split]; rfl, by simp only [applyAll, one, others], ran⟩

/-- What an accepted weave has done. -/
theorem apply_woven {report : WeaveReport} (accepted : weaver.apply = (.ok report, after)) :
    ∃ mixins applied woven known outcome, weaver.descriptors = .ok mixins ∧
      applyAll (weaver.engine mixins) mixins weaver.target weaver.assemblies = (.ok (applied, woven), known) ∧
      Verification.run weaver.config woven applied = .ok outcome ∧ after.target = outcome.module := by
  unfold apply weave at accepted
  cases read : weaver.descriptors with
  | error fault =>
      rw [read] at accepted
      cases accepted
  | ok mixins =>
      rw [read] at accepted
      dsimp only at accepted
      rcases ran : applyAll (weaver.engine mixins) mixins weaver.target weaver.assemblies with
        ⟨fault | ⟨applied, woven⟩, known⟩
      · rw [ran] at accepted
        cases accepted
      · rw [ran] at accepted
        dsimp only at accepted
        cases verified : Verification.run weaver.config woven applied with
        | error fault =>
            rw [verified] at accepted
            cases accepted
        | ok outcome =>
            rw [verified] at accepted
            cases accepted
            exact ⟨mixins, applied, woven, known, outcome, rfl, ran, verified, rfl⟩

/-- An accepted weave, less the verification of what it touched. -/
theorem apply_ok {report : WeaveReport} (accepted : weaver.apply = (.ok report, after)) :
    ∃ mixins applied woven known, weaver.descriptors = .ok mixins ∧
      applyAll (weaver.engine mixins) mixins weaver.target weaver.assemblies = (.ok (applied, woven), known) ∧
      woven.Grows after.target := by
  obtain ⟨mixins, applied, woven, known, outcome, read, ran, verified, same⟩ := apply_woven accepted
  exact ⟨mixins, applied, woven, known, read, ran, same ▸ Verification.run_grows verified⟩

theorem Injects.hosted {report : WeaveReport} (accepted : weaver.apply = (.ok report, after))
    (read : weaver.descriptors = .ok mixins) (injects : weaver.Injects mixins injection) :
    injection.Hosted after.target := by
  obtain ⟨same, applied, woven, known, again, ran, grows⟩ := apply_ok accepted
  cases Except.ok.inj (read.symm.trans again)
  obtain ⟨earlier, mixin, later, one, middle, between, split, first, injects⟩ := injects
  rw [split] at ran
  obtain ⟨two, others, reached, last, -, before, ran⟩ := applyAll_append ran
  rw [← split] at before ran
  cases first.symm.trans before
  obtain ⟨done, rest, next, loaded, -, accepted, ran⟩ := applyAll_cons ran
  exact ((injects.hosted accepted).grows (applyAll_grows ran)).grows grows

end Weaver

namespace Injection

variable {injection : Injection} {module : Module} {others : List Module} {program : Program}

theorem callback_name : ∃ rest, injection.callback.name = injection.context.mixin.simpleName ++ "_" ++ rest := by
  obtain ⟨rest, unique⟩ := uniqueName_prefix (injection.context.mixin.simpleName ++ "_" ++ injection.patch.name)
    (injection.before.type.methods.map (·.name))
  exact ⟨injection.patch.name ++ rest, by rw [← String.append_assoc, ← unique]; rfl⟩

theorem callback_fresh : ∀ method ∈ injection.before.type.methods, method.name ≠ injection.callback.name := by
  intro method member same
  exact (uniqueName_free (injection.context.mixin.simpleName ++ "_" ++ injection.patch.name)
    (injection.before.type.methods.map (·.name))).1 (List.mem_map.mpr ⟨method, member, same⟩)

theorem callback_isStatic : injection.callback.isStatic = injection.target.isStatic := by
  rw [injection.accepted.1]
  show FlagNames.contains (MethodFlags.callback injection.patch.isStatic).bits MethodFlags.isStatic = _
  cases injection.patch.isStatic <;> decide

theorem callback_params : injection.callback.params.length = injection.patch.params.length := by
  simp [callback, MixinContext.ported, Rehoming.method]

/-- The callback is put behind the methods that were there. -/
theorem after_methods :
    injection.after.type.methods[injection.before.type.methods.length]? = some injection.callback ∧
      ∀ index < injection.before.type.methods.length, ∀ method : MethodDef,
        injection.after.type.methods[index]? = some method →
        method.name ≠ injection.callback.name := by
  obtain ⟨-, -, -, -, spliced, -, -, type⟩ := injection.accepted
  have inside := (List.getElem?_eq_some_iff.mp injection.held).1
  rw [type]
  refine ⟨?_, ?_⟩
  · simp [Nat.ne_of_lt inside]
  · intro index less method held
    rw [List.getElem?_modify, List.getElem?_append_left less] at held
    obtain ⟨old, there, rfl⟩ := Option.map_eq_some_iff.mp held
    have other := callback_fresh old (List.mem_of_getElem? there)
    split <;> exact other

/-- A method answers to its own reference. -/
theorem answers_ref {method callback : MethodDef} (alike : method.Alike callback) (declaring : TypeSig) :
    Module.answers callback (method.ref declaring) = true := by
  obtain ⟨body, rfl⟩ := alike
  simp [Module.answers, MethodDef.ref, MethodDef.isStatic, MethodDef.paramTypes]

theorem reference?_sig (type : TypeDef) : type.sig.reference? = some type.ref := by
  unfold TypeDef.sig
  dsimp only
  split <;> rfl

/-- The call comes to the callback, whose body is the one it has in the program. -/
theorem resolves (hosted : injection.Hosted module) (modules : program.modules = module :: others) :
    ∃ host callback, program.method? injection.site.callback = some (host, callback) ∧
      injection.callback.Alike callback ∧ module.type? injection.after.type.fullName = some host ∧
      host.methods[injection.before.type.methods.length]? = some callback := by
  obtain ⟨signed, type, found, grows⟩ := hosted
  obtain ⟨added, older⟩ := injection.after_methods
  obtain ⟨callback, held, alike⟩ := grows.methods _ _ added
  refine ⟨type, callback, ?_, alike, found, held⟩
  have declared : injection.site.callback.declaring.reference? = some injection.before.type.ref := by
    rw [show injection.site.callback.declaring = injection.context.targetSig from rfl, signed, reference?_sig]
  have home : module.type? injection.before.type.ref.fullName = some type := by
    rwa [(MixinContext.applyInject_grows injection.applied).fullName] at found
  obtain ⟨inside, there⟩ := List.getElem?_eq_some_iff.mp held
  have first : type.methods.find? (fun method => Module.answers method injection.site.callback) = some callback := by
    refine List.find?_eq_some_iff_getElem.mpr ⟨answers_ref alike _, _, inside, there, ?_⟩
    intro index less
    obtain ⟨method, before⟩ : ∃ method, injection.after.type.methods[index]? = some method :=
      ⟨_, List.getElem?_eq_getElem (Nat.lt_trans less (List.getElem?_eq_some_iff.mp added).1)⟩
    obtain ⟨other, placed, body, rfl⟩ := grows.methods _ _ before
    rw [(List.getElem?_eq_some_iff.mp placed).2]
    have differs := older index less method before
    have name : injection.site.callback.name = injection.callback.name := rfl
    simp [Module.answers, name, differs]
  have unscoped : injection.before.type.ref.scope = none := rfl
  have resolved : module.resolveMethod? injection.site.callback = some (type, callback) := by
    simp only [Module.resolveMethod?, declared, Option.bind_eq_bind, Option.bind_some, Module.resolveType?, unscoped,
      Module.isLocal, Option.all_none, if_true, home, first]
    rfl
  simp only [Program.method?, declared, Option.bind_eq_bind, Option.bind_some, unscoped, Program.modulesOf, modules,
    List.take_succ_cons, List.take_zero, List.findSome?_cons, resolved]

end Injection

end CilWeave
