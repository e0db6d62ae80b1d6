import CilWeave.Machine.Step
import CilWeave.Proofs.Mixin.References
import CilWeave.Proofs.Mixin.Reinjection

/-!
Calls from woven code to helpers, the types of the mixin module that are no mixins. Helpers stay where they are, and a program
of the woven module and the mixins finds them by the scope that their references get. Their signatures stay as well, while
those of the references are moved, so a helper is found only if moving leaves alone every type that its signature mentions.
-/

namespace CilWeave

open Stateful

mutual

theorem TypeSig.mapRefs_id (sig : TypeSig) : sig.mapRefs id = sig := by
  cases sig with
  | generic reference arguments => rw [mapRefs, mapRefsAll_id arguments, id]
  | byRef target => rw [mapRefs, target.mapRefs_id]
  | array element => rw [mapRefs, element.mapRefs_id]
  | _ => rfl

theorem TypeSig.mapRefsAll_id (sigs : List TypeSig) : mapRefsAll id sigs = sigs := by
  cases sigs with
  | nil => rfl
  | cons sig rest => rw [mapRefsAll, sig.mapRefs_id, mapRefsAll_id rest]

end

theorem TypeSig.mapRefsAll_eq_self_iff {rename : TypeRef → TypeRef} {sigs : List TypeSig} :
    mapRefsAll rename sigs = sigs ↔ ∀ reference ∈ refsAll sigs, rename reference = reference := by
  constructor
  · intro same
    have moved := refsAll_mapRefsAll rename sigs
    rw [same] at moved
    exact List.map_inj_left.mp (moved.symm.trans (List.map_id (refsAll sigs)).symm)
  · intro fixed
    exact (mapRefsAll_congr sigs fixed).trans (mapRefsAll_id sigs)

theorem TypeSig.mapRefs_eq_self_iff {rename : TypeRef → TypeRef} {sig : TypeSig} :
    sig.mapRefs rename = sig ↔ ∀ reference ∈ sig.refs, rename reference = reference := by
  have single : mapRefsAll rename [sig] = [sig] ↔ ∀ reference ∈ refsAll [sig], rename reference = reference :=
    mapRefsAll_eq_self_iff
  simpa [mapRefsAll, refsAll] using single

namespace Rehoming

variable (home : Rehoming) {reference : TypeRef} {method : MethodRef}

/-- Moving leaves alone every type that a method's return type and parameters mention. -/
def Fixes (method : MethodRef) : Prop :=
  ∀ reference ∈ method.returns.refs ++ TypeSig.refsAll method.params, home.typeRef reference = reference

instance : Decidable (home.Fixes method) := inferInstanceAs (Decidable (∀ reference ∈ _, _))

variable {home}

theorem fixes_iff : home.Fixes method ↔
    (home.methodRef method).returns = method.returns ∧ (home.methodRef method).params = method.params := by
  rw [methodRef, MethodRef.mapRefs, TypeSig.mapRefs_eq_self_iff, TypeSig.mapRefsAll_eq_self_iff, Fixes, List.forall_mem_append]

theorem typeRef_helper (own : home.isMixinLocal reference.scope = true) (beside : home.types.get? reference.fullName = none) :
    home.typeRef reference = reference.withScope (some home.mixinModule) := by
  rw [typeRef, if_pos own, beside]

end Rehoming

namespace Module

variable {module : Module} {reference : MethodRef} {owner : TypeRef} {type : TypeDef} {method : MethodDef}

theorem answers_iff : answers method reference = true ↔
    method.name = reference.name ∧ method.isStatic ≠ reference.hasThis ∧
    method.returns = reference.returns ∧ method.paramTypes = reference.params := by
  simp [answers, and_assoc]

/-- The method that a reference resolves to states the reference's signature. -/
theorem resolveMethod?_signature (resolved : module.resolveMethod? reference = some (type, method)) :
    method.returns = reference.returns ∧ method.paramTypes = reference.params := by
  obtain ⟨owner, -, -, found⟩ := resolveMethod?_eq_some.mp resolved
  have answered : answers method reference = true := by simpa using List.find?_some found
  exact (answers_iff.mp answered).2.2

end Module

namespace Rehoming

variable {home : Rehoming} {module : Module} {reference : MethodRef} {owner : TypeRef} {type : TypeDef} {method : MethodDef}

/-- The moved reference to a helper is scoped to the helper's module. -/
theorem helper_declaring (named : home.mixinModule = module.name) (declared : reference.declaring.reference? = some owner)
    (beside : home.types.get? owner.fullName = none) (resolved : module.resolveMethod? reference = some (type, method)) :
    (home.methodRef reference).declaring.reference? = some (owner.withScope (some module.name)) := by
  obtain ⟨other, declared', there, -⟩ := Module.resolveMethod?_eq_some.mp resolved
  cases Option.some.inj (declared.symm.trans declared')
  have own : home.isMixinLocal owner.scope = true := by
    rw [isMixinLocal, named]
    exact (Module.resolveType?_eq_some.mp there).1
  rw [← named, ← typeRef_helper own beside]
  exact (TypeSig.reference?_mapRefs _ _).trans (congrArg (Option.map home.typeRef) declared)

/-- The module that a helper is in resolves a moved reference to it if moving leaves the signature alone, and not otherwise. -/
theorem resolveMethod?_moved (named : home.mixinModule = module.name) (declared : reference.declaring.reference? = some owner)
    (beside : home.types.get? owner.fullName = none) (resolved : module.resolveMethod? reference = some (type, method)) :
    module.resolveMethod? (home.methodRef reference) = some (type, method) ↔ home.Fixes reference := by
  constructor
  · intro found
    obtain ⟨returns, params⟩ := Module.resolveMethod?_signature resolved
    obtain ⟨returns', params'⟩ := Module.resolveMethod?_signature found
    exact fixes_iff.mpr ⟨returns'.symm.trans returns, params'.symm.trans params⟩
  · intro fixed
    obtain ⟨returns, params⟩ := fixes_iff.mp fixed
    obtain ⟨other, declared', there, first⟩ := Module.resolveMethod?_eq_some.mp resolved
    cases Option.some.inj (declared.symm.trans declared')
    obtain ⟨-, known⟩ := Module.resolveType?_eq_some.mp there
    have here : module.isLocal (some module.name) = true := by simp [Module.isLocal]
    have alike (candidate : MethodDef) :
        Module.answers candidate (home.methodRef reference) = Module.answers candidate reference := by
      rw [Module.answers, Module.answers, returns, params]
      rfl
    exact Module.resolveMethod?_eq_some.mpr ⟨_, helper_declaring named declared beside resolved,
      Module.resolveType?_eq_some.mpr ⟨here, known⟩, by simpa only [alike] using first⟩

end Rehoming

namespace Machine.Program

variable {first second : Module} {config : WeaveConfig}

/-- A scope that is not the first module's name stands for the second one if that has the name. -/
theorem modulesOf_second (apart : second.name ≠ first.name) :
    (ofModules config [first, second]).modulesOf (some second.name) = [second] := by
  simp [modulesOf, ofModules, apart.symm]

end Machine.Program

namespace Weaver

variable {weaver after : Weaver} {mixins : List MixinDescriptor} {report : WeaveReport} {owner : TypeRef}

theorem types_get?_eq_none (beside : ∀ mixin ∈ mixins, mixin.mixinType ≠ owner.fullName) :
    (targets mixins).get? owner.fullName = none := by
  cases found : (targets mixins).get? owner.fullName with
  | none => rfl
  | some target =>
      obtain ⟨mixin, member, same⟩ := List.mem_map.mp (Table.mem_of_get?_ofList found)
      exact absurd (congrArg Prod.fst same) (beside mixin member)

/-- A program of the woven module and the mixins resolves the moved reference to a helper to the method that the mixin module
resolves it to exactly if moving leaves alone every type that its signature mentions. -/
theorem helper_resolves_iff {reference : MethodRef} {type : TypeDef} {method : MethodDef}
    (accepted : weaver.apply = (.ok report, after)) (read : weaver.descriptors = .ok mixins)
    (apart : weaver.mixins.name ≠ weaver.target.name) (declared : reference.declaring.reference? = some owner)
    (beside : ∀ mixin ∈ mixins, mixin.mixinType ≠ owner.fullName)
    (resolved : weaver.mixins.resolveMethod? reference = some (type, method)) :
    (Machine.Program.ofModules weaver.config [after.target, weaver.mixins]).method?
      ((weaver.rehoming mixins).methodRef reference) =
      some (type, method) ↔ (weaver.rehoming mixins).Fixes reference := by
  have absent : (weaver.rehoming mixins).types.get? owner.fullName = none := types_get?_eq_none beside
  have named : (weaver.rehoming mixins).mixinModule = weaver.mixins.name := rfl
  rw [← Rehoming.resolveMethod?_moved named declared absent resolved]
  obtain ⟨again, leads⟩ := leads_of_apply accepted
  cases Except.ok.inj (read.symm.trans leads.read)
  have kept : after.target.name = weaver.target.name := leads.extends_target.name
  rw [Machine.Program.method?, Rehoming.helper_declaring named declared absent resolved, Option.bind_eq_bind, Option.bind_some,
    TypeRef.withScope, Machine.Program.modulesOf_second (kept ▸ apart), List.findSome?_singleton]

end Weaver

namespace Maker

/-- Makes something of a type. -/
def make (made : TypeSig) : MethodDef :=
  ⟨"Make", ⟨MethodFlags.isStatic⟩, made, [],
    some ⟨8, true, #[], #[⟨0, .ldnull, .none⟩, ⟨1, .ret, .none⟩], 0⟩, []⟩

def helper (made : TypeSig) : TypeDef := { TypeDef.empty "" "Maker" ⟨0⟩ none with methods := [make made] }

def reference (made : TypeSig) : MethodRef := (make made).ref (.classType ⟨none, "", "Maker"⟩)

def test : MethodDef :=
  ⟨"Test", ⟨MethodFlags.isStatic⟩, .void, [], some ⟨8, true, #[], #[⟨0, .ret, .none⟩], 0⟩, []⟩

/-- A method that takes the place of the target's and makes something. -/
def patch (made : TypeSig) : MethodDef :=
  { test with
    body := some ⟨8, true, #[], #[⟨0, .call, .method (reference made)⟩, ⟨1, .pop, .none⟩, ⟨2, .ret, .none⟩], 0⟩
    attributes := [Leak.marked .overwrite []] }

def mixinType (made : TypeSig) : TypeDef :=
  { TypeDef.empty "" "M" ⟨0⟩ none with methods := [patch made], attributes := [Leak.marked .mixin [.type "T"]] }

def weaver (made : TypeSig) : Weaver :=
  .new .standard ⟨"Game", [], [{ TypeDef.empty "" "T" ⟨0⟩ none with methods := [test] }]⟩
    ⟨"Mods", [], [mixinType made, helper made, TypeDef.empty "" "Item" ⟨0⟩ none]⟩ ⟨[]⟩

def mixin : MixinDescriptor := ⟨"M", .type "T", 0, [], [.overwrite 0 "Test"]⟩

def moved (made : TypeSig) : MethodRef := ((weaver made).rehoming [mixin]).methodRef (reference made)

/-- The woven module with the mixins beside it. -/
def program (made : TypeSig) : Machine.Program :=
  .ofModules (weaver made).config [(weaver made).apply.2.target, (weaver made).mixins]

theorem accepted {made : TypeSig} (succeeds : (weaver made).apply.1.isOk = true) :
    (weaver made).apply = (.ok ((weaver made).apply.1.toOption.getD default), (weaver made).apply.2) :=
  Prod.ext (ok_of_isOk default succeeds) rfl

/-- A type of another assembly. -/
def text : TypeSig := .classType ⟨some "mscorlib", "System", "Text"⟩

/-- A helper that makes something of another assembly is found. -/
theorem helper_resolves_text : (weaver text).apply.1.isOk = true ∧
    (weaver text).mixins.resolveMethod? (reference text) = some (helper text, make text) ∧
    ((program text).method? (moved text) = some (helper text, make text) ↔
      ((weaver text).rehoming [mixin]).Fixes (reference text)) ∧
    ((weaver text).rehoming [mixin]).Fixes (reference text) := by
  have succeeds : (weaver text).apply.1.isOk = true := by decide +kernel
  have resolved : (weaver text).mixins.resolveMethod? (reference text) = some (helper text, make text) := rfl
  exact ⟨succeeds, resolved,
    Weaver.helper_resolves_iff (accepted succeeds) (ok_of_toOption (by decide +kernel))
      (by decide +kernel) rfl (by decide +kernel) resolved,
    by decide +kernel⟩

/-- A type of the mixins' own module. -/
def item : TypeSig := .classType ⟨none, "", "Item"⟩

/-- A helper that makes something of its own module is not found, and what overwrites the target's method calls it. -/
theorem helper_lost : (weaver item).apply.1.isOk = true ∧ (weaver item).descriptors.toOption = some [mixin] ∧
    (weaver item).mixins.resolveMethod? (reference item) = some (helper item, make item) ∧
    reference item ∈ (patch item).operands.filterMap Operand.method? ∧
    moved item ∈ (weaver item).apply.2.target.operands.filterMap Operand.method? ∧
    (program item).method? (moved item) = none :=
  ⟨by decide +kernel, by decide +kernel, rfl, by decide +kernel, by decide +kernel, by decide +kernel⟩

end Maker

end CilWeave
