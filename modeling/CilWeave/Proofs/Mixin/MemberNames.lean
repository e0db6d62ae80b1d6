import CilWeave.Proofs.Mixin.Accounting
import CilWeave.Proofs.Mixin.Extension

/-!
Names of members after a weave. Fields are refused if their name is taken, and a callback gets a name that is not;
of an interface's methods only names and parameters are looked at, for each of them before any is added, so
interfaces alone can give a type two methods of one full name.
-/

namespace CilWeave

open Stateful

namespace MixinContext

variable {context : MixinContext} {state after : PatchState}

theorem mapField_fieldNames {descriptor : FieldDescriptor} {name : String} {field : FieldRef}
    (mapped : context.mapField state descriptor = .ok (after, name, field)) (distinct : state.type.fieldNames.Nodup) :
    after.type.fieldNames.Nodup := by
  obtain ⟨-, -, ⟨names, -⟩ | ⟨names, -, -, free⟩⟩ := mapField_ok mapped
  · exact names ▸ distinct
  · exact names ▸ distinct.append (List.nodup_singleton name) (List.disjoint_singleton.mpr free)

theorem mapFields_fieldNames {descriptors : List FieldDescriptor} {fields mapped : Table FieldRef}
    (ran : context.mapFields descriptors state fields = .ok (after, mapped)) (distinct : state.type.fieldNames.Nodup) :
    after.type.fieldNames.Nodup :=
  mapFields_preserves (motive := fun later => later.type.fieldNames.Nodup)
    (fun _ _ _ _ _ one distinct => mapField_fieldNames one distinct) distinct ran

theorem mapFields_memberNames {descriptors : List FieldDescriptor} {fields mapped : Table FieldRef}
    (ran : context.mapFields descriptors state fields = .ok (after, mapped)) :
    after.type.memberNames = state.type.memberNames := by
  rw [TypeDef.memberNames, TypeDef.memberNames, (mapFields_methods ran).1, (mapFields_grows ran).fullName]

end MixinContext

section

variable {holds : TypeDef → Prop}
  (maps : ∀ context descriptors before after table fields,
    MixinContext.mapFields context descriptors before table = .ok (after, fields) → holds before.type → holds after.type)

include maps

/-- What mapping fields and each operation keep holds of the types of the module with a mixin applied. -/
theorem MixinEngine.apply_types {engine : MixinEngine} {target woven : Module} {mixin : MixinDescriptor}
    {assemblies known : Assemblies} {applied : AppliedMixin}
    (step : ∀ context op state after, engine.Works target mixin assemblies context op state after →
      holds state.type → holds after.type)
    (each : ∀ type ∈ target.types, holds type)
    (accepted : engine.apply target mixin assemblies = (.ok (applied, woven), known)) :
    ∀ type ∈ woven.types, holds type := by
  obtain ⟨index, type, mixinDef, mapped, context, final, subjects, begun, ran, -, rfl⟩ := apply_ok accepted
  obtain ⟨fields, -, fieldsMapped⟩ := begin_mapped begun
  obtain ⟨-, held, -⟩ := subjects_ok subjects
  have begins : holds mapped.type := maps _ _ _ _ _ _ fieldsMapped (each type (List.mem_of_getElem? held))
  have worked : holds final.type := by
    refine applyOps_preserves (motive := fun state => holds state.type) ?_ ?_ ran
    · intro earlier op later state after between known split before one
      exact step context op state after
        ⟨index, type, mixinDef, mapped, earlier, later, between, known, subjects, begun, split, before, one⟩
    · exact begins
  intro other listed
  rw [finish_types] at listed
  rcases List.mem_or_eq_of_mem_set listed with old | rfl
  · exact each other old
  · exact worked

/-- What mapping fields and each operation keep holds of the types of the module that all mixins leave. -/
theorem Weaver.applyAll_types {weaver : Weaver} {mixins : List MixinDescriptor} {applied : List AppliedMixin} {woven : Module}
    {known : Assemblies}
    (step : ∀ context op state after, weaver.Works mixins context op state after → holds state.type → holds after.type)
    (each : ∀ type ∈ weaver.target.types, holds type)
    (ran : applyAll (weaver.engine mixins) mixins weaver.target weaver.assemblies = (.ok (applied, woven), known)) :
    ∀ type ∈ woven.types, holds type := by
  refine applyAll_reaches (motive := fun _ module => ∀ type ∈ module.types, holds type)
    each ?_ (List.append_nil mixins).symm ran
  intro earlier mixin later applied one target middle between known split before accepted kept
  exact MixinEngine.apply_types maps (fun context op state after works =>
    step context op state after ⟨earlier, mixin, later, applied, target, between, split, before, works⟩) kept accepted

end

theorem TypeDef.Grows.memberNames {type later : TypeDef} (grows : type.Grows later) :
    type.memberNames <+: later.memberNames := by
  rw [List.prefix_iff_getElem?]
  intro index inside
  rw [TypeDef.memberNames, List.length_map] at inside
  obtain ⟨other, there, body, rfl⟩ := grows.methods index _ (List.getElem?_eq_getElem inside)
  rw [TypeDef.memberNames, List.getElem?_map, there, Option.map_some, grows.fullName]
  simp only [TypeDef.memberNames, List.getElem_map]
  rfl

/-- An operation adds methods whose full names are apart from each other and from those of the type's methods. -/
def PatchState.AddsApart (state after : PatchState) : Prop :=
  ∃ added, after.type.methods = state.type.methods ++ added ∧
    (added.map fun method => method.fullNameIn state.type.fullName).Nodup ∧
    ∀ method ∈ added, state.type.method? (method.fullNameIn state.type.fullName) = none

theorem TypeDef.method?_eq_none {type : TypeDef} {name : String} : type.method? name = none ↔ name ∉ type.memberNames := by
  rw [method?, List.find?_eq_none, memberNames, List.mem_map]
  simp only [beq_iff_eq, not_exists, not_and]

/-- Methods that are added make no two of one full name just if they are apart. -/
theorem PatchState.addsApart_iff {state after : PatchState} {added : List MethodDef}
    (methods : after.type.methods = state.type.methods ++ added) (fullName : after.type.fullName = state.type.fullName)
    (distinct : state.type.memberNames.Nodup) : after.type.memberNames.Nodup ↔ state.AddsApart after := by
  have names : after.type.memberNames = state.type.memberNames ++ added.map fun method =>
    method.fullNameIn state.type.fullName := by
    rw [TypeDef.memberNames, methods, fullName, List.map_append]
    rfl
  rw [names, List.nodup_append]
  constructor
  · rintro ⟨-, apart, fresh⟩
    refine ⟨added, methods, apart, fun method member => ?_⟩
    exact TypeDef.method?_eq_none.mpr fun taken => fresh _ taken _ (List.mem_map_of_mem member) rfl
  · rintro ⟨others, same, apart, fresh⟩
    cases List.append_cancel_left (methods.symm.trans same)
    refine ⟨distinct, apart, ?_⟩
    rintro _ taken _ new rfl
    obtain ⟨method, member, rfl⟩ := List.mem_map.mp new
    exact TypeDef.method?_eq_none.mp (fresh method member) taken

/-- Types in the signatures of methods, and the targets of mixins, have plain names. -/
structure Weaver.PlainlyNamed (weaver : Weaver) (mixins : List MixinDescriptor) : Prop where
  names : ∀ mixin ∈ mixins, (TypeRef.ofFullName none mixin.target.fullName).Plain
  target : weaver.target.EachMethod MethodDef.Plain
  patches : weaver.mixins.EachMethod MethodDef.Plain

namespace Weaver

variable {weaver : Weaver} {mixins : List MixinDescriptor} {context : MixinContext} {op : MixinOp}
  {state after : PatchState}

namespace PlainlyNamed

variable (plainly : weaver.PlainlyNamed mixins)

include plainly

theorem ported_plain (works : weaver.Works mixins context op state after) {patch : MethodDef}
    (member : patch ∈ context.mixinDef.methods) (name : String) (flags : MethodFlags) :
    (context.home.method patch name flags).Plain :=
  Rehoming.method_plain (works.plainTargets plainly.names) (plainly.patches _ works.mixinDef patch member) name flags

theorem step (context : MixinContext) (op : MixinOp) (state after : PatchState) (method : MethodDef)
    (works : weaver.Works mixins context op state after) (makes : context.Makes op state after method)
    (plain : ∀ earlier ∈ state.type.methods, earlier.Plain) : method.Plain := by
  cases makes with
  | kept member => exact plain method member
  | implementation _ member _ => exact plainly.ported_plain works member _ _
  | overwritten _ _ _ _ held _ =>
      have own := plain _ (List.mem_of_getElem? held)
      exact ⟨own.returns, own.params⟩
  | callback injection _ own _ _ =>
      subst own
      exact plainly.ported_plain works (List.mem_of_getElem? injection.patched) _ _
  | injected injection _ _ before _ =>
      subst before
      have own := plain _ (List.mem_of_getElem? injection.held)
      exact ⟨own.returns, own.params⟩

theorem callback_apart {injection : Injection}
    (works : weaver.Works mixins injection.context (.inject injection.descriptor) injection.before after) :
    injection.before.type.method? (injection.callback.fullNameIn injection.before.type.fullName) = none := by
  have plain := works.reaches_methods plainly.step plainly.target
  have own : injection.callback.Plain := plainly.ported_plain works (List.mem_of_getElem? injection.patched) _ _
  rw [TypeDef.method?_eq_none]
  intro taken
  obtain ⟨method, member, same⟩ := List.mem_map.mp taken
  -- Of plain names the full name tells the simple one, which `uniqueName` made differ.
  have others := plain method member
  exact injection.callback_fresh method member (others.name_eq own same)

end PlainlyNamed

theorem Works.applyOp (works : weaver.Works mixins context op state after) :
    ∃ target assemblies known, (weaver.engine mixins).applyOp context target assemblies state op = (.ok after, known) := by
  obtain ⟨-, -, -, -, middle, -, -, -, -, -, -, -, -, -, between, known, -, -, -, -, one⟩ := works
  exact ⟨middle, between, known, one⟩

theorem Works.fieldNames (works : weaver.Works mixins context op state after) :
    after.type.fieldNames = state.type.fieldNames := by
  obtain ⟨target, assemblies, known, one⟩ := works.applyOp
  obtain ⟨added, advances⟩ := MixinEngine.applyOp_advances one
  exact congrArg (List.map FieldDef.name) advances.fields

theorem Works.addsApart_iff {interface : TypeSig} (works : weaver.Works mixins context (.implements interface) state after)
    (distinct : state.type.memberNames.Nodup) : after.type.memberNames.Nodup ↔ state.AddsApart after := by
  obtain ⟨target, assemblies, known, one⟩ := works.applyOp
  obtain ⟨_, _, methods, -, -, type, -⟩ := MixinContext.applyImplements_ok (congrArg Prod.fst one)
  exact PatchState.addsApart_iff (congrArg TypeDef.methods type) (MixinEngine.applyOp_grows one).fullName distinct

/-- Operations keep methods distinct if those that interfaces add are apart. -/
theorem PlainlyNamed.keeps_distinct (plainly : weaver.PlainlyNamed mixins)
    (apart : ∀ context interface state later, weaver.Works mixins context (.implements interface) state later →
      state.AddsApart later)
    (works : weaver.Works mixins context op state after) (distinct : state.type.memberNames.Nodup) :
    after.type.memberNames.Nodup := by
  cases op with
  | implements interface => exact (works.addsApart_iff distinct).mpr (apart context interface state after works)
  | overwrite index name =>
      obtain ⟨target, assemblies, known, one⟩ := works.applyOp
      obtain ⟨_, _, position, _, -, -, named, -, -, type, touches, -⟩ :=
        MixinContext.applyOverwrite_ok (congrArg Prod.fst one)
      rwa [(PatchState.advances_overwrite named type touches).names, List.map_nil, List.append_nil]
  | inject descriptor =>
      obtain ⟨target, assemblies, known, one⟩ := works.applyOp
      obtain ⟨injection, rfl, rfl, rfl, rfl⟩ := Injection.of_applied (congrArg Prod.fst one)
      have fresh := TypeDef.method?_eq_none.mp (plainly.callback_apart works)
      rw [(PatchState.advances_inject injection).names]
      exact distinct.append (List.nodup_singleton _) (List.disjoint_singleton.mpr fresh)

/-- Names of fields stay distinct. Full names of methods do just if the methods that each interface adds have names that
are apart from each other and from those of the methods that the type has by then. -/
theorem members_distinct {weaver after : Weaver} {report : WeaveReport} {mixins : List MixinDescriptor}
    (accepted : weaver.apply = (.ok report, after)) (read : weaver.descriptors = .ok mixins)
    (plainly : weaver.PlainlyNamed mixins) (fields : ∀ type ∈ weaver.target.types, type.fieldNames.Nodup)
    (methods : ∀ type ∈ weaver.target.types, type.memberNames.Nodup) :
    (∀ type ∈ after.target.types, type.fieldNames.Nodup) ∧
      ((∀ type ∈ after.target.types, type.memberNames.Nodup) ↔
        ∀ context interface state later, weaver.Works mixins context (.implements interface) state later →
          state.AddsApart later) := by
  obtain ⟨again, applied, woven, known, outcome, listed, ran, verified, same⟩ := apply_woven accepted
  cases Except.ok.inj (read.symm.trans listed)
  have outline : after.target.outline = woven.outline := same ▸ Verification.run_outline verified
  have fieldsAlike := Module.forall_types_of_outline outline fun type => type.fields.Nodup
  have methodsAlike := Module.forall_types_of_outline outline fun type => (type.methods.map Prod.fst).Nodup
  simp only [TypeDef.outline_memberNames] at methodsAlike
  refine ⟨?_, methodsAlike.trans ⟨fun distinct context interface state later works => ?_, fun apart => ?_⟩⟩
  · refine fieldsAlike.mpr (applyAll_types ?_ ?_ fields ran)
    · exact fun _ _ _ _ _ _ mapped distinct => MixinContext.mapFields_fieldNames mapped distinct
    · intro context op state later works distinct
      show later.type.fieldNames.Nodup
      rw [works.fieldNames]
      exact distinct
  · -- Methods are never taken away, so two of one name would still be there in the end.
    obtain ⟨target, assemblies, reached, one⟩ := works.applyOp
    obtain ⟨type, found, grown⟩ := works.hosted ran
    have final : later.type.memberNames.Nodup :=
      (distinct type (List.mem_of_find?_eq_some found)).sublist grown.grows.memberNames.sublist
    have before : state.type.memberNames.Nodup := final.sublist (MixinEngine.applyOp_grows one).memberNames.sublist
    exact (works.addsApart_iff before).mp final
  · refine applyAll_types ?_ ?_ methods ran
    · exact fun _ _ _ _ _ _ mapped distinct => MixinContext.mapFields_memberNames mapped ▸ distinct
    · exact fun context op state later works distinct => plainly.keeps_distinct apart works distinct

end Weaver

namespace Lookalike

def mixins : List MixinDescriptor := [⟨"M", .type "T", 0, [], [.implements (.classType ⟨none, "", "I"⟩)]⟩]

/-- A type without methods gets one that is called as no other. -/
theorem members_distinct_alone : (weaver [] Deeper.nothing).apply = (.ok report, woven) ∧
    (weaver [] Deeper.nothing).descriptors = .ok mixins ∧ (weaver [] Deeper.nothing).PlainlyNamed mixins ∧
    (∀ type ∈ (weaver [] Deeper.nothing).target.types, type.fieldNames.Nodup) ∧
    (∀ type ∈ (weaver [] Deeper.nothing).target.types, type.memberNames.Nodup) ∧
    (∀ type ∈ woven.target.types, type.fieldNames.Nodup) ∧
    ((∀ type ∈ woven.target.types, type.memberNames.Nodup) ↔
      ∀ context interface state later, (weaver [] Deeper.nothing).Works mixins context (.implements interface) state later →
        state.AddsApart later) := by
  have accepted : (weaver [] Deeper.nothing).apply = (.ok report, woven) :=
    Prod.ext (ok_of_isOk default (by decide +kernel)) rfl
  have read : (weaver [] Deeper.nothing).descriptors = .ok mixins := by
    have succeeds : (weaver [] Deeper.nothing).descriptors.isOk = true := by decide +kernel
    have same : (weaver [] Deeper.nothing).descriptors.toOption.getD [] = mixins := by decide +kernel
    rw [ok_of_isOk [] succeeds, same]
  have plainly : (weaver [] Deeper.nothing).PlainlyNamed mixins := by
    refine ⟨by decide +kernel, ?_, ?_⟩ <;> unfold Module.EachMethod <;> decide +kernel
  have fields : ∀ type ∈ (weaver [] Deeper.nothing).target.types, type.fieldNames.Nodup := by decide +kernel
  have methods : ∀ type ∈ (weaver [] Deeper.nothing).target.types, type.memberNames.Nodup := by decide +kernel
  exact ⟨accepted, read, plainly, fields, methods, Weaver.members_distinct accepted read plainly fields methods⟩

end Lookalike

namespace Overload

def count : MethodDef := { Deeper.reset with name := "Count", flags := ⟨0⟩ }

/-- An interface that lists methods which differ in what they return, which is not looked at. -/
def interface : TypeDef :=
  { TypeDef.empty "" "I" ⟨TypeFlags.isInterface⟩ none with
    methods := [{ count with body := none }, { count with returns := .primitive .int32, body := none }] }

def mixinType : TypeDef :=
  { TypeDef.empty "" "M" ⟨0⟩ none with
    methods := [count]
    attributes := [Deeper.marked .mixin [.type "T"], Deeper.marked .implements [.type "I"]] }

def weaver : Weaver :=
  .new .standard ⟨"Game", [], [TypeDef.empty "" "T" ⟨0⟩ none]⟩ ⟨"Mods", [], [interface, mixinType]⟩ ⟨[]⟩

/-- The one method that answers both is added twice. -/
theorem members_doubled : (∀ type ∈ weaver.target.types, type.fieldNames.Nodup ∧ type.memberNames.Nodup) ∧
    weaver.apply.1.isOk = true ∧
    weaver.apply.2.target.types.map TypeDef.memberNames = [["System.Void T::Count()", "System.Void T::Count()"]] :=
  ⟨by decide +kernel, by decide +kernel, by decide +kernel⟩

end Overload

end CilWeave
