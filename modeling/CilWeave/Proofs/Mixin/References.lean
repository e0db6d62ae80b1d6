import CilWeave.Proofs.Mixin.Extension
import CilWeave.Proofs.Mixin.Operands
import CilWeave.Proofs.Mixin.WovenVerification

/-!
Where the members are that woven code names. What moves to a target keeps naming members of the target, or of other
assemblies, or the fields that its own fields stand for; members of mixin types are looked for on the types that the
mixins are for, and only methods that implement interfaces and fields that are added get there under their names.
-/

namespace CilWeave

open Stateful

theorem TypeDef.Extends.answers {type later : TypeDef} (extended : type.Extends later) {method : MethodDef}
    {reference : MethodRef}
    (member : method ∈ type.methods) (answered : Module.answers method reference = true) :
    ∃ other ∈ later.methods, Module.answers other reference = true := by
  obtain ⟨index, held⟩ := List.getElem?_of_mem member
  obtain ⟨other, there, body, rfl⟩ := extended.grows.methods index method held
  exact ⟨_, List.mem_of_getElem? there, answered⟩

namespace Module

variable {module later : Module} {owner : TypeRef} {type : TypeDef}

/-- The module has the member that an operand names. -/
def defines (module : Module) : Operand → Bool
  | .method reference => (module.resolveMethod? reference).isSome
  | .field reference => (module.resolveField? reference).isSome
  | _ => true

/-- What an operand names on a type of the module is there. -/
def Resolves (module : Module) (operand : Operand) : Prop :=
  ∀ owner ∈ operand.owner?, module.isLocal owner.scope = true → module.defines operand = true

instance (module : Module) (operand : Operand) : Decidable (module.Resolves operand) :=
  inferInstanceAs (Decidable (∀ owner ∈ operand.owner?, module.isLocal owner.scope = true →
    module.defines operand = true))

theorem resolveType?_eq_some : module.resolveType? owner = some type ↔
    module.isLocal owner.scope = true ∧ module.type? owner.fullName = some type := by
  rw [resolveType?, Option.ite_none_right_eq_some]

theorem resolveMethod?_eq_some {reference : MethodRef} {method : MethodDef} :
    module.resolveMethod? reference = some (type, method) ↔ ∃ owner, reference.declaring.reference? = some owner ∧
      module.resolveType? owner = some type ∧ type.methods.find? (answers · reference) = some method := by
  simp [resolveMethod?, Option.bind_eq_some_iff]

theorem resolveField?_eq_some {reference : FieldRef} {field : FieldDef} :
    module.resolveField? reference = some (type, field) ↔ ∃ owner, reference.declaring.reference? = some owner ∧
      module.resolveType? owner = some type ∧ type.field? reference.name = some field := by
  simp [resolveField?, Option.bind_eq_some_iff]

theorem defines_method {reference : MethodRef} {method : MethodDef} (declared : reference.declaring.reference? = some owner)
    (found : module.resolveType? owner = some type) (member : method ∈ type.methods)
    (answered : answers method reference = true) :
    module.defines (.method reference) = true := by
  have some : (type.methods.find? (answers · reference)).isSome = true := List.find?_isSome.mpr ⟨method, member, answered⟩
  obtain ⟨first, there⟩ := Option.isSome_iff_exists.mp some
  exact Option.isSome_iff_exists.mpr ⟨_, resolveMethod?_eq_some.mpr ⟨owner, declared, found, there⟩⟩

theorem defines_field {reference : FieldRef} (declared : reference.declaring.reference? = some owner)
    (found : module.resolveType? owner = some type) (member : reference.name ∈ type.fieldNames) :
    module.defines (.field reference) = true := by
  obtain ⟨field, there⟩ := Option.isSome_iff_exists.mp (TypeDef.field?_isSome.mpr member)
  exact Option.isSome_iff_exists.mpr ⟨_, resolveField?_eq_some.mpr ⟨owner, declared, found, there⟩⟩

theorem Extends.isLocal (extended : module.Extends later) (scope : Option String) :
    later.isLocal scope = module.isLocal scope := by
  rw [Module.isLocal, Module.isLocal, extended.name]

theorem Extends.resolveType? (extended : module.Extends later) (found : module.resolveType? owner = some type) :
    ∃ other, later.resolveType? owner = some other ∧ type.Extends other := by
  obtain ⟨here, found⟩ := resolveType?_eq_some.mp found
  obtain ⟨other, there, extension⟩ := extended.type? found
  exact ⟨other, resolveType?_eq_some.mpr ⟨(extended.isLocal owner.scope).trans here, there⟩, extension⟩

/-- What a module defines it still defines when it has been extended. -/
theorem Extends.defines (extended : module.Extends later) {operand : Operand} (defined : module.defines operand = true) :
    later.defines operand = true := by
  cases operand with
  | method reference =>
      obtain ⟨⟨type, method⟩, resolved⟩ := Option.isSome_iff_exists.mp defined
      obtain ⟨owner, declared, found, first⟩ := resolveMethod?_eq_some.mp resolved
      obtain ⟨other, there, extension⟩ := extended.resolveType? found
      have answered : answers method reference = true := by simpa using List.find?_some first
      obtain ⟨same, member, answered⟩ := extension.answers (List.mem_of_find?_eq_some first) answered
      exact defines_method declared there member answered
  | field reference =>
      obtain ⟨⟨type, field⟩, resolved⟩ := Option.isSome_iff_exists.mp defined
      obtain ⟨owner, declared, found, first⟩ := resolveField?_eq_some.mp resolved
      obtain ⟨other, there, extension⟩ := extended.resolveType? found
      have member := TypeDef.field?_isSome.mp (Option.isSome_of_eq_some first)
      exact defines_field declared there (extension.fields.subset member)
  | _ => rfl

end Module

theorem TypeRef.scope_ofFullName (scope : Option String) (fullName : String) : (ofFullName scope fullName).scope = scope := by
  unfold ofFullName
  dsimp only
  split <;> rfl

theorem TypeSig.reference?_mapRefs (rename : TypeRef → TypeRef) (sig : TypeSig) :
    (sig.mapRefs rename).reference? = sig.reference?.map rename := by
  cases sig <;> simp [mapRefs, reference?]

theorem WeaveConfig.fieldDescriptor_field {config : WeaveConfig} {owner : String} {field : FieldDef}
    {descriptor : FieldDescriptor}
    (read : config.fieldDescriptor owner field = .ok descriptor) : descriptor.field = field.name := by
  unfold fieldDescriptor at read
  split at read
  · cases read
    rfl
  · obtain ⟨args, -, read⟩ := bind_ok read
    obtain ⟨target, -, read⟩ := bind_ok read
    split at read
    · cases read
      rfl
    · obtain ⟨name, -, read⟩ := bind_ok read
      cases read
      rfl

theorem Rehoming.mapped?_found {home : Rehoming} {reference field : FieldRef} (mapped : home.mapped? reference = some field) :
    home.fields.get? reference.name = some field := by
  obtain ⟨owner, -, found⟩ := Option.bind_eq_some_iff.mp mapped
  split at found
  · exact found
  · cases found

theorem WeaveConfig.carrierKind?_owned {config : WeaveConfig} {sig : TypeSig}
    (carrier : (config.carrierKind? sig).isSome = true) :
    ∃ owner, sig.reference? = some owner := by
  unfold carrierKind? at carrier
  split at carrier
  · exact ⟨_, rfl⟩
  · exact ⟨_, rfl⟩
  · cases carrier

namespace Weaver

variable {weaver : Weaver} {mixins : List MixinDescriptor}

/-- What becomes of references in code that moves to the target, but for the fields that have been mapped. -/
def rehoming (weaver : Weaver) (mixins : List MixinDescriptor) : Rehoming :=
  ⟨weaver.config, weaver.mixins.name, weaver.target.name, "", targets mixins, .empty⟩

theorem rehoming_fieldRef (field : FieldRef) :
    (weaver.rehoming mixins).fieldRef field = field.mapRefs (weaver.rehoming mixins).typeRef := by
  have unmapped : (weaver.rehoming mixins).mapped? field = none := by
    unfold Rehoming.mapped?
    cases field.declaring.reference? with
    | none => rfl
    | some owner =>
      dsimp only [Option.bind_eq_bind, Option.bind_some]
      split <;> rfl
  rw [Rehoming.fieldRef, unmapped, Option.getD_none]

theorem owner?_rehomed (operand : Operand) :
    ((weaver.rehoming mixins).operand operand).owner? = operand.owner?.map (weaver.rehoming mixins).typeRef := by
  cases operand with
  | method reference => exact TypeSig.reference?_mapRefs _ _
  | field reference =>
      rw [Rehoming.operand, rehoming_fieldRef]
      exact TypeSig.reference?_mapRefs _ _
  | _ => rfl

/-- A moved reference is to a type of the target only if it named a mixin type, or a type of the target already. -/
theorem local_typeRef (apart : weaver.mixins.name ≠ weaver.target.name) {owner : TypeRef}
    (here : weaver.target.isLocal ((weaver.rehoming mixins).typeRef owner).scope = true) :
    owner.scope = some weaver.target.name ∨ weaver.mixins.isLocal owner.scope = true ∧
      ∃ mixin ∈ mixins, mixin.mixinType = owner.fullName ∧
        (weaver.rehoming mixins).typeRef owner = .ofFullName none mixin.target.fullName := by
  unfold Rehoming.typeRef at here ⊢
  split at here
  · rename_i own
    split at here
    · rename_i target found
      obtain ⟨mixin, member, same⟩ := List.mem_map.mp (Table.mem_of_get?_ofList found)
      obtain ⟨named, rfl⟩ := Prod.mk.inj same
      exact .inr ⟨own, mixin, member, named, by rw [if_pos own]⟩
    · exact absurd (eq_of_beq here) apart
  · split at here
    · exact .inl ‹_›
    · rename_i foreign elsewhere
      cases scope : owner.scope with
      | none =>
          rw [scope] at foreign
          exact absurd rfl foreign
      | some name =>
          rw [scope] at here
          exact .inl (congrArg some (eq_of_beq here))

/-- What a weave of mixins leads to: what they leave, which may have been extended since. -/
structure Leads (weaver : Weaver) (mixins : List MixinDescriptor) (final : Module) : Prop where
  read : weaver.descriptors = .ok mixins
  woven : ∃ applied woven known, woven.Extends final ∧
    applyAll (weaver.engine mixins) mixins weaver.target weaver.assemblies = (.ok (applied, woven), known)

theorem leads_of_apply {after : Weaver} {report : WeaveReport} (accepted : weaver.apply = (.ok report, after)) :
    ∃ mixins, weaver.Leads mixins after.target := by
  obtain ⟨mixins, applied, woven, known, outcome, read, ran, verified, same⟩ := apply_woven accepted
  exact ⟨mixins, read, applied, woven, known, same ▸ Verification.run_extends verified, ran⟩

namespace Leads

variable {final : Module} (leads : weaver.Leads mixins final)

include leads

theorem extends_target : weaver.target.Extends final := by
  obtain ⟨-, applied, woven, known, extended, ran⟩ := leads
  exact (applyAll_extends ran).trans extended

/-- The type that an operation leaves is there in the end, and may have been extended. -/
theorem hosts {context : MixinContext} {op : MixinOp} {state after : PatchState}
    (works : weaver.Works mixins context op state after) :
    ∃ type, final.type? after.type.fullName = some type ∧ after.type.Extends type := by
  obtain ⟨-, applied, woven, known, extended, ran⟩ := leads
  obtain ⟨type, found, grown⟩ := works.hosted ran
  obtain ⟨other, there, more⟩ := extended.type? found
  exact ⟨other, there, .trans _ _ _ grown more⟩

theorem resolves_own {context : MixinContext} {op : MixinOp} {state after : PatchState}
    (works : weaver.Works mixins context op state after) :
    ∃ host, final.resolveType? after.type.ref = some host ∧ after.type.Extends host := by
  obtain ⟨host, there, extended⟩ := leads.hosts works
  exact ⟨host, Module.resolveType?_eq_some.mpr ⟨rfl, there⟩, extended⟩

theorem adds {mixin : MixinDescriptor} (member : mixin ∈ mixins) {name : String}
    (added : FieldDescriptor.add name ∈ mixin.fields) :
    ∃ type, final.type? mixin.target.fullName = some type ∧ name ∈ type.fieldNames := by
  obtain ⟨-, applied, woven, known, extended, ran⟩ := leads
  obtain ⟨earlier, later, split⟩ := List.append_of_mem member
  obtain ⟨done, one, middle, next, between, reached, others, -, accepted, rest⟩ := applyAll_split split ran
  obtain ⟨index, type, mixinDef, mapped, context, last, subjects, begun, -⟩ := MixinEngine.apply_ok accepted
  obtain ⟨fields, -, fieldsMapped⟩ := MixinEngine.begin_mapped begun
  obtain ⟨-, host, found, grown⟩ := MixinEngine.hosts subjects begun (List.nil_append _).symm rfl accepted
  obtain ⟨other, there, more⟩ := ((applyAll_extends rest).trans extended).type? found
  exact ⟨other, there, more.fields.subset (grown.fields.subset (MixinContext.mapFields_added fieldsMapped added))⟩

end Leads

/-- What a mixin's operations work with: its type, and the fields that have been mapped, which are fields of the
target type. -/
theorem Works.setting {context : MixinContext} {op : MixinOp} {state after : PatchState}
    (works : weaver.Works mixins context op state after) : ∃ mixin ∈ mixins,
      context.home = { weaver.rehoming mixins with mixinType := mixin.mixinType, fields := context.home.fields } ∧
      weaver.mixins.type? mixin.mixinType = some context.mixinDef ∧ after.type.fullName = mixin.target.fullName ∧
      context.targetSig = after.type.sig ∧
      (∀ key field, context.home.fields.get? key = some field →
        field.declaring = context.targetSig ∧ field.name ∈ after.type.fieldNames) ∧
      ∀ key ∈ mixin.fields.map FieldDescriptor.field, (context.home.fields.get? key).isSome = true := by
  obtain ⟨earlier, mixin, later, applied, middle, between, split, before, index, type, mixinDef, mapped, done, rest, reached,
    known, subjects, begun, ops, ran, operated⟩ := works
  obtain ⟨fields, rfl, fieldsMapped⟩ := MixinEngine.begin_mapped begun
  obtain ⟨-, -, found⟩ := MixinEngine.subjects_ok subjects
  have name := MixinEngine.subjects_fullName subjects
  have worked := MixinEngine.applyOps_extends (MixinEngine.applyOps_concat ran operated)
  have whole := TypeDef.Extends.trans _ _ _ (MixinContext.mapFields_extends fieldsMapped) worked
  refine ⟨mixin, split ▸ List.mem_append_right earlier List.mem_cons_self, ?_, found,
    whole.grows.fullName.trans name, whole.grows.sig.symm, fun key field there => ?_, fun key member => ?_⟩
  · rw [(applyAll_extends before).name]
    rfl
  · obtain ⟨declared, listed⟩ := MixinContext.mapFields_mapped fieldsMapped nofun key field there
    exact ⟨declared, worked.fields.subset listed⟩
  · exact MixinContext.mapFields_covers fieldsMapped (.inr member)

/-- The fields of a mixin are those of its type, if that is the only type of its name. -/
theorem descriptor_fields (read : weaver.descriptors = .ok mixins) (distinct : (weaver.mixins.types.map TypeDef.fullName).Nodup)
    {mixin : MixinDescriptor} (member : mixin ∈ mixins) {type : TypeDef}
    (found : weaver.mixins.type? mixin.mixinType = some type) :
    mixin.fields.map FieldDescriptor.field = type.fieldNames := by
  obtain ⟨own, listed, name, fields, -⟩ := descriptors_ok read member
  cases described_type distinct listed name found
  exact mapM_map (fun _ _ => WeaveConfig.fieldDescriptor_field) fields

theorem descriptor_unique (read : weaver.descriptors = .ok mixins) (distinct : (weaver.mixins.types.map TypeDef.fullName).Nodup)
    {mixin other : MixinDescriptor} (member : mixin ∈ mixins) (among : other ∈ mixins)
    (same : mixin.mixinType = other.mixinType) :
    mixin = other := by
  obtain ⟨described, annotated, sorted⟩ := bind_ok read
  cases sorted
  obtain ⟨type, listed, one⟩ := WeaveConfig.mixinDescriptors_ok annotated (List.mem_mergeSort.mp member)
  obtain ⟨twin, there, two⟩ := WeaveConfig.mixinDescriptors_ok annotated (List.mem_mergeSort.mp among)
  have named : type.fullName = twin.fullName := by
    rw [← (WeaveConfig.mixinDescriptor?_ok one).1, ← (WeaveConfig.mixinDescriptor?_ok two).1, same]
  cases List.inj_on_of_nodup_map distinct listed there named
  exact Option.some.inj (Except.ok.inj (one.symm.trans two))

/-- Both modules have the members that their own code names on their types, and the target has those that the mixins'
code names on its types, once they are moved. Types of mixins have names of their own, the modules have different names,
names of target types can be read back, and carriers are types of other assemblies. -/
structure Linkable (weaver : Weaver) (mixins : List MixinDescriptor) : Prop where
  target : ∀ operand ∈ weaver.target.operands, weaver.target.Resolves operand
  patches : ∀ operand ∈ weaver.mixins.operands, weaver.mixins.Resolves operand
  moved : ∀ operand ∈ weaver.mixins.operands, ∀ owner ∈ operand.owner?, owner.scope = some weaver.target.name →
    weaver.target.defines ((weaver.rehoming mixins).operand operand) = true
  distinct : (weaver.mixins.types.map TypeDef.fullName).Nodup
  apart : weaver.mixins.name ≠ weaver.target.name
  names : ∀ mixin ∈ mixins, (TypeRef.ofFullName none mixin.target.fullName).fullName = mixin.target.fullName
  carriers : ∀ type ∈ weaver.mixins.types, ∀ method ∈ type.methods, ∀ param ∈ method.params,
    (weaver.config.carrierKind? param.type).isSome = true → ∀ owner ∈ param.type.reference?,
      weaver.target.isLocal ((weaver.rehoming mixins).typeRef owner).scope = false

/-- A method of a mixin type gets to the target for an interface. -/
def Ports (weaver : Weaver) (mixins : List MixinDescriptor) (type : TypeDef) (method : MethodDef) : Prop :=
  method.isStatic = false ∧ ∃ context interface state after,
    weaver.Works mixins context (.implements interface) state after ∧
    context.mixinDef = type ∧ context.home.method method method.name .interfaceImplementation ∈ after.type.methods

/-- A moved operand that names, on a mixin type, a method that does not get to the target for an interface, or a field
of another mixin that is not added to the target, while the target has no such member. -/
inductive Strays (weaver : Weaver) (mixins : List MixinDescriptor) : Operand → Prop
  | method {reference : MethodRef} {type : TypeDef} {method : MethodDef} {mixin : MixinDescriptor} :
      .method reference ∈ weaver.mixins.operands → weaver.mixins.resolveMethod? reference = some (type, method) →
      mixin ∈ mixins → mixin.mixinType = type.fullName → ¬ weaver.Ports mixins type method →
      weaver.target.defines (.method ((weaver.rehoming mixins).methodRef reference)) = false →
      Strays weaver mixins (.method ((weaver.rehoming mixins).methodRef reference))
  | field {reference : FieldRef} {user type : TypeDef} {field : FieldDef} {mixin : MixinDescriptor} :
      user ∈ weaver.mixins.types → .field reference ∈ user.operands →
      weaver.mixins.resolveField? reference = some (type, field) → type ≠ user →
      mixin ∈ mixins → mixin.mixinType = type.fullName → FieldDescriptor.add field.name ∉ mixin.fields →
      weaver.target.defines (.field ((weaver.rehoming mixins).fieldRef reference)) = false →
      Strays weaver mixins (.field ((weaver.rehoming mixins).fieldRef reference))

/-- A moved method answers to a reference that has been moved as well, if neither is static. -/
theorem answers_ported {home : Rehoming} {method : MethodDef} {reference : MethodRef}
    (answered : Module.answers method reference = true)
    (onInstance : method.isStatic = false) :
    Module.answers (home.method method method.name .interfaceImplementation) (home.methodRef reference) = true := by
  have ported : (home.method method method.name .interfaceImplementation).isStatic = false := by
    show FlagNames.contains MethodFlags.interfaceImplementation.bits MethodFlags.isStatic = false
    decide
  have params : (home.method method method.name .interfaceImplementation).paramTypes = method.paramTypes.map home.sig := by
    simp [Rehoming.method, Rehoming.param, MethodDef.paramTypes]
  simp only [Module.answers, onInstance, Bool.and_eq_true, beq_iff_eq, bne_iff_ne] at answered ⊢
  obtain ⟨⟨⟨name, this⟩, returns⟩, types⟩ := answered
  refine ⟨⟨⟨name, ported.symm ▸ this⟩, congrArg home.sig returns⟩, ?_⟩
  rw [params, types]
  exact (TypeSig.mapRefsAll_eq_map _ _).symm

theorem typeRef_setting {context : MixinContext} {mixin : MixinDescriptor}
    (home : context.home = { weaver.rehoming mixins with mixinType := mixin.mixinType, fields := context.home.fields }) :
    context.home.typeRef = (weaver.rehoming mixins).typeRef := by
  rw [home]
  rfl

theorem mapped?_setting {context : MixinContext} {mixin : MixinDescriptor}
    (home : context.home = { weaver.rehoming mixins with mixinType := mixin.mixinType, fields := context.home.fields })
    {reference : FieldRef} {owner : TypeRef} (declared : reference.declaring.reference? = some owner)
    (mine : weaver.mixins.isLocal owner.scope = true) (called : owner.fullName = mixin.mixinType) :
    context.home.mapped? reference = context.home.fields.get? reference.name := by
  have own : context.home.isMixinLocal owner.scope ∧ owner.fullName = context.home.mixinType := by
    rw [home]
    exact ⟨mine, called⟩
  rw [Rehoming.mapped?, declared]
  exact if_pos own

namespace Linkable

variable {final : Module} (linkable : weaver.Linkable mixins) (leads : weaver.Leads mixins final)

include linkable

theorem redirects {mixin : MixinDescriptor} (listed : mixin ∈ mixins) {host : TypeDef}
    (there : final.type? mixin.target.fullName = some host) :
    final.resolveType? (.ofFullName none mixin.target.fullName) = some host := by
  refine Module.resolveType?_eq_some.mpr ⟨?_, ?_⟩
  · rw [TypeRef.scope_ofFullName]
    rfl
  · rw [linkable.names _ listed, there]

include leads

/-- A method that gets to the target for an interface is found there by those that named it on the mixin type. -/
theorem ported_defined {reference : MethodRef} {type : TypeDef} {method : MethodDef} (ported : weaver.Ports mixins type method)
    (answered : Module.answers method reference = true) {mixin : MixinDescriptor} (listed : mixin ∈ mixins)
    (called : mixin.mixinType = type.fullName)
    (redirected : ((weaver.rehoming mixins).methodRef reference).declaring.reference? =
      some (.ofFullName none mixin.target.fullName)) :
    final.defines (.method ((weaver.rehoming mixins).methodRef reference)) = true := by
  obtain ⟨onInstance, context, interface, state, after, works, rfl, ported⟩ := ported
  obtain ⟨other, among, home, found, host, -⟩ := works.setting
  have own := Module.type?_fullName found
  cases descriptor_unique leads.read linkable.distinct among listed (own.symm.trans called.symm)
  obtain ⟨grown, there, extended⟩ := leads.hosts works
  obtain ⟨same, present, answered⟩ := extended.answers ported (answers_ported answered onInstance)
  rw [Rehoming.methodRef, typeRef_setting home] at answered
  exact Module.defines_method redirected (linkable.redirects listed (host ▸ there)) present answered

/-- A moved operand is answered by the target, unless it named a member of a mixin type. -/
theorem moved_or {operand : Operand} (member : operand ∈ weaver.mixins.operands) :
    final.Resolves ((weaver.rehoming mixins).operand operand) ∨
      weaver.target.defines ((weaver.rehoming mixins).operand operand) = false ∧ weaver.mixins.defines operand = true ∧
        ∃ owner ∈ operand.owner?, weaver.mixins.isLocal owner.scope = true ∧ ∃ mixin ∈ mixins,
          mixin.mixinType = owner.fullName ∧
          ((weaver.rehoming mixins).operand operand).owner? = some (.ofFullName none mixin.target.fullName) := by
  cases defined : weaver.target.defines ((weaver.rehoming mixins).operand operand) with
  | true => exact .inl fun _ _ _ => leads.extends_target.defines defined
  | false =>
      refine or_iff_not_imp_left.mpr fun dangles => ⟨rfl, ?_⟩
      simp only [Module.Resolves, not_forall, exists_prop] at dangles
      obtain ⟨moved, named, here, -⟩ := dangles
      obtain ⟨owner, owned, rfl⟩ := Option.map_eq_some_iff.mp ((owner?_rehomed operand).symm.trans named)
      rw [leads.extends_target.isLocal] at here
      rcases local_typeRef linkable.apart here with already | ⟨mine, mixin, listed, called, redirected⟩
      · cases defined.symm.trans (linkable.moved _ member owner owned already)
      · exact ⟨linkable.patches _ member owner owned mine, owner, owned, mine, mixin, listed, called, redirected ▸ named⟩

theorem moved_method {reference : MethodRef} (member : .method reference ∈ weaver.mixins.operands) :
    final.Resolves (.method ((weaver.rehoming mixins).methodRef reference)) ∨
      weaver.Strays mixins (.method ((weaver.rehoming mixins).methodRef reference)) := by
  rcases linkable.moved_or leads member with resolves | ⟨undefined, defined, owner, owned, mine,
    mixin, listed, called, redirected⟩
  · exact .inl resolves
  · obtain ⟨⟨type, method⟩, resolved⟩ := Option.isSome_iff_exists.mp defined
    obtain ⟨_, named, found, first⟩ := Module.resolveMethod?_eq_some.mp resolved
    cases named.symm.trans owned
    have typed := Module.type?_fullName (Module.resolveType?_eq_some.mp found).2
    have answered : Module.answers method reference = true := by simpa using List.find?_some first
    by_cases ported : weaver.Ports mixins type method
    · exact .inl fun _ _ _ => linkable.ported_defined leads ported answered listed (called.trans typed.symm) redirected
    · exact .inr (.method member resolved listed (called.trans typed.symm) ported undefined)

theorem moved_field {user : TypeDef} (among : user ∈ weaver.mixins.types) {reference : FieldRef}
    (member : .field reference ∈ user.operands)
    (foreign : ∀ type field, weaver.mixins.resolveField? reference = some (type, field) → type ≠ user) :
    final.Resolves (.field ((weaver.rehoming mixins).fieldRef reference)) ∨
      weaver.Strays mixins (.field ((weaver.rehoming mixins).fieldRef reference)) := by
  rcases linkable.moved_or leads (List.mem_flatMap.mpr ⟨user, among, member⟩) with
    resolves | ⟨undefined, defined, owner, owned, mine, mixin, listed, called, redirected⟩
  · exact .inl resolves
  · obtain ⟨⟨type, field⟩, resolved⟩ := Option.isSome_iff_exists.mp defined
    obtain ⟨_, named, found, first⟩ := Module.resolveField?_eq_some.mp resolved
    cases named.symm.trans owned
    have typed := Module.type?_fullName (Module.resolveType?_eq_some.mp found).2
    have same : field.name = reference.name := TypeDef.field?_name first
    by_cases added : FieldDescriptor.add field.name ∈ mixin.fields
    · obtain ⟨host, there, present⟩ := leads.adds listed added
      rw [same] at present
      refine .inl fun _ _ _ => Module.defines_field redirected (linkable.redirects listed there) ?_
      rw [rehoming_fieldRef]
      exact present
    · exact .inr (.field among member resolved (foreign type field resolved) listed (called.trans typed.symm) added undefined)

/-- The fields of its own type that a mixin names stand for fields of the target. -/
theorem own_mapped {context : MixinContext} {op : MixinOp} {state after : PatchState}
    (works : weaver.Works mixins context op state after) {reference : FieldRef} {field : FieldDef}
    (resolved : weaver.mixins.resolveField? reference = some (context.mixinDef, field)) :
    (context.home.mapped? reference).isSome = true := by
  obtain ⟨mixin, listed, home, found, -, -, -, covers⟩ := works.setting
  obtain ⟨owner, declared, resolved, first⟩ := Module.resolveField?_eq_some.mp resolved
  obtain ⟨mine, own⟩ := Module.resolveType?_eq_some.mp resolved
  have called : owner.fullName = mixin.mixinType := (Module.type?_fullName own).symm.trans (Module.type?_fullName found)
  have named : reference.name ∈ mixin.fields.map FieldDescriptor.field := by
    rw [descriptor_fields leads.read linkable.distinct listed found]
    exact TypeDef.field?_isSome.mp (Option.isSome_of_eq_some first)
  rw [mapped?_setting home declared mine called]
  exact covers _ named

/-- An operand of a mixin type's code, as the mixin's operations move it. -/
theorem moved_operand {context : MixinContext} {op : MixinOp} {state after : PatchState}
    (works : weaver.Works mixins context op state after) {operand : Operand} (member : operand ∈ context.mixinDef.operands) :
    final.Resolves (context.home.operand operand) ∨ weaver.Strays mixins (context.home.operand operand) := by
  obtain ⟨mixin, listed, home, found, host, signed, mapped, -⟩ := works.setting
  have among : context.mixinDef ∈ weaver.mixins.types := List.mem_of_find?_eq_some found
  cases operand with
  | method reference =>
      rw [Rehoming.operand, Rehoming.methodRef, typeRef_setting home]
      exact linkable.moved_method leads (List.mem_flatMap.mpr ⟨context.mixinDef, among, member⟩)
  | field reference =>
      rw [Rehoming.operand, Rehoming.fieldRef]
      cases stands : context.home.mapped? reference with
      | some field =>
          obtain ⟨declared, present⟩ := mapped _ _ (Rehoming.mapped?_found stands)
          obtain ⟨own, there, extended⟩ := leads.resolves_own works
          have typed : field.declaring.reference? = some after.type.ref := by
            rw [declared, signed, Injection.reference?_sig]
          exact .inl fun _ _ _ => Module.defines_field typed there (extended.fields.subset present)
      | none =>
          -- All fields of the mixin's own type stand for others, so this is a field of another type.
          rw [Option.getD_none, typeRef_setting home, ← rehoming_fieldRef]
          refine linkable.moved_field leads among member ?_
          rintro type field resolved rfl
          have covered := linkable.own_mapped leads works resolved
          rw [stands] at covered
          cases covered
  | _ => exact .inl fun owner owned => by cases owned

theorem carrier_abroad {injection : Injection}
    (works : weaver.Works mixins injection.context (.inject injection.descriptor) injection.before injection.after)
    {slot : UInt16} {members : CarrierMembers} (held : injection.site.carrier = some (slot, members)) :
    ∃ type plain owner, members = .of type plain ∧ type.reference? = some owner ∧ final.isLocal owner.scope = false := by
  obtain ⟨⟨kind, type⟩, carried, same⟩ := Option.map_eq_some_iff.mp held
  obtain ⟨-, rfl⟩ := Prod.mk.inj same
  obtain ⟨mixin, listed, home, found, -⟩ := works.setting
  obtain ⟨-, -, name, roles⟩ := works.injects.roles leads.read linkable.distinct
  obtain ⟨param, member, rfl, read⟩ := Injection.carrier_param roles carried
  have patched : injection.patch ∈ injection.context.mixinDef.methods := List.mem_of_getElem? injection.patched
  have carrier : (weaver.config.carrierKind? param.type).isSome = true := by rw [read, Option.isSome_some]
  obtain ⟨owner, owned⟩ := WeaveConfig.carrierKind?_owned carrier
  have abroad := linkable.carriers _ (List.mem_of_find?_eq_some found) _ patched param member carrier owner owned
  refine ⟨_, _, (weaver.rehoming mixins).typeRef owner, rfl, ?_, ?_⟩
  · rw [Rehoming.sig, TypeSig.reference?_mapRefs, owned, typeRef_setting home, Option.map_some]
  · rw [leads.extends_target.isLocal, abroad]

/-- The members that injected code names are there, or are those of a carrier of another assembly. -/
theorem injected_operand {injection : Injection}
    (works : weaver.Works mixins injection.context (.inject injection.descriptor) injection.before
      injection.after) {operand : Operand}
    (named : injection.site.Names operand) : final.Resolves operand := by
  cases named with
  | callback =>
      obtain ⟨-, -, -, -, -, signed, -⟩ := works.setting
      obtain ⟨host, there, extended⟩ := leads.resolves_own works
      have added : injection.callback ∈ injection.after.type.methods := List.mem_of_getElem? injection.after_methods.1
      obtain ⟨same, present, answered⟩ := extended.answers added
        (Injection.answers_ref (.refl injection.callback) injection.context.targetSig)
      have typed : injection.site.callback.declaring.reference? = some injection.after.type.ref := by
        rw [show injection.site.callback.declaring = injection.context.targetSig from rfl, signed, Injection.reference?_sig]
      exact fun _ _ _ => Module.defines_method typed there present answered
  | constructor held =>
      obtain ⟨type, plain, owner, rfl, owned, abroad⟩ := linkable.carrier_abroad leads works held
      intro other named here
      cases owned.symm.trans named
      cases abroad.symm.trans here
  | question held =>
      obtain ⟨type, plain, owner, rfl, owned, abroad⟩ := linkable.carrier_abroad leads works held
      intro other named here
      cases named
      rw [TypeRef.scope_ofFullName, owned, Option.bind_some] at here
      cases abroad.symm.trans here
  | @value slot members getter held returns =>
      obtain ⟨type, plain, owner, rfl, owned, abroad⟩ := linkable.carrier_abroad leads works held
      intro other named here
      have declared : getter.declaring = type := by
        cases type <;> cases returns
        rfl
      subst declared
      cases owned.symm.trans named
      cases abroad.symm.trans here

/-- The operands of a method that an operation makes, or leaves as it was. -/
theorem step {context : MixinContext} {op : MixinOp} {state after : PatchState} {method : MethodDef}
    (works : weaver.Works mixins context op state after) (makes : context.Makes op state after method)
    (fine : ∀ earlier ∈ state.type.methods, ∀ operand ∈ earlier.operands, final.Resolves operand ∨
      weaver.Strays mixins operand) :
    ∀ operand ∈ method.operands, final.Resolves operand ∨ weaver.Strays mixins operand := by
  have moved {patch : MethodDef} (member : patch ∈ context.mixinDef.methods) {body : Body}
    (defined : patch.body = some body) :
      ∀ operand ∈ (context.home.body body).operands, final.Resolves operand ∨ weaver.Strays mixins operand := by
    rw [Rehoming.operands_body]
    intro operand among
    obtain ⟨own, listed, rfl⟩ := List.mem_map.mp among
    exact linkable.moved_operand leads works
      (List.mem_flatMap.mpr ⟨patch, member, MethodDef.mem_operands.mpr ⟨body, defined, listed⟩⟩)
  have ported {patch : MethodDef} (member : patch ∈ context.mixinDef.methods) (name : String) (flags : MethodFlags) :
      ∀ operand ∈ (context.home.method patch name flags).operands, final.Resolves operand ∨
        weaver.Strays mixins operand := by
    intro operand among
    obtain ⟨body, defined, listed⟩ := MethodDef.mem_operands.mp among
    obtain ⟨own, held, rfl⟩ := Option.map_eq_some_iff.mp defined
    exact moved member held operand listed
  cases makes with
  | kept member => exact fine method member
  | implementation _ member _ => exact ported member _ _
  | overwritten _ member defined _ _ _ => exact moved member defined
  | callback injection _ context _ _ =>
      subst context
      exact ported (List.mem_of_getElem? injection.patched) _ _
  | injected injection op context before after =>
      subst op context before after
      refine injection.woven_operands ?_ ?_ ?_
      · intro operand nameless
        refine .inl fun owner owned => ?_
        cases (Operand.owner?_of_refs nameless).symm.trans owned
      · exact fun operand named => .inl (linkable.injected_operand leads works named)
      · intro operand member
        exact fine _ (List.mem_of_getElem? injection.held) operand
          (MethodDef.mem_operands.mpr ⟨_, injection.defined, member⟩)

end Linkable

/-- What woven code names on types of the woven module is there, but for what strays. -/
theorem references_resolve {after : Weaver} {report : WeaveReport} (accepted : weaver.apply = (.ok report, after))
    (read : weaver.descriptors = .ok mixins) (linkable : weaver.Linkable mixins) :
    ∀ operand ∈ after.target.operands, after.target.Resolves operand ∨ weaver.Strays mixins operand := by
  obtain ⟨same, leads⟩ := leads_of_apply accepted
  cases Except.ok.inj (read.symm.trans leads.read)
  rw [Module.eachMethod_operands]
  -- The invariant is about the last module, as later mixins may add what code that is moved now refers to.
  refine apply_preserves ?_ ?_ ?_ accepted
  · intro mixins' context op state after method again works makes fine
    cases Except.ok.inj (read.symm.trans again)
    exact linkable.step leads works makes fine
  · intro method depth fine
    rw [MethodDef.operands_withMaxStack]
    exact fine
  · refine Module.eachMethod_operands.mp fun operand member => .inl fun owner owned here => ?_
    rw [leads.extends_target.isLocal] at here
    exact leads.extends_target.defines (linkable.target operand member owner owned here)

end Weaver

namespace Leak

theorem linkable : weaver.Linkable [mixin] where
  target := by decide +kernel
  patches := by decide +kernel
  moved := by decide +kernel
  distinct := by decide +kernel
  apart := by decide +kernel
  names := by decide +kernel
  carriers := by decide +kernel

/-- A callback with a carrier names a field of the target. -/
theorem references_resolve_poke : weaver.apply = (.ok report, after) ∧ weaver.descriptors = .ok [mixin] ∧
    weaver.Linkable [mixin] ∧
    ∀ operand ∈ after.target.operands, after.target.Resolves operand ∨ weaver.Strays [mixin] operand :=
  ⟨accepted, read, linkable, Weaver.references_resolve accepted read linkable⟩

end Leak

namespace Stay

def helper : MethodDef :=
  ⟨"helper", ⟨MethodFlags.isStatic⟩, .primitive .int32, [],
    some ⟨8, true, #[], #[⟨0, .ldcI47, .none⟩, ⟨1, .ret, .none⟩], 0⟩, []⟩

def test : MethodDef := { helper with name := "Test" }

/-- A method that takes the place of the target's and calls another one of its own type. -/
def patch : MethodDef :=
  { test with
    body := some ⟨8, true, #[], #[⟨0, .call, .method (helper.ref (.classType ⟨none, "", "M"⟩))⟩,
      ⟨1, .ret, .none⟩], 0⟩
    attributes := [Leak.marked .overwrite []] }

def mixinType : TypeDef :=
  { TypeDef.empty "" "M" ⟨0⟩ none with methods := [patch, helper], attributes := [Leak.marked .mixin [.type "T"]] }

def weaver : Weaver :=
  .new .standard ⟨"Game", [], [{ TypeDef.empty "" "T" ⟨0⟩ none with methods := [test] }]⟩
    ⟨"Mods", [], [mixinType]⟩ ⟨[]⟩

/-- The other method stays with the mixin, so the call that has been moved finds nothing. -/
theorem helper_dangles : (∀ operand ∈ weaver.target.operands, weaver.target.Resolves operand) ∧
    (∀ operand ∈ weaver.mixins.operands, weaver.mixins.Resolves operand) ∧
    (∀ operand ∈ weaver.mixins.operands, ∀ owner ∈ operand.owner?, owner.scope ≠ some weaver.target.name) ∧
    weaver.apply.1.isOk = true ∧
    ¬ ∀ operand ∈ weaver.apply.2.target.operands, weaver.apply.2.target.Resolves operand :=
  ⟨by decide +kernel, by decide +kernel, by decide +kernel, by decide +kernel, by decide +kernel⟩

end Stay

end CilWeave
