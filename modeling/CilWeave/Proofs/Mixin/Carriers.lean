import Mathlib.Data.List.TakeWhile
import CilWeave.Proofs.Mixin.Resolution
import CilWeave.Proofs.Signature.Legible

/-!
Carriers: what annotations say a callback's carrier is, and what remains of it once the callback has been
moved. An interpreter that runs with the settings of the weave takes the types that injected code names for
the carriers they are.
-/

namespace CilWeave

open Machine Stateful

/-- A name in a namespace without slashes is read back as it is. -/
theorem WeaveConfig.fullName_attributeName {config : WeaveConfig} {name : String} (scope : Option String)
    (flat : '/' ∉ config.space.toList) (simple : '.' ∉ name.toList ∧ '/' ∉ name.toList) :
    (TypeRef.ofFullName scope (config.attributeName name)).fullName = config.attributeName name := by
  have outer : '.' ∉ name.toList.takeWhile (· ≠ '/') := fun dot => simple.1 ((List.takeWhile_prefix _).subset dot)
  have read := @TypeRef.ofFullName_fullName ⟨none, config.space, name⟩ scope flat outer
  exact congrArg TypeRef.fullName read

theorem WeaveConfig.attributeName_inj {config : WeaveConfig} {name other : String}
    (same : config.attributeName name = config.attributeName other) : name = other := by
  unfold attributeName at same
  split at same
  · exact same
  · exact (String.append_right_inj _).mp same

/-- The local that a role names, and the type that it states for it. -/
def ParamRole.slot? : ParamRole → Option (UInt16 × TypeSig)
  | .captureLocal index type | .storeLocal index type => some (index, type)
  | _ => none

namespace WeaveConfig

variable {config : WeaveConfig} {owner : String}

theorem paramRole_carrier {param : ParamDef} {kind : CarrierKind}
    (read : config.paramRole owner param = .ok (.carrier kind)) : config.carrierKind? param.type = some kind := by
  unfold paramRole at read
  dsimp only at read
  split at read
  · obtain ⟨args, -, read⟩ := bind_ok read
    obtain ⟨⟨index, type⟩, -, read⟩ := bind_ok read
    obtain ⟨-, read⟩ := check_ok read
    cases read
  · split at read
    · obtain ⟨args, -, read⟩ := bind_ok read
      obtain ⟨⟨index, type⟩, -, read⟩ := bind_ok read
      obtain ⟨-, read⟩ := check_ok read
      cases read
    · split at read
      · rename_i found
        cases read
        exact found
      · cases read

/-- The type that a parameter states for a local has the parameter's name, or is what it refers to. -/
theorem paramRole_slot {param : ParamDef} {role : ParamRole} {index : UInt16} {type : TypeSig}
    (read : config.paramRole owner param = .ok role) (named : role.slot? = some (index, type)) :
    param.type.fullName = type.fullName ∨ param.type.fullName = (TypeSig.byRef type).fullName := by
  unfold paramRole at read
  dsimp only at read
  split at read
  · obtain ⟨args, -, read⟩ := bind_ok read
    obtain ⟨⟨slot, stated⟩, -, read⟩ := bind_ok read
    obtain ⟨same, read⟩ := check_ok read
    cases read
    cases named
    exact .inl (Decidable.not_not.mp same)
  · split at read
    · obtain ⟨args, -, read⟩ := bind_ok read
      obtain ⟨⟨slot, stated⟩, -, read⟩ := bind_ok read
      obtain ⟨same, read⟩ := check_ok read
      cases read
      cases named
      exact .inr (Decidable.not_not.mp same)
    · split at read <;> cases read <;> cases named

/-- The roles of an injection are those of the annotated method's parameters. -/
theorem injectDescriptor_ok {index : Nat} {method : MethodDef} {given : Attribute} {descriptor : InjectDescriptor}
    (read : config.injectDescriptor owner index method given = .ok descriptor) :
    descriptor.methodIndex = index ∧
      method.params.mapM (config.paramRole (owner ++ "::" ++ method.name)) = .ok descriptor.params := by
  unfold injectDescriptor at read
  obtain ⟨args, -, read⟩ := bind_ok read
  obtain ⟨target, -, read⟩ := bind_ok read
  obtain ⟨place, -, read⟩ := bind_ok read
  obtain ⟨cancellable, -, read⟩ := bind_ok read
  obtain ⟨cancel, -, read⟩ := bind_ok read
  obtain ⟨expected, -, read⟩ := bind_ok read
  obtain ⟨-, read⟩ := check_ok read
  obtain ⟨params, roles, read⟩ := bind_ok read
  cases read
  exact ⟨rfl, roles⟩

/-- An injection that was read belongs to a method of the type. -/
theorem injectOps_ok {type : TypeDef} {ops : List MixinOp} (read : config.injectOps owner type = .ok ops)
    {descriptor : InjectDescriptor} (listed : MixinOp.inject descriptor ∈ ops) :
    ∃ method, type.methods[descriptor.methodIndex]? = some method ∧
      method.params.mapM (config.paramRole (owner ++ "::" ++ method.name)) = .ok descriptor.params := by
  obtain ⟨⟨method, index, given⟩, member, read⟩ := mapM_mem read listed
  obtain ⟨found, one, same⟩ := bind_ok read
  cases same
  obtain ⟨rfl, roles⟩ := injectDescriptor_ok one
  obtain ⟨⟨other, position⟩, held, marked⟩ := List.mem_filterMap.mp member
  obtain ⟨_, -, same⟩ := Option.map_eq_some_iff.mp marked
  cases same
  exact ⟨method, List.mk_mem_zipIdx_iff_getElem?.mp held, roles⟩

/-- What a mixin does was read from the annotations of its type and of its members. -/
theorem mixinDescriptor?_read {type : TypeDef} {mixin : MixinDescriptor}
    (read : config.mixinDescriptor? type = .ok (some mixin)) : ∃ interfaces injections,
      mixin.mixinType = type.fullName ∧ type.fields.mapM (config.fieldDescriptor type.fullName) = .ok mixin.fields ∧
      config.interfaceOps type.fullName type = .ok interfaces ∧ config.injectOps type.fullName type = .ok injections ∧
      mixin.ops = interfaces ++ config.overwriteOps type ++ injections := by
  unfold mixinDescriptor? at read
  split at read
  · cases read
  · obtain ⟨args, -, read⟩ := bind_ok read
    obtain ⟨target, -, read⟩ := bind_ok read
    obtain ⟨priority, -, read⟩ := bind_ok read
    obtain ⟨fields, mapped, read⟩ := bind_ok read
    obtain ⟨interfaces, first, read⟩ := bind_ok read
    obtain ⟨injections, last, read⟩ := bind_ok read
    cases read
    exact ⟨interfaces, injections, rfl, mapped, first, last, rfl⟩

/-- Interfaces are given by name. -/
theorem interfaceOps_ok {type : TypeDef} {ops : List MixinOp} (read : config.interfaceOps owner type = .ok ops) {op : MixinOp}
    (listed : op ∈ ops) : ∃ name, op = .implements (.ofName name) := by
  obtain ⟨given, -, made⟩ := mapM_mem read listed
  obtain ⟨args, -, made⟩ := bind_ok made
  obtain ⟨name, -, made⟩ := bind_ok made
  cases made
  exact ⟨name, rfl⟩

theorem overwriteOps_mem {type : TypeDef} {op : MixinOp} (listed : op ∈ config.overwriteOps type) :
    ∃ index name, op = .overwrite index name := by
  obtain ⟨⟨method, index⟩, -, made⟩ := List.mem_filterMap.mp listed
  obtain ⟨given, -, rfl⟩ := Option.map_eq_some_iff.mp made
  exact ⟨index, method.name, rfl⟩

theorem injectOps_mem {type : TypeDef} {ops : List MixinOp} (read : config.injectOps owner type = .ok ops) {op : MixinOp}
    (listed : op ∈ ops) : ∃ descriptor, op = .inject descriptor := by
  obtain ⟨⟨method, index, given⟩, -, made⟩ := mapM_mem read listed
  obtain ⟨descriptor, -, made⟩ := bind_ok made
  cases made
  exact ⟨descriptor, rfl⟩

theorem mixinDescriptor?_ok {type : TypeDef} {mixin : MixinDescriptor}
    (read : config.mixinDescriptor? type = .ok (some mixin)) :
    mixin.mixinType = type.fullName ∧ type.fields.mapM (config.fieldDescriptor type.fullName) = .ok mixin.fields ∧
      ∀ descriptor, MixinOp.inject descriptor ∈ mixin.ops →
        ∃ method, type.methods[descriptor.methodIndex]? = some method ∧
        method.params.mapM (config.paramRole (type.fullName ++ "::" ++ method.name)) = .ok descriptor.params := by
  obtain ⟨interfaces, injections, name, fields, first, last, ops⟩ := mixinDescriptor?_read read
  refine ⟨name, fields, fun descriptor listed => ?_⟩
  rw [ops] at listed
  rcases List.mem_append.mp listed with listed | listed
  · rcases List.mem_append.mp listed with listed | listed
    · obtain ⟨_, same⟩ := interfaceOps_ok first listed
      cases same
    · obtain ⟨_, _, same⟩ := overwriteOps_mem listed
      cases same
  · exact injectOps_ok last listed

/-- A mixin's interfaces are given by name. -/
theorem mixinDescriptor?_interface {type : TypeDef} {mixin : MixinDescriptor}
    (read : config.mixinDescriptor? type = .ok (some mixin)) {interface : TypeSig}
    (listed : .implements interface ∈ mixin.ops) :
    ∃ name, interface = .ofName name := by
  obtain ⟨interfaces, injections, -, -, first, last, ops⟩ := mixinDescriptor?_read read
  rw [ops] at listed
  rcases List.mem_append.mp listed with listed | listed
  · rcases List.mem_append.mp listed with listed | listed
    · obtain ⟨name, same⟩ := interfaceOps_ok first listed
      cases same
      exact ⟨name, rfl⟩
    · obtain ⟨_, _, same⟩ := overwriteOps_mem listed
      cases same
  · obtain ⟨_, same⟩ := injectOps_mem last listed
    cases same

/-- Mixins are types of the module they were read from. -/
theorem mixinDescriptors_ok {module : Module} {mixins : List MixinDescriptor}
    (read : config.mixinDescriptors module = .ok mixins) {mixin : MixinDescriptor} (member : mixin ∈ mixins) :
    ∃ type ∈ module.types, config.mixinDescriptor? type = .ok (some mixin) := by
  obtain ⟨results, ran, read⟩ := bind_ok read
  cases read
  obtain ⟨result, held, same⟩ := List.mem_filterMap.mp member
  cases same
  exact mapM_mem ran held

end WeaveConfig

/-- A mixin's fields and the roles of its injections were read from the fields and the parameters of its type. -/
theorem Weaver.descriptors_ok {weaver : Weaver} {mixins : List MixinDescriptor} (read : weaver.descriptors = .ok mixins)
    {mixin : MixinDescriptor} (member : mixin ∈ mixins) :
    ∃ type ∈ weaver.mixins.types, mixin.mixinType = type.fullName ∧
      type.fields.mapM (weaver.config.fieldDescriptor type.fullName) = .ok mixin.fields ∧
      ∀ descriptor, MixinOp.inject descriptor ∈ mixin.ops →
        ∃ method, type.methods[descriptor.methodIndex]? = some method ∧
        method.params.mapM (weaver.config.paramRole (type.fullName ++ "::" ++ method.name)) = .ok descriptor.params := by
  obtain ⟨_, annotated, sorted⟩ := bind_ok read
  cases sorted
  obtain ⟨type, listed, described⟩ := WeaveConfig.mixinDescriptors_ok annotated (List.mem_mergeSort.mp member)
  exact ⟨type, listed, WeaveConfig.mixinDescriptor?_ok described⟩

theorem Weaver.descriptors_interface {weaver : Weaver} {mixins : List MixinDescriptor} (read : weaver.descriptors = .ok mixins)
    {mixin : MixinDescriptor} (member : mixin ∈ mixins) {interface : TypeSig} (listed : .implements interface ∈ mixin.ops) :
    ∃ name, interface = .ofName name := by
  obtain ⟨_, annotated, sorted⟩ := bind_ok read
  cases sorted
  obtain ⟨type, -, described⟩ := WeaveConfig.mixinDescriptors_ok annotated (List.mem_mergeSort.mp member)
  exact WeaveConfig.mixinDescriptor?_interface described listed

/-- A mixin is found by its name as the type that it was read from, if types have names of their own. -/
theorem Weaver.described_type {weaver : Weaver} (distinct : (weaver.mixins.types.map TypeDef.fullName).Nodup) {name : String}
    {type found : TypeDef} (listed : type ∈ weaver.mixins.types) (called : name = type.fullName)
    (first : weaver.mixins.type? name = some found) : found = type :=
  List.inj_on_of_nodup_map distinct (List.mem_of_find?_eq_some first) listed ((Module.type?_fullName first).trans called)

/-- In a module whose types have names of their own, the roles of a mixin's injection were read from the
parameters of its callback. -/
theorem Weaver.Injects.roles {weaver : Weaver} {mixins : List MixinDescriptor} {injection : Injection}
    (read : weaver.descriptors = .ok mixins) (distinct : (weaver.mixins.types.map TypeDef.fullName).Nodup)
    (injects : weaver.Injects mixins injection) :
    injection.context.home.config = weaver.config ∧ injection.context.home.types = targets mixins ∧
      ∃ owner, injection.patch.params.mapM (weaver.config.paramRole owner) = .ok injection.descriptor.params := by
  obtain ⟨earlier, mixin, later, _, _, _, split, -, injects⟩ := injects
  obtain ⟨_, target, definition, _, _, before, rest, subjects, begun, ops, -⟩ := injects
  obtain ⟨-, -, -, defined, config, types⟩ := MixinEngine.begin_ok begun
  refine ⟨config, types, ?_⟩
  have member : mixin ∈ mixins := split ▸ List.mem_append_right earlier List.mem_cons_self
  obtain ⟨type, listed, name, -, methods⟩ := descriptors_ok read member
  have same : definition = type := described_type distinct listed name (MixinEngine.subjects_ok subjects).2.2
  obtain ⟨method, held, roles⟩ :=
    methods injection.descriptor (ops ▸ List.mem_append_right before List.mem_cons_self)
  have patch : method = injection.patch := by
    have patched := injection.patched
    rw [defined, same, held] at patched
    exact Option.some.inj patched
  exact ⟨_, patch ▸ roles⟩

theorem Rehoming.fullName_typeRef {home : Rehoming} {reference : TypeRef}
    (kept : home.types.get? reference.fullName = none) :
    (home.typeRef reference).fullName = reference.fullName := by
  unfold typeRef
  rw [kept]
  split
  · rfl
  · split <;> rfl

theorem Table.get?_ofList_none {α : Type} {entries : List (String × α)} {key : String}
    (absent : ∀ entry ∈ entries, entry.1 ≠ key) : (ofList entries).get? key = none := by
  have kept (table : Table α) (clear : table.get? key = none) :
      (entries.foldl (fun table entry => table.insert entry.1 entry.2) table).get? key = none := by
    induction entries generalizing table with
    | nil => exact clear
    | cons entry rest ih =>
        refine ih (fun other member => absent other (List.mem_cons_of_mem _ member)) _ ?_
        rw [get?_insert_of_ne (absent entry List.mem_cons_self), clear]
  exact kept empty rfl

theorem Machine.Program.carrierKind?_plain {config : WeaveConfig} {modules : List Module} {sig : TypeSig}
    {reference : TypeRef} (named : sig.reference? = some reference)
    (is : reference.fullName = config.attributeName Marker.plainCarrier) :
    (Program.ofModules config modules).carrierKind? sig = some false := by
  simp [Program.carrierKind?, Program.ofModules, named, is]

theorem Machine.Program.carrierKind?_typed {config : WeaveConfig} {modules : List Module} {sig : TypeSig}
    {reference : TypeRef} (named : sig.reference? = some reference)
    (is : reference.fullName = config.attributeName Marker.typedCarrier) :
    (Program.ofModules config modules).carrierKind? sig = some true := by
  have other : config.attributeName Marker.typedCarrier ≠ config.attributeName Marker.plainCarrier := by
    intro same
    exact absurd (WeaveConfig.attributeName_inj same) (by decide)
  simp [Program.carrierKind?, Program.ofModules, named, is, other]

end CilWeave
