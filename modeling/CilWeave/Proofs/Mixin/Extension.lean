import CilWeave.Proofs.Mixin.Outline

/-!
Types and modules as a weave extends them. Besides their methods, types keep their fields and interfaces, and a mixin's
fields come to stand for fields that its target type has from then on.
-/

namespace CilWeave

open Stateful

theorem TypeDef.field?_isSome {type : TypeDef} {name : String} :
    (type.field? name).isSome = true ↔ name ∈ type.fieldNames := by
  rw [field?, List.find?_isSome, fieldNames, List.mem_map]
  simp only [beq_iff_eq]

theorem TypeDef.interfacesWith_prefix (type : TypeDef) (interface : TypeSig) :
    type.interfaces <+: type.interfacesWith interface := by
  unfold interfacesWith
  split
  · exact List.prefix_rfl
  · exact List.prefix_append _ _

/-- A type that has only grown, and whose fields and interfaces are still there. -/
structure TypeDef.Extends (type later : TypeDef) : Prop where
  grows : type.Grows later
  fields : type.fieldNames <+: later.fieldNames
  interfaces : type.interfaces <+: later.interfaces

namespace TypeDef.Extends

theorem refl (type : TypeDef) : type.Extends type := ⟨.refl type, List.prefix_rfl, List.prefix_rfl⟩

theorem trans (type middle later : TypeDef) (first : type.Extends middle) (second : middle.Extends later) :
    type.Extends later where
  grows := .trans _ _ _ first.grows second.grows
  fields := first.fields.trans second.fields
  interfaces := first.interfaces.trans second.interfaces

end TypeDef.Extends

/-- A module of the same name whose types have been extended in their places. -/
structure Module.Extends (module later : Module) : Prop where
  name : later.name = module.name
  types : Persist TypeDef.Extends module.types later.types

namespace Module.Extends

variable {module middle later : Module}

theorem refl (module : Module) : module.Extends module := ⟨rfl, .refl .refl _⟩

theorem trans (first : module.Extends middle) (second : middle.Extends later) : module.Extends later :=
  ⟨second.name.trans first.name, .trans TypeDef.Extends.trans first.types second.types⟩

theorem type? (extended : module.Extends later) {name : String} {type : TypeDef} (found : module.type? name = some type) :
    ∃ other, later.type? name = some other ∧ type.Extends other :=
  Persist.find? extended.types (fun _ _ kept => by rw [kept.grows.fullName]) found

end Module.Extends

namespace MixinContext

variable {context : MixinContext} {state after : PatchState}

/-- The field that one of the mixin's stands for: one that the type has, or one of the same name that is added. -/
theorem mapField_ok {descriptor : FieldDescriptor} {name : String} {field : FieldRef}
    (mapped : context.mapField state descriptor = .ok (after, name, field)) :
    name = descriptor.field ∧ field.declaring = context.targetSig ∧
      (after.type.fieldNames = state.type.fieldNames ∧ descriptor = .capture name field.name ∧
          field.name ∈ state.type.fieldNames ∨
        after.type.fieldNames = state.type.fieldNames ++ [name] ∧ descriptor = .add name ∧ field.name = name ∧
          name ∉ state.type.fieldNames) := by
  cases mapField_iff.mp mapped with
  | captured found there =>
      exact ⟨rfl, rfl, .inl ⟨rfl, rfl, List.mem_map_of_mem (List.mem_of_find?_eq_some there)⟩⟩
  | added found free => exact ⟨rfl, rfl, .inr ⟨List.map_append, rfl, rfl, mt TypeDef.field?_isSome.mpr free⟩⟩

theorem mapField_fields {descriptor : FieldDescriptor} {name : String} {field : FieldRef}
    (mapped : context.mapField state descriptor = .ok (after, name, field)) :
    state.type.fieldNames <+: after.type.fieldNames := by
  obtain ⟨-, -, ⟨names, -⟩ | ⟨names, -⟩⟩ := mapField_ok mapped
  · exact names ▸ List.prefix_rfl
  · exact names ▸ List.prefix_append _ _

theorem mapField_interfaces {descriptor : FieldDescriptor} {name : String} {field : FieldRef}
    (mapped : context.mapField state descriptor = .ok (after, name, field)) :
    after.type.interfaces = state.type.interfaces := by
  cases mapField_iff.mp mapped <;> rfl

variable {descriptors : List FieldDescriptor} {fields mapped : Table FieldRef}

theorem mapFields_extends (ran : context.mapFields descriptors state fields = .ok (after, mapped)) :
    state.type.Extends after.type where
  grows := mapFields_grows ran
  fields := mapFields_preserves (motive := fun later => state.type.fieldNames <+: later.type.fieldNames)
    (fun _ _ _ _ _ one kept => kept.trans (mapField_fields one)) List.prefix_rfl ran
  interfaces := mapFields_preserves (motive := fun later => state.type.interfaces <+: later.type.interfaces)
    (fun _ _ _ _ _ one kept => mapField_interfaces one ▸ kept) List.prefix_rfl ran

theorem mapFields_added (ran : context.mapFields descriptors state fields = .ok (after, mapped)) {name : String}
    (member : FieldDescriptor.add name ∈ descriptors) : name ∈ after.type.fieldNames := by
  induction descriptors generalizing state fields with
  | nil => cases member
  | cons descriptor rest ih =>
      obtain ⟨⟨middle, other, field⟩, first, ran⟩ := bind_ok ran
      rcases List.mem_cons.mp member with rfl | later
      · obtain ⟨-, -, ⟨-, same, -⟩ | ⟨names, same, -⟩⟩ := mapField_ok first
        · cases same
        · cases same
          refine (mapFields_extends ran).fields.subset ?_
          exact names ▸ List.mem_append_right _ (List.mem_singleton_self _)
      · exact ih ran later

/-- What the mixin's fields stand for are fields of the target type. -/
theorem mapFields_mapped (ran : context.mapFields descriptors state fields = .ok (after, mapped))
    (before : ∀ key field, fields.get? key = some field →
      field.declaring = context.targetSig ∧ field.name ∈ state.type.fieldNames) :
    ∀ key field, mapped.get? key = some field → field.declaring = context.targetSig ∧
    field.name ∈ after.type.fieldNames := by
  induction descriptors generalizing state fields with
  | nil =>
      cases ran
      exact before
  | cons descriptor rest ih =>
      obtain ⟨⟨middle, name, field⟩, first, ran⟩ := bind_ok ran
      refine ih ran fun key other found => ?_
      rw [Table.get?_insert] at found
      split at found
      · cases found
        obtain ⟨-, declared, ⟨names, -, there⟩ | ⟨names, -, same, -⟩⟩ := mapField_ok first
        · exact ⟨declared, names ▸ there⟩
        · exact ⟨declared, names ▸ same ▸ List.mem_append_right _ (List.mem_singleton_self _)⟩
      · obtain ⟨declared, there⟩ := before key other found
        exact ⟨declared, (mapField_fields first).subset there⟩

theorem mapFields_covers (ran : context.mapFields descriptors state fields = .ok (after, mapped)) {key : String}
    (covered : (fields.get? key).isSome = true ∨ key ∈ descriptors.map FieldDescriptor.field) :
    (mapped.get? key).isSome = true := by
  induction descriptors generalizing state fields with
  | nil =>
      cases ran
      exact covered.resolve_right nofun
  | cons descriptor rest ih =>
      obtain ⟨⟨middle, name, field⟩, first, ran⟩ := bind_ok ran
      refine ih ran ?_
      rw [Table.get?_insert]
      split
      · exact .inl rfl
      · rename_i differs
        refine covered.imp_right fun member => (List.mem_cons.mp member).resolve_left fun same => ?_
        exact differs ((mapField_ok first).1.trans same.symm)

end MixinContext

namespace MixinEngine

variable {engine : MixinEngine} {context : MixinContext} {target woven : Module} {assemblies known : Assemblies}
  {state after : PatchState} {mixin : MixinDescriptor} {applied : AppliedMixin}

theorem applyOp_interfaces {op : MixinOp} (applied : engine.applyOp context target assemblies state op = (.ok after, known)) :
    state.type.interfaces <+: after.type.interfaces := by
  cases op with
  | implements interface =>
      obtain ⟨_, _, methods, -, -, type, -⟩ := MixinContext.applyImplements_ok (congrArg Prod.fst applied)
      rw [type]
      exact TypeDef.interfacesWith_prefix _ _
  | overwrite index name =>
      obtain ⟨_, _, _, _, -, -, -, -, -, type, -⟩ := MixinContext.applyOverwrite_ok (congrArg Prod.fst applied)
      exact type ▸ List.prefix_rfl
  | inject descriptor =>
      obtain ⟨injection, rfl, rfl, rfl, rfl⟩ := Injection.of_applied (congrArg Prod.fst applied)
      obtain ⟨-, -, -, -, -, -, -, type⟩ := injection.accepted
      exact type ▸ List.prefix_rfl

theorem applyOp_extends {op : MixinOp} (applied : engine.applyOp context target assemblies state op = (.ok after, known)) :
    state.type.Extends after.type := by
  obtain ⟨added, advances⟩ := applyOp_advances applied
  have fields : after.type.fieldNames = state.type.fieldNames := congrArg (List.map FieldDef.name) advances.fields
  exact ⟨applyOp_grows applied, fields ▸ List.prefix_rfl, applyOp_interfaces applied⟩

theorem applyOps_extends {ops : List MixinOp} (ran : engine.applyOps context target ops assemblies state = (.ok after, known)) :
    state.type.Extends after.type :=
  applyOps_preserves (motive := fun after => state.type.Extends after.type)
    (fun _ _ _ _ _ _ _ _ _ one extended => .trans _ _ _ extended (applyOp_extends one)) (.refl state.type) ran

theorem begin_extends {type mixinDef : TypeDef} {mapped : PatchState}
    (begun : engine.begin target mixin type mixinDef = .ok (mapped, context)) : type.Extends mapped.type := by
  obtain ⟨fields, -, ran⟩ := begin_mapped begun
  exact MixinContext.mapFields_extends ran

theorem finish_name (target : Module) (index : Nat) (home : Rehoming) (refs : List TypeRef) (state : PatchState) :
    (finish target index home refs state).name = target.name := by
  have kept (names : List String) (module : Module) : (names.foldl Module.addAssemblyRef module).name = module.name := by
    induction names generalizing module with
    | nil => rfl
    | cons name rest ih =>
        rw [List.foldl_cons, ih, Module.addAssemblyRef]
        split <;> rfl
  simp only [finish, kept]

theorem apply_extends (accepted : engine.apply target mixin assemblies = (.ok (applied, woven), known)) :
    target.Extends woven := by
  obtain ⟨index, type, mixinDef, mapped, context, final, subjects, begun, ran, -, rfl⟩ := apply_ok accepted
  have worked := applyOps_extends ran
  refine ⟨finish_name _ _ _ _ _, ?_⟩
  rw [finish_types]
  exact .set .refl (subjects_ok subjects).2.1 (.trans _ _ _ (begin_extends begun) worked)

theorem applyOps_concat {ops : List MixinOp} {op : MixinOp} {between : Assemblies} {start : PatchState}
    (ran : engine.applyOps context target ops assemblies start = (.ok state, between))
    (operated : engine.applyOp context target between state op = (.ok after, known)) :
    engine.applyOps context target (ops ++ [op]) assemblies start = (.ok after, known) := by
  induction ops generalizing start assemblies with
  | nil =>
      cases ran
      simp only [List.nil_append, applyOps, operated]
  | cons first rest ih =>
      obtain ⟨middle, next, one, ran⟩ := applyOps_cons ran
      rw [List.cons_append, applyOps, one]
      exact ih ran

/-- The type that all operations of a mixin leave is in the place of its target. -/
theorem apply_host {index : Nat} {type mixinDef : TypeDef} {mapped : PatchState}
    (subjects : engine.subjects target mixin = .ok (index, type, mixinDef))
    (begun : engine.begin target mixin type mixinDef = .ok (mapped, context))
    (accepted : engine.apply target mixin assemblies = (.ok (applied, woven), known)) :
    ∃ final, engine.applyOps context target mixin.ops assemblies { mapped with seen := [] } = (.ok final, known) ∧
      woven.type? mixin.target.fullName = some final.type := by
  obtain ⟨position, other, definition, before, own, final, found, began, ran, -, rfl⟩ := apply_ok accepted
  cases Except.ok.inj (subjects.symm.trans found)
  cases Except.ok.inj (begun.symm.trans began)
  have worked := applyOps_extends ran
  have whole : type.Extends final.type := .trans _ _ _ (begin_extends begun) worked
  refine ⟨final, ran, ?_⟩
  rw [Module.type?, finish_types]
  refine find?_set (subjects_ok subjects).1 ?_
  rw [whole.grows.fullName, subjects_fullName subjects, beq_self_eq_true]

/-- The type that some of a mixin's operations leave is there when all have been applied, and may have been extended. -/
theorem hosts {index : Nat} {type mixinDef : TypeDef} {mapped : PatchState} {done later : List MixinOp} {between : Assemblies}
    (subjects : engine.subjects target mixin = .ok (index, type, mixinDef))
    (begun : engine.begin target mixin type mixinDef = .ok (mapped, context)) (split : mixin.ops = done ++ later)
    (ran : engine.applyOps context target done assemblies { mapped with seen := [] } = (.ok state, between))
    (accepted : engine.apply target mixin assemblies = (.ok (applied, woven), known)) :
    state.type.fullName = mixin.target.fullName ∧
      ∃ final, woven.type? mixin.target.fullName = some final ∧ state.type.Extends final := by
  obtain ⟨final, whole, there⟩ := apply_host subjects begun accepted
  -- The whole run begins as `ran` does, so its end has grown out of `state`.
  rw [split] at whole
  obtain ⟨middle, last, again, rest⟩ := applyOps_append whole
  cases ran.symm.trans again
  have worked := applyOps_extends ran
  have first : type.Extends state.type := .trans _ _ _ (begin_extends begun) worked
  exact ⟨first.grows.fullName.trans (subjects_fullName subjects), final.type, there, applyOps_extends rest⟩

end MixinEngine

namespace Verification

variable {config : WeaveConfig} {state after : Verification}

theorem method_extends {typeName name : String} (verified : method config typeName state name = .ok after) :
    state.module.Extends after.module := by
  rcases method_ok verified with same | ⟨index, depth, same⟩
  · exact same ▸ .refl _
  · rw [same, Module.modifyType]
    split
    · refine ⟨rfl, .modify .refl (fun type => ⟨?_, List.prefix_rfl, List.prefix_rfl⟩) _ _⟩
      exact .modify type (fun _ => ⟨_, rfl⟩) index
    · exact .refl _

theorem run_extends {module : Module} {applied : List AppliedMixin} (ran : run config module applied = .ok after) :
    module.Extends after.module :=
  run_keeps (motive := fun state => module.Extends state.module)
    (fun _ _ _ _ _ _ extended verified => extended.trans (method_extends verified)) (.refl module) ran

end Verification

namespace Weaver

variable {weaver after : Weaver} {mixins : List MixinDescriptor} {woven : Module} {known : Assemblies}
  {applied : List AppliedMixin}

theorem applyAll_extends {engine : MixinEngine} {target : Module} {assemblies : Assemblies}
    (ran : applyAll engine mixins target assemblies = (.ok (applied, woven), known)) : target.Extends woven := by
  induction mixins generalizing target assemblies applied with
  | nil =>
      cases ran
      exact .refl _
  | cons mixin rest ih =>
      obtain ⟨one, others, middle, between, -, first, ran⟩ := applyAll_cons ran
      exact (MixinEngine.apply_extends first).trans (ih ran)

/-- One of the mixins of an accepted weave is applied to what those before it leave. -/
theorem applyAll_split {earlier later : List MixinDescriptor} {mixin : MixinDescriptor}
    (split : mixins = earlier ++ mixin :: later)
    (ran : applyAll (weaver.engine mixins) mixins weaver.target weaver.assemblies = (.ok (applied, woven), known)) :
    ∃ done one middle next between reached others,
      applyAll (weaver.engine mixins) earlier weaver.target weaver.assemblies = (.ok (done, middle), between) ∧
      (weaver.engine mixins).apply middle mixin between = (.ok (one, next), reached) ∧
      applyAll (weaver.engine mixins) later next reached = (.ok (others, woven), known) := by
  rw [split] at ran
  obtain ⟨done, others, middle, between, -, before, ran⟩ := applyAll_append ran
  rw [← split] at before ran
  obtain ⟨one, rest, next, reached, -, accepted, ran⟩ := applyAll_cons ran
  exact ⟨done, one, middle, next, between, reached, rest, before, accepted, ran⟩

/-- The type that an operation of an accepted weave leaves is there in the end, and may have been extended. -/
theorem Works.hosted {context : MixinContext} {op : MixinOp} {state after : PatchState}
    (works : weaver.Works mixins context op state after)
    (ran : applyAll (weaver.engine mixins) mixins weaver.target weaver.assemblies = (.ok (applied, woven), known)) :
    ∃ type, woven.type? after.type.fullName = some type ∧ after.type.Extends type := by
  obtain ⟨earlier, mixin, later, one, middle, between, split, first, index, type, mixinDef, mapped, done, rest, reached, last,
    subjects, begun, ops, before, operated⟩ := works
  obtain ⟨_, _, _, next, _, _, _, again, accepted, others⟩ := applyAll_split split ran
  cases first.symm.trans again
  have through : (weaver.engine mixins).applyOps context middle
    (done ++ [op]) between { mapped with seen := [] } = (.ok after, last) :=
    MixinEngine.applyOps_concat before operated
  rw [List.append_cons] at ops
  obtain ⟨name, final, found, grown⟩ := MixinEngine.hosts subjects begun ops through accepted
  obtain ⟨type, there, more⟩ := (applyAll_extends others).type? found
  exact ⟨type, name ▸ there, .trans _ _ _ grown more⟩

end Weaver

end CilWeave
