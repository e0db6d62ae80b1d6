import CilWeave.Proofs.Mixin.Frame

/-!
Mixins that only overwrite. They change the bodies of methods that they name and read no bodies of their target, so what a
first weave did a second one does again, and its target has everything already.
-/

namespace CilWeave

open Stateful

namespace TypeDef

variable (type : TypeDef)

/-- One of the full names finds the method at an index. -/
def finds (names : List String) (index : Nat) : Bool := names.any fun name => type.methodIndex? name == some index

/-- The type without the bodies of the methods that some full names find. -/
def without (names : List String) : TypeDef :=
  { type with
    methods := type.methods.mapIdx fun index method =>
      if type.finds names index then { method with body := none } else method }

variable {type} {other : TypeDef} {names more : List String} {name : String} {index : Nat}

@[simp] theorem without_fields : (type.without names).fields = type.fields := rfl

@[simp] theorem without_fullName : (type.without names).fullName = type.fullName := rfl

@[simp] theorem without_sig : (type.without names).sig = type.sig := rfl

theorem without_method (index : Nat) : (type.without names).methods[index]? =
    type.methods[index]?.map fun method => if type.finds names index then { method with body := none } else method := by
  rw [without, List.getElem?_mapIdx]

@[simp] theorem without_memberNames : (type.without names).memberNames = type.memberNames := by
  refine List.ext_getElem? fun index => ?_
  rw [memberNames, memberNames, List.getElem?_map, List.getElem?_map, without_method, Option.map_map]
  refine congrArg (Option.map · _) (funext fun method => ?_)
  rw [Function.comp_apply]
  split <;> rfl

@[simp] theorem without_methodIndex? : (type.without names).methodIndex? name = type.methodIndex? name := by
  rw [methodIndex?_eq, methodIndex?_eq, without_memberNames]

@[simp] theorem without_finds : (type.without names).finds more index = type.finds more index := by
  simp only [finds, without_methodIndex?]

/-- Types that agree on everything but their methods are the same without some bodies if their methods are. -/
theorem without_ext (rest : { type with methods := other.methods } = other)
    (each : ∀ index : Nat, (type.without names).methods[index]? = (other.without more).methods[index]?) :
    type.without names = other.without more := by
  rw [← rest] at each ⊢
  exact congrArg (fun methods => { type with methods }) (List.ext_getElem? each)

@[simp] theorem without_nil : type.without [] = type := by
  have same : (type.without []).methods = type.methods :=
    List.ext_getElem? fun index => by simp [without_method, finds]
  exact congrArg (fun methods => { type with methods }) same

theorem rest_of_without (same : type.without names = other.without names) : { type with methods := other.methods } = other :=
  congrArg (fun type : TypeDef => { type with methods := other.methods }) same

theorem fullName_of_without (same : type.without names = other.without names) : type.fullName = other.fullName := by
  rw [← without_fullName, same, without_fullName]

theorem sig_of_without (same : type.without names = other.without names) : type.sig = other.sig := by
  rw [← without_sig, same, without_sig]

theorem fields_of_without (same : type.without names = other.without names) : type.fields = other.fields := by
  rw [← without_fields, same, without_fields]

theorem methodIndex?_of_without (same : type.without names = other.without names) (name : String) :
    type.methodIndex? name = other.methodIndex? name := by
  rw [← without_methodIndex?, same, without_methodIndex?]

theorem finds_of_without (same : type.without names = other.without names) (more : List String) (index : Nat) :
    type.finds more index = other.finds more index := by
  rw [← without_finds, same, without_finds]

/-- Types that are the same without some bodies have methods that are the same but for their bodies. -/
theorem method_of_without (same : type.without names = other.without names) {method : MethodDef}
    (held : other.methods[index]? = some method) :
    ∃ own, type.methods[index]? = some own ∧ method.Alike own ∧ (type.finds names index = false → own = method) := by
  have there : (type.without names).methods[index]? = _ := without_method index
  rw [same, without_method, held, Option.map_some, finds_of_without same.symm] at there
  obtain ⟨own, found, equal⟩ := Option.map_eq_some_iff.mp there.symm
  refine ⟨own, found, ?_, fun spared => ?_⟩
  · split at equal
    · injection equal
      exact ⟨own.body, by cases own; simp_all⟩
    · exact equal ▸ .refl own
  · simpa [spared] using equal

/-- The type with another body for the method at an index. -/
theorem modify_finds {change : MethodDef → MethodDef} (changes : ∀ method : MethodDef, method.Alike (change method))
    (index : Nat) (names : List String) (position : Nat) :
    ({ type with methods := type.methods.modify index change } : TypeDef).finds names position = type.finds names position := by
  have memberNames : ({ type with methods := type.methods.modify index change } : TypeDef).memberNames = type.memberNames := by
    refine map_modify_of_blind _ (fun method => ?_) _ _
    obtain ⟨body, same⟩ := changes method
    rw [same]
    rfl
  simp only [finds, methodIndex?_eq, memberNames]

/-- The body of a method that is found does not matter. -/
theorem without_modify (named : type.methodIndex? name = some index) (member : name ∈ names)
    {change : MethodDef → MethodDef}
    (changes : ∀ method : MethodDef, method.Alike (change method)) :
    ({ type with methods := type.methods.modify index change } : TypeDef).without names = type.without names := by
  have found : type.finds names index = true := List.any_eq_true.mpr ⟨name, member, by simpa using named⟩
  refine without_ext rfl fun position => ?_
  rw [without_method, without_method, List.getElem?_modify, modify_finds changes, Option.map_eq_map, Option.map_map]
  refine congrArg (Option.map · _) (funext fun method => ?_)
  by_cases here : index = position
  · subst here
    obtain ⟨body, same⟩ := changes method
    simp [found, same]
  · simp [here]

/-- A body that is put into both of two types need not have been the same before. -/
theorem setBody_without (same : type.without (name :: names) = other.without (name :: names))
    (named : other.methodIndex? name = some index) (body : Body) :
    ({ type with methods := type.methods.modify index fun method => { method with body := some body } } :
    TypeDef).without names =
      ({ other with methods := other.methods.modify index fun method => { method with body := some body } } : TypeDef).without
        names := by
  have set (method : MethodDef) : method.Alike { method with body := some body } := ⟨_, rfl⟩
  have rest := rest_of_without same
  refine without_ext (by rw [← rest]) fun position => ?_
  have each := congrArg (fun type : TypeDef => type.methods[position]?) same
  simp only [without_method, finds_of_without same] at each
  simp only [without_method, List.getElem?_modify, modify_finds set, finds_of_without same, Option.map_eq_map, Option.map_map]
  by_cases here : index = position
  · subst here
    have found : other.finds (name :: names) index = true := by simp [finds, named]
    simp only [found, if_true] at each
    have again := congrArg (Option.map fun method : MethodDef =>
      if other.finds names index then method else { method with body := some body }) each
    simpa [Function.comp_def] using again
  · have others : other.finds (name :: names) position = other.finds names position := by
      simp [finds, named, here]
    simpa [here, others, Function.comp_def] using each

end TypeDef

/-- The states differ in no more than the bodies of methods that some full names find. -/
structure PatchState.Twin (names : List String) (state twin : PatchState) : Prop where
  type : twin.type.without names = state.type.without names
  applied : twin.applied = state.applied
  seen : twin.seen = state.seen

/-- A mixin that has no use for the bodies of its target. -/
structure MixinDescriptor.Overwrites (mixin : MixinDescriptor) : Prop where
  fields : ∀ field ∈ mixin.fields, ∃ own target, field = .capture own target
  ops : ∀ op ∈ mixin.ops, ∃ index name, op = .overwrite index name

namespace MixinContext

variable {context : MixinContext} {state after : PatchState}

/-- What an overwrite makes of a type that has the method in a position. -/
def overwritten (context : MixinContext) (patch : MethodDef) (body : Body) (position : Nat)
    (state : PatchState) : PatchState where
  type := (state.setBody position (context.home.body body)).type
  applied := { state.applied with
    overwrites := state.applied.overwrites + 1
    touched := state.applied.touched ++ [context.overwrittenName patch] }
  seen := state.seen ++ (patch.returns.refs ++ patch.paramTypes.flatMap TypeSig.refs ++ context.home.bodyRefs body)

/-- An overwrite asks no more of its target than a method of the name and the kind. -/
theorem applyOverwrite_accepts {index position : Nat} {patch method : MethodDef} {body : Body}
    (patched : context.mixinDef.methods[index]? = some patch) (defined : patch.body = some body)
    (found : state.type.methodIndex? (context.overwrittenName patch) = some position)
    (held : state.type.methods[position]? = some method) (kind : method.isStatic = patch.isStatic) :
    context.applyOverwrite index state = .ok (context.overwritten patch body position state) := by
  rw [overwrittenName] at found
  simp only [applyOverwrite, patchMethod, patched, found, held, defined, bind, Except.bind]
  simp [kind, overwritten, overwrittenName, PatchState.see, PatchState.setBody, PatchState.touch, pure, Except.pure]

/-- An overwrite changes the body of one method, which may have been any other body. -/
theorem applyOverwrite_replays {index : Nat} (applied : context.applyOverwrite index state = .ok after) :
    ∃ name, after.applied.touched = state.applied.touched ++ [name] ∧
      (∀ names, name ∈ names → after.type.without names = state.type.without names) ∧
      ∀ names twin, state.Twin (name :: names) twin →
        ∃ result, context.applyOverwrite index twin = .ok result ∧ after.Twin names result := by
  obtain ⟨patch, body, position, method, patched, defined, found, held, kind, -⟩ := applyOverwrite_ok applied
  cases (applyOverwrite_accepts patched defined found held kind).symm.trans applied
  refine ⟨_, rfl, fun names member => TypeDef.without_modify found member fun _ => ⟨_, rfl⟩, fun names twin same => ?_⟩
  obtain ⟨own, there, ⟨other, rfl⟩, -⟩ := TypeDef.method_of_without same.type held
  have again : twin.type.methodIndex? (context.overwrittenName patch) = some position := by
    rw [TypeDef.methodIndex?_of_without same.type, found]
  refine ⟨context.overwritten patch body position twin,
    applyOverwrite_accepts patched defined again there kind, ?_, ?_, ?_⟩
  · exact TypeDef.setBody_without same.type found (context.home.body body)
  · simp only [overwritten, same.applied]
  · simp only [overwritten, same.seen]

/-- Captured fields change nothing, and are found on any type of these fields. -/
theorem mapFields_captures {descriptors : List FieldDescriptor} {fields mapped : Table FieldRef}
    (captures : ∀ field ∈ descriptors, ∃ own target, field = .capture own target)
    (ran : context.mapFields descriptors state fields = .ok (after, mapped)) :
    after = state ∧ ∀ twin : PatchState, twin.type.fields = state.type.fields →
      context.mapFields descriptors twin fields = .ok (twin, mapped) := by
  induction descriptors generalizing state fields with
  | nil =>
      cases ran
      exact ⟨rfl, fun _ _ => rfl⟩
  | cons descriptor rest ih =>
      obtain ⟨own, target, rfl⟩ := captures descriptor List.mem_cons_self
      obtain ⟨⟨middle, name, field⟩, first, later⟩ := bind_ok ran
      have one : middle = state ∧ ∀ twin : PatchState, twin.type.fields = state.type.fields →
          context.mapField twin (.capture own target) = .ok (twin, name, field) := by
        cases mapField_iff.mp first with
        | captured listed found =>
            refine ⟨rfl, fun twin same => mapField_iff.mpr (.captured listed ?_)⟩
            rw [TypeDef.field?, same, ← TypeDef.field?, found]
      obtain ⟨rfl, again⟩ := one
      obtain ⟨rfl, others⟩ := ih (fun field member => captures field (List.mem_cons_of_mem _ member)) later
      refine ⟨rfl, fun twin same => ?_⟩
      rw [mapFields, again twin same]
      exact others twin same

end MixinContext

namespace MixinEngine

variable {engine : MixinEngine} {context : MixinContext} {target woven : Module} {assemblies known : Assemblies}
  {state after : PatchState} {mixin : MixinDescriptor} {applied : AppliedMixin}

/-- Overwrites that were applied can be applied to any type that differs in the bodies they replace. -/
theorem applyOps_replays {ops : List MixinOp} (overwrites : ∀ op ∈ ops, ∃ index name, op = .overwrite index name)
    (ran : engine.applyOps context target ops assemblies state = (.ok after, known)) :
    ∃ more, after.applied.touched = state.applied.touched ++ more ∧
      (∀ names, more ⊆ names → after.type.without names = state.type.without names) ∧
      ∀ (other : MixinEngine) module others names twin, state.Twin (more ++ names) twin →
        ∃ result, other.applyOps context module ops others twin = (.ok result, others) ∧ after.Twin names result := by
  induction ops generalizing state assemblies with
  | nil =>
      cases ran
      exact ⟨[], (List.append_nil _).symm, fun _ _ => rfl, fun _ _ _ _ twin same => ⟨twin, rfl, same⟩⟩
  | cons op rest ih =>
      obtain ⟨middle, between, one, rested⟩ := applyOps_cons ran
      obtain ⟨index, method, rfl⟩ := overwrites op List.mem_cons_self
      obtain ⟨name, touched, spares, again⟩ := MixinContext.applyOverwrite_replays (congrArg Prod.fst one)
      obtain ⟨more, later, sparing, replays⟩ := ih (fun op member => overwrites op (List.mem_cons_of_mem _ member)) rested
      refine ⟨name :: more, by rw [later, touched, List.append_assoc, List.singleton_append], ?_, ?_⟩
      · intro names wider
        rw [sparing names (List.subset_of_cons_subset wider), spares names (wider List.mem_cons_self)]
      · intro other module others names twin same
        obtain ⟨next, first, same⟩ := again (more ++ names) twin same
        obtain ⟨result, last, same⟩ := replays other module others names next same
        refine ⟨result, ?_, same⟩
        rw [applyOps, applyOp, first]
        exact last

/-- Without new fields a mixin begins with the type as it is, whichever types of these fields it is. -/
theorem begin_replays {type mixinDef : TypeDef} {mapped : PatchState}
    (captures : ∀ field ∈ mixin.fields, ∃ own target, field = .capture own target)
    (begun : engine.begin target mixin type mixinDef = .ok (mapped, context)) :
    mapped = ⟨type, ⟨mixin.mixinType, mixin.target.fullName, 0, 0, 0, 0, []⟩, []⟩ ∧
      ∀ (disk : Disk) (module : Module) (twin : TypeDef), module.name = target.name → twin.sig = type.sig →
        twin.fields = type.fields →
          ({ engine with disk } : MixinEngine).begin module mixin twin mixinDef =
            .ok ({ mapped with type := twin }, context) := by
  obtain ⟨fields, rfl, ran⟩ := begin_mapped begun
  obtain ⟨rfl, again⟩ := MixinContext.mapFields_captures captures ran
  refine ⟨rfl, fun disk module twin name sig same => ?_⟩
  have mapped := again ⟨twin, ⟨mixin.mixinType, mixin.target.fullName, 0, 0, 0, 0, []⟩, []⟩ same
  simp only [begin, name, sig, mapped, bind, Except.bind]
  rfl

end MixinEngine

namespace Module

variable (module : Module)

/-- What mixins touched of the type in a place. -/
def touchedAt (applied : List AppliedMixin) (place : Nat) : List String :=
  applied.flatMap fun mixin => if module.typeIndex? mixin.targetType = some place then mixin.touched else []

/-- The types without the bodies of the methods that mixins touched. -/
def typesWithout (applied : List AppliedMixin) : List TypeDef :=
  module.types.mapIdx fun place type => type.without (module.touchedAt applied place)

variable {module} {other later : Module} {applied : List AppliedMixin} {one : AppliedMixin} {place : Nat} {type final : TypeDef}

theorem typesWithout_type (place : Nat) : (module.typesWithout applied)[place]? =
    module.types[place]?.map fun type => type.without (module.touchedAt applied place) := List.getElem?_mapIdx

@[simp] theorem typesWithout_nil : module.typesWithout [] = module.types := by
  refine List.ext_getElem? fun place => ?_
  simp [typesWithout_type, touchedAt]

theorem names_of_typesWithout (same : module.typesWithout applied = other.typesWithout applied) :
    module.types.map TypeDef.fullName = other.types.map TypeDef.fullName := by
  have names (module : Module) : (module.typesWithout applied).map TypeDef.fullName = module.types.map TypeDef.fullName := by
    refine List.ext_getElem? fun place => ?_
    rw [List.getElem?_map, List.getElem?_map, typesWithout_type, Option.map_map]
    rfl
  rw [← names, same, names]

theorem touched_subset (member : one ∈ applied) (named : module.typeIndex? one.targetType = some place) :
    one.touched ⊆ module.touchedAt applied place := by
  intro name touched
  exact List.mem_flatMap.mpr ⟨one, member, by rwa [if_pos named]⟩

theorem touchedAt_of_names (same : module.types.map TypeDef.fullName = other.types.map TypeDef.fullName)
    (applied : List AppliedMixin) (place : Nat) : module.touchedAt applied place = other.touchedAt applied place := by
  simp only [touchedAt, typeIndex?_of_names same]

theorem touchedAt_cons (named : module.typeIndex? one.targetType = some place) (position : Nat) :
    module.touchedAt (one :: applied) position =
      (if place = position then one.touched else []) ++ module.touchedAt applied position := by
  simp only [touchedAt, List.flatMap_cons, named, Option.some_inj]

/-- A type in the place of another does not matter if it is the same but for the bodies that were touched. -/
theorem typesWithout_set (held : module.types[place]? = some type) (placed : later.types = module.types.set place final)
    (same : final.without (module.touchedAt applied place) = type.without (module.touchedAt applied place)) :
    later.typesWithout applied = module.typesWithout applied := by
  have names : later.types.map TypeDef.fullName = module.types.map TypeDef.fullName :=
    placed ▸ map_set_of_same held (TypeDef.fullName_of_without same)
  refine List.ext_getElem? fun position => ?_
  rw [typesWithout_type, typesWithout_type, touchedAt_of_names names, placed, List.getElem?_set]
  by_cases here : place = position
  · subst here
    rw [if_pos rfl, if_pos (List.getElem?_eq_some_iff.mp held).1, held, Option.map_some, Option.map_some, same]
  · rw [if_neg here]

/-- Two modules get types in one place that are the same but for what is touched later. -/
theorem typesWithout_set_both {twin result : Module} {own : TypeDef}
    (same : twin.typesWithout (one :: applied) = module.typesWithout (one :: applied))
    (named : module.typeIndex? one.targetType = some place) (held : module.types[place]? = some type)
    (placed : later.types = module.types.set place final) (called : final.fullName = type.fullName)
    (replaced : result.types = twin.types.set place own)
    (alike : own.without (module.touchedAt applied place) = final.without (module.touchedAt applied place)) :
    result.typesWithout applied = later.typesWithout applied := by
  have twins := names_of_typesWithout same
  have each (position : Nat) := congrArg (fun types : List TypeDef => types[position]?) same
  simp only [typesWithout_type, touchedAt_of_names twins, touchedAt_cons named] at each
  obtain ⟨before, there, equal⟩ : ∃ before, twin.types[place]? = some before ∧ before.fullName = type.fullName := by
    have here := each place
    rw [held, Option.map_some] at here
    obtain ⟨before, there, equal⟩ := Option.map_eq_some_iff.mp here
    exact ⟨before, there, TypeDef.fullName_of_without equal⟩
  have names : later.types.map TypeDef.fullName = module.types.map TypeDef.fullName := placed ▸ map_set_of_same held called
  have renamed : result.types.map TypeDef.fullName = module.types.map TypeDef.fullName := by
    rw [replaced, ← twins]
    exact map_set_of_same there (((TypeDef.fullName_of_without alike).trans called).trans equal.symm)
  refine List.ext_getElem? fun position => ?_
  rw [typesWithout_type, typesWithout_type, touchedAt_of_names names, touchedAt_of_names renamed, placed, replaced,
    List.getElem?_set, List.getElem?_set]
  by_cases here : place = position
  · subst here
    rw [if_pos rfl, if_pos rfl, if_pos (List.getElem?_eq_some_iff.mp there).1, if_pos (List.getElem?_eq_some_iff.mp held).1,
      Option.map_some, Option.map_some, alike]
  · have other := each position
    rw [if_neg here, List.nil_append] at other
    rw [if_neg here, if_neg here, other]

/-- A depth that is written down does not matter for a method that was touched. -/
theorem typesWithout_resize (member : one ∈ applied) {name : String} (touched : name ∈ one.touched) {index : Nat}
    (found : module.place? one.targetType name = some (place, index)) (depth : UInt16) :
    (module.resize place index depth).typesWithout applied = module.typesWithout applied := by
  obtain ⟨type, named, held, -, method⟩ := place?_ok found
  have sized (method : MethodDef) : method.Alike (method.withMaxStack depth) := ⟨_, rfl⟩
  refine typesWithout_set held ?_ (TypeDef.without_modify method (touched_subset member named touched) sized)
  rw [resize, List.modify_eq_set, held]
  rfl

/-- Nothing is listed that is known already. -/
theorem addAssemblyRefs_of_known {names : List String} (known : ∀ name ∈ names, module.isKnownAssembly name = true) :
    names.foldl addAssemblyRef module = module := by
  induction names with
  | nil => rfl
  | cons name rest ih =>
      obtain ⟨first, others⟩ := List.forall_mem_cons.mp known
      rw [List.foldl_cons, addAssemblyRef, if_pos first, ih others]

end Module

namespace MixinEngine

variable {engine : MixinEngine} {target woven : Module} {assemblies known : Assemblies} {mixin : MixinDescriptor}
  {one : AppliedMixin}

/-- A mixin that only overwrites can be applied to any module that has the assemblies it lists and differs in the bodies
it replaces. -/
theorem apply_replays (overwrites : mixin.Overwrites)
    (accepted : engine.apply target mixin assemblies = (.ok (one, woven), known)) :
    (∀ applied, one ∈ applied → woven.typesWithout applied = target.typesWithout applied) ∧
      ∀ (disk : Disk) others twin later, twin.name = target.name →
        (∀ name, woven.isKnownAssembly name = true → twin.isKnownAssembly name = true) →
        twin.typesWithout (one :: later) = target.typesWithout (one :: later) →
        ∃ result, ({ engine with disk } : MixinEngine).apply twin mixin others = (.ok (one, result), others) ∧
          result.name = twin.name ∧ result.assemblyRefs = twin.assemblyRefs ∧
          result.typesWithout later = woven.typesWithout later := by
  obtain ⟨place, type, mixinDef, mapped, context, final, subjects, begun, ran, rfl, rfl⟩ := apply_ok accepted
  obtain ⟨named, held, defined⟩ := subjects_ok subjects
  obtain ⟨rfl, begins⟩ := begin_replays overwrites.fields begun
  obtain ⟨more, touched, spares, replays⟩ := applyOps_replays overwrites.ops ran
  have targetType : final.applied.targetType = mixin.target.fullName := (apply_rests accepted).1
  cases (List.nil_append more).symm.trans touched.symm
  have index : target.typeIndex? final.applied.targetType = some place := targetType ▸ named
  have placed := finish_types target place context.home [] final
  have called : final.type.fullName = type.fullName := TypeDef.fullName_of_without (spares _ (List.Subset.refl _))
  refine ⟨fun applied member => ?_, fun disk others twin later name knows same => ?_⟩
  · exact Module.typesWithout_set held placed (spares _ (Module.touched_subset member index))
  · have twins := Module.names_of_typesWithout same
    obtain ⟨own, there, equal⟩ : ∃ own, twin.types[place]? = some own ∧
        own.without (final.applied.touched ++ target.touchedAt later place) =
          type.without (final.applied.touched ++ target.touchedAt later place) := by
      have here := congrArg (fun types : List TypeDef => types[place]?) same
      simp only [Module.typesWithout_type, Module.touchedAt_of_names twins, Module.touchedAt_cons index, if_true, held,
        Option.map_some] at here
      exact Option.map_eq_some_iff.mp here
    have starts : PatchState.Twin (final.applied.touched ++ target.touchedAt later place)
      ⟨type, ⟨mixin.mixinType, mixin.target.fullName, 0, 0, 0, 0, []⟩, []⟩
      ⟨own, ⟨mixin.mixinType, mixin.target.fullName, 0, 0, 0, 0, []⟩, []⟩ := ⟨equal, rfl, rfl⟩
    obtain ⟨result, again, ends⟩ := replays { engine with disk } twin others _ _ starts
    have subjects : ({ engine with disk } : MixinEngine).subjects twin mixin = .ok (place, own, mixinDef) := by
      have first : twin.typeIndex? mixin.target.fullName = some place := (Module.typeIndex?_of_names twins _).trans named
      simp only [MixinEngine.subjects, first, there, defined]
      rfl
    have begun := begins disk twin own name (TypeDef.sig_of_without equal) (TypeDef.fields_of_without equal)
    have listed : (context.home.assemblies [] ++ context.home.assemblies result.seen).foldl
      Module.addAssemblyRef twin = twin := by
      rw [ends.seen]
      exact Module.addAssemblyRefs_of_known fun name member => knows name ((target.addAssemblyRefs_adds _).2 name member)
    refine ⟨finish twin place context.home [] result, ?_, ?_, ?_, ?_⟩
    · simp only [apply, subjects, begun, again, ends.applied]
    · rw [finish, listed]
    · rw [finish, listed]
    · exact Module.typesWithout_set_both same index held placed called
        (finish_types twin place context.home [] result) ends.type

end MixinEngine

/-- Verification writes down nothing but depths of touched methods. -/
theorem Verification.run_spares {config : WeaveConfig} {module : Module} {applied : List AppliedMixin} {outcome : Verification}
    (ran : run config module applied = .ok outcome) : outcome.module.name = module.name ∧
      outcome.module.assemblyRefs = module.assemblyRefs ∧ outcome.module.typesWithout applied =
        module.typesWithout applied := by
  refine run_keeps (motive := fun state => state.module.name = module.name ∧
    state.module.assemblyRefs = module.assemblyRefs ∧ state.module.typesWithout applied = module.typesWithout applied)
    (fun mixin member name touched before after kept verified => ?_) ⟨rfl, rfl, rfl⟩ ran
  obtain ⟨called, refs, types⟩ := kept
  rcases method_resizes verified with same | ⟨place, index, depth, found, same⟩
  · exact ⟨same ▸ called, same ▸ refs, same ▸ types⟩
  · rw [← Module.typesWithout_resize member touched found depth] at types
    exact ⟨same ▸ called, same ▸ refs, same ▸ types⟩

namespace Weaver

variable {weaver after : Weaver} {mixins : List MixinDescriptor} {report : WeaveReport}

theorem applyAll_replays {engine : MixinEngine} {target woven : Module} {assemblies known : Assemblies}
    {applied : List AppliedMixin} (overwrites : ∀ mixin ∈ mixins, mixin.Overwrites)
    (ran : applyAll engine mixins target assemblies = (.ok (applied, woven), known)) :
    (∀ more, applied ⊆ more → woven.typesWithout more = target.typesWithout more) ∧
      ∀ (disk : Disk) others twin, twin.name = target.name →
        (∀ name, woven.isKnownAssembly name = true → twin.isKnownAssembly name = true) →
        twin.typesWithout applied = target.typesWithout applied →
        ∃ result, applyAll { engine with disk } mixins twin others = (.ok (applied, result), others) ∧
          result.name = twin.name ∧ result.assemblyRefs = twin.assemblyRefs ∧ result.types = woven.types := by
  induction mixins generalizing target assemblies applied with
  | nil =>
      cases ran
      refine ⟨fun _ _ => rfl, fun disk others twin _ _ same => ⟨twin, rfl, rfl, rfl, ?_⟩⟩
      rwa [Module.typesWithout_nil, Module.typesWithout_nil] at same
  | cons mixin rest ih =>
      obtain ⟨one, later, middle, between, rfl, first, rested⟩ := applyAll_cons ran
      obtain ⟨own, others⟩ := List.forall_mem_cons.mp overwrites
      obtain ⟨spares, again⟩ := MixinEngine.apply_replays own first
      obtain ⟨sparing, replays⟩ := ih others rested
      refine ⟨fun more wider => ?_, fun disk start twin name knows same => ?_⟩
      · rw [sparing more (List.subset_of_cons_subset wider), spares more (wider List.mem_cons_self)]
      · obtain ⟨next, head, called, refs, alike⟩ := again disk start twin later name
          (fun name known => knows name ((applyAll_continues rested).adds.knows known)) same
        have named : next.name = middle.name :=
          called.trans (name.trans (MixinEngine.apply_continues first).adds.name.symm)
        obtain ⟨result, tail, calls, lists, types⟩ := replays disk start next named
          (fun name known => by rw [Module.isKnownAssembly, called, refs]; exact knows name known) alike
        refine ⟨result, ?_, calls.trans called, lists.trans refs, types⟩
        simp only [applyAll, head, tail]

/-- A weave of mixins that only overwrite, with captured fields or none, has the same outcome when its mixins are applied
to what it left: all of that stays as it is. -/
theorem apply_again (accepted : weaver.apply = (.ok report, after))
    (overwrites : ∀ mixins, weaver.descriptors = .ok mixins → ∀ mixin ∈ mixins, mixin.Overwrites) {again : Weaver}
    (config : again.config = weaver.config) (same : again.mixins = weaver.mixins) (target : again.target = after.target) :
    again.apply = (.ok report, again) := by
  obtain ⟨mixins, applied, woven, known, outcome, read, ran, verified, rfl, rfl⟩ := apply_reports accepted
  obtain ⟨spares, replays⟩ := applyAll_replays (overwrites mixins read) ran
  obtain ⟨name, refs, types⟩ := Verification.run_spares verified
  have continues := applyAll_continues ran
  obtain ⟨_, _, _, others, disk⟩ := again
  cases config
  cases same
  cases target
  have knows (known : String) (listed : woven.isKnownAssembly known = true) : outcome.module.isKnownAssembly known = true := by
    rw [Module.isKnownAssembly, name, refs]
    exact listed
  obtain ⟨result, reran, called, lists, all⟩ := replays disk others outcome.module (name.trans continues.adds.name) knows
    (types.trans (spares applied (List.Subset.refl _)))
  have whole : result = woven := by
    rw [name] at called
    rw [refs] at lists
    cases result
    cases woven
    simp_all
  cases whole
  have reread : Weaver.descriptors ⟨weaver.config, outcome.module, weaver.mixins, others, disk⟩ = .ok mixins := read
  rw [apply_accepts reread reran verified, name, continues.adds.name]

end Weaver

namespace Twice

open Deeper (marked)

/-- An overwrite whose code is deeper than the one it replaces. -/
def patch : MethodDef :=
  { Deeper.patch with body := some ⟨8, true, #[], #[⟨0, .ldcI47, .none⟩, ⟨1, .pop, .none⟩, ⟨2, .ret, .none⟩], 0⟩ }

def mixinType : TypeDef :=
  { TypeDef.empty "" "M" ⟨0⟩ none with methods := [patch], attributes := [marked .mixin [.type "T"]] }

def weaver : Weaver := .new .standard Deeper.target ⟨"Mods", [], [Deeper.otherType, mixinType]⟩ ⟨[]⟩

def mixins : List MixinDescriptor :=
  [⟨"N", .type "T", 0, [], [.overwrite 0 "Reset"]⟩, ⟨"M", .type "T", 0, [], [.overwrite 0 "Reset"]⟩]

theorem read : weaver.descriptors = .ok mixins := Weaver.descriptors_of_sorted (by decide +kernel) (by decide)

theorem overwrites : ∀ found, weaver.descriptors = .ok found → ∀ mixin ∈ found, mixin.Overwrites := by
  intro found again
  cases read.symm.trans again
  simp only [mixins, List.forall_mem_cons]
  exact ⟨⟨nofun, by simp⟩, ⟨nofun, by simp⟩, nofun⟩

def applied : List AppliedMixin × Module :=
  (Weaver.applyAll (weaver.engine mixins) mixins weaver.target .empty).1.toOption.getD default

theorem ran : Weaver.applyAll (weaver.engine mixins) mixins weaver.target .empty = (.ok applied, .empty) :=
  Prod.ext (ok_of_isOk default (by decide +kernel)) rfl

theorem apply_again_both : ∃ report after, weaver.apply = (.ok report, after) ∧
    (∀ found, weaver.descriptors = .ok found → ∀ mixin ∈ found, mixin.Overwrites) ∧
    after.apply = (.ok report, after) := by
  obtain ⟨outcome, verified⟩ : ∃ outcome, Verification.run .standard applied.2 applied.1 = .ok outcome :=
    ⟨_, ok_of_isOk ⟨default, [], 0, []⟩ (by decide +kernel)⟩
  have accepted := Weaver.apply_accepts read ran verified
  exact ⟨_, _, accepted, overwrites, Weaver.apply_again accepted overwrites rfl rfl rfl⟩

end Twice

end CilWeave
