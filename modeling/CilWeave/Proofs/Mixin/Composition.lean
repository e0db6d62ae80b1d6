import CilWeave.Proofs.Mixin.Reinjection

/-!
Mixins applied one after the other. Two mixins that only inject callbacks, and can each be woven alone, are both accepted,
unless the later one no longer finds in a body what it found there.
-/

namespace CilWeave

open Stateful

/-- A mixin that captures fields and injects callbacks into methods that the type has. -/
structure MixinDescriptor.OnlyInjects (mixin : MixinDescriptor) (type : TypeDef) : Prop where
  fields : ∀ field ∈ mixin.fields, ∃ name target, field = .capture name target
  ops : ∀ op ∈ mixin.ops, ∃ descriptor, op = .inject descriptor ∧
    (type.methodIndex? descriptor.targetMethod).isSome = true

theorem TypeDef.Keeps.matches {type later : TypeDef} (keeps : type.Keeps later) :
    type.Matches type.methods.length MethodDef.Keeps later :=
  ⟨keeps.fullName, Nat.le_refl _, by rw [List.take_length]; exact keeps.methods⟩

theorem TypeDef.Rests.sig {touched : String → Prop} {type later : TypeDef} (rests : type.Rests touched later) :
    later.sig = type.sig := by
  simp only [TypeDef.sig, TypeDef.ref, rests.space, rests.name, rests.base]

namespace Module

theorem Rests.names {applied : List AppliedMixin} {module later : Module} (rests : module.Rests applied later) :
    later.types.map TypeDef.fullName = module.types.map TypeDef.fullName := by
  refine List.ext_getElem? fun place => ?_
  rw [List.getElem?_map, List.getElem?_map]
  cases held : module.types[place]? with
  | none => rw [List.getElem?_eq_none (rests.count ▸ List.getElem?_eq_none_iff.mp held), Option.map_none]
  | some type =>
      obtain ⟨other, there, kept, -⟩ := rests.types place type held
      rw [there, Option.map_some, Option.map_some, kept.fullName]

theorem type?_of_held {module : Module} {typeName : String} {place : Nat} {type : TypeDef}
    (named : module.typeIndex? typeName = some place) (held : module.types[place]? = some type) :
    module.type? typeName = some type := by
  obtain ⟨_, same, first⟩ := type?_of_place named
  cases held.symm.trans same
  exact first

end Module

namespace MixinContext

variable {context : MixinContext} {state after later : PatchState}

/-- Fields that are captured are captured again from a type that has them still. -/
theorem mapFields_among (types : Table String) {descriptors : List FieldDescriptor} {fields mapped : Table FieldRef}
    (captures : ∀ field ∈ descriptors, ∃ name target, field = .capture name target)
    (ran : context.mapFields descriptors state fields = .ok (after, mapped))
    (kept : state.type.fields <+: later.type.fields) :
    after = state ∧ (context.among types).mapFields descriptors later fields = .ok (later, mapped) := by
  induction descriptors generalizing state fields with
  | nil =>
      cases ran
      exact ⟨rfl, rfl⟩
  | cons descriptor rest ih =>
      obtain ⟨name, target, rfl⟩ := captures descriptor List.mem_cons_self
      obtain ⟨⟨middle, called, field⟩, one, ran⟩ := bind_ok ran
      cases mapField_iff.mp one with
      | @captured own existing found there =>
          obtain ⟨same, others⟩ := ih (fun other member => captures other (List.mem_cons_of_mem _ member)) ran kept
          have again : later.type.field? existing.name = some existing := by
            obtain ⟨more, whole⟩ := kept
            rw [TypeDef.field?, ← whole, List.find?_append]
            exact Option.or_of_isSome (congrArg Option.isSome there) ▸ there
          have mapped : (context.among types).mapField later (.capture own.name existing.name) =
              .ok (later, own.name, existing.ref context.targetSig) := mapField_iff.mpr (.captured found again)
          refine ⟨same, ?_⟩
          rw [mapFields, mapped]
          exact others

end MixinContext

namespace MixinEngine

variable {engine other : MixinEngine} {context twin : MixinContext} {target module : Module} {assemblies known : Assemblies}
  {state after later : PatchState} {ops : List MixinOp} {type : TypeDef} {types : Table String}

/-- Operations that were accepted are accepted of another state, unless one of them is refused there. -/
theorem applyOps_along (relates : PatchState → PatchState → Prop) (refused : WeaveFault → Prop)
    (step : ∀ op ∈ ops, ∀ assemblies known state after later between,
      engine.applyOp context target assemblies state op = (.ok after, known) → relates state later →
      (∃ made, other.applyOp twin module between later op = (.ok made, between) ∧ relates after made) ∨
        ∃ fault, other.applyOp twin module between later op = (.error fault, between) ∧ refused fault)
    (ran : engine.applyOps context target ops assemblies state = (.ok after, known)) (related : relates state later)
    (between : Assemblies) :
    (∃ final, other.applyOps twin module ops between later = (.ok final, between)) ∨
      ∃ fault, other.applyOps twin module ops between later = (.error fault, between) ∧ refused fault := by
  induction ops generalizing state later assemblies with
  | nil => exact .inl ⟨later, rfl⟩
  | cons op rest ih =>
      obtain ⟨middle, next, one, ran⟩ := applyOps_cons ran
      rcases step op List.mem_cons_self _ _ _ _ _ between one related with ⟨made, first, related⟩ | ⟨fault, failed, is⟩
      · rw [applyOps, first]
        exact ih (fun op member => step op (List.mem_cons_of_mem _ member)) ran related
      · exact .inr ⟨fault, by rw [applyOps, failed], is⟩

/-- What is injected goes into one of the methods that the type began with. -/
theorem applyOp_injects {op : MixinOp}
    (injects : ∃ descriptor, op = .inject descriptor ∧ (type.methodIndex? descriptor.targetMethod).isSome = true)
    (applied : engine.applyOp context target assemblies state op = (.ok after, known)) (keeps : type.Keeps state.type) :
    ∃ injection : Injection, op = .inject injection.descriptor ∧ injection.context = context ∧
    injection.before = state ∧
      injection.after = after ∧ injection.index < type.methods.length := by
  obtain ⟨descriptor, rfl, own⟩ := injects
  obtain ⟨index, own⟩ := Option.isSome_iff_exists.mp own
  obtain ⟨injection, rfl, rfl, rfl, rfl⟩ := Injection.of_applied (congrArg Prod.fst applied)
  have inside : index < type.methods.length := (List.findIdx?_eq_some_iff_getElem.mp own).1
  have place : injection.index = index := Option.some.inj
    (injection.named.symm.trans (keeps.matches.methodIndex? (fun _ _ kept => kept.1) own inside))
  exact ⟨injection, rfl, rfl, rfl, rfl, place ▸ inside⟩

section

variable
  (injects : ∀ op ∈ ops, ∃ descriptor, op = .inject descriptor ∧
    (type.methodIndex? descriptor.targetMethod).isSome = true)
  (agree : ∀ descriptor patch, .inject descriptor ∈ ops →
    context.mixinDef.methods[descriptor.methodIndex]? = some patch →
    ∀ sig ∈ descriptor.sigs patch, (context.home.among types).sig sig = context.home.sig sig)
  (ran : engine.applyOps context target ops assemblies state = (.ok after, known)) (keeps : type.Keeps state.type)

include injects agree ran keeps

/-- Injections that were all accepted are refused among other mixins only for what bodies hold then. -/
theorem applyOps_again (matched : state.type.Matches type.methods.length MethodDef.Keeps later.type) (between : Assemblies) :
    (∃ final, other.applyOps (context.among types) module ops between later = (.ok final, between)) ∨
      ∃ fault, other.applyOps (context.among types) module ops between later = (.error fault, between) ∧
        fault.Unfit context.mixin.mixinType := by
  refine applyOps_along (fun state later => type.Keeps state.type ∧
    state.type.Matches type.methods.length MethodDef.Keeps later.type) _ ?_ ran ⟨keeps, matched⟩ between
  rintro op member assemblies known state after later between one ⟨keeps, matched⟩
  obtain ⟨injection, rfl, rfl, rfl, rfl, inside⟩ := applyOp_injects (injects op member) one keeps
  rcases injection.again (agree _ _ member injection.patched) inside matched with ⟨made, done, matched⟩ |
    ⟨fault, failed, unfit⟩
  · exact .inl ⟨made, by rw [applyOp, done], keeps.trans _ _ _ injection.keeps, matched⟩
  · exact .inr ⟨fault, by rw [applyOp, failed], unfit⟩

/-- Injections are accepted among other mixins if the bodies are those in which they were. -/
theorem applyOps_echo (matched : state.type.Matches type.methods.length Eq later.type)
    (names : later.type.methods.map (·.name) = state.type.methods.map (·.name)) (between : Assemblies) :
    ∃ final, other.applyOps (context.among types) module ops between later = (.ok final, between) := by
  refine Or.resolve_right (applyOps_along (fun state later => type.Keeps state.type ∧
    state.type.Matches type.methods.length Eq later.type ∧ later.type.methods.map (·.name) =
      state.type.methods.map (·.name))
    (fun _ => False) ?_ ran ⟨keeps, matched, names⟩ between) fun ⟨_, _, never⟩ => never
  rintro op member assemblies known state after later between one ⟨keeps, matched, names⟩
  obtain ⟨injection, rfl, rfl, rfl, rfl, inside⟩ := applyOp_injects (injects op member) one keeps
  obtain ⟨made, done, matched, names⟩ := injection.echo (agree _ _ member injection.patched) inside matched names
  exact .inl ⟨made, by rw [applyOp, done], keeps.trans _ _ _ injection.keeps, matched, names⟩

end

/-- The engine of a weave with more mixins, whose types the callbacks of a mixin do not name. -/
structure Among (engine other : MixinEngine) (mixin : MixinDescriptor) : Prop where
  config : other.config = engine.config
  name : other.mixinModule.name = engine.mixinModule.name
  type : other.mixinModule.type? mixin.mixinType = engine.mixinModule.type? mixin.mixinType
  sigs : ∀ mixinDef descriptor patch, engine.mixinModule.type? mixin.mixinType = some mixinDef →
    .inject descriptor ∈ mixin.ops → mixinDef.methods[descriptor.methodIndex]? = some patch →
    ∀ sig ∈ descriptor.sigs patch, ∀ reference ∈ sig.refs, engine.mixinModule.isLocal reference.scope = true →
      other.types.get? reference.fullName = engine.types.get? reference.fullName

variable {mixin : MixinDescriptor} {mixinDef : TypeDef} {mapped : PatchState}

theorem Among.begin {extended : TypeDef} (among : engine.Among other mixin)
    (captures : ∀ field ∈ mixin.fields, ∃ name target, field = .capture name target)
    (begun : engine.begin target mixin type mixinDef = .ok (mapped, context)) (name : module.name = target.name)
    (sig : extended.sig = type.sig) (fields : type.fields <+: extended.fields) :
    mapped.type = type ∧ ∃ state, other.begin module mixin extended mixinDef = .ok (state, context.among other.types) ∧
      state.type = extended := by
  obtain ⟨table, rfl, ran⟩ := begin_mapped begun
  let start : PatchState := ⟨extended, ⟨mixin.mixinType, mixin.target.fullName, 0, 0, 0, 0, []⟩, []⟩
  have kept : type.fields <+: start.type.fields := fields
  obtain ⟨same, again⟩ := MixinContext.mapFields_among other.types captures ran kept
  refine ⟨by rw [same], start, ?_, rfl⟩
  unfold MixinEngine.begin
  rw [among.config, among.name, name, sig]
  exact congrArg (fun ran : Except WeaveFault (PatchState × Table FieldRef) => ran >>= fun mapped =>
    pure (mapped.1, (⟨mixin, mixinDef, mixin.target.fullName, type.sig,
      ⟨engine.config, engine.mixinModule.name, target.name,
      mixin.mixinType, other.types, mapped.2⟩⟩ : MixinContext))) again

theorem Among.subjects {extended : TypeDef} {index : Nat} (among : engine.Among other mixin)
    (subjects : engine.subjects target mixin = .ok (index, type, mixinDef))
    (named : module.typeIndex? mixin.target.fullName = target.typeIndex? mixin.target.fullName)
    (held : module.types[index]? = some extended) : other.subjects module mixin = .ok (index, extended, mixinDef) := by
  obtain ⟨place, -, found⟩ := subjects_ok subjects
  unfold MixinEngine.subjects
  simp only [named, place, held, among.type, found]
  rfl

theorem Among.agree {descriptor : InjectDescriptor} {patch : MethodDef} (among : engine.Among other mixin)
    (begun : engine.begin target mixin type mixinDef = .ok (mapped, context))
    (found : engine.mixinModule.type? mixin.mixinType = some mixinDef) (listed : .inject descriptor ∈ mixin.ops)
    (patched : context.mixinDef.methods[descriptor.methodIndex]? = some patch) :
    ∀ sig ∈ descriptor.sigs patch, (context.home.among other.types).sig sig = context.home.sig sig := by
  obtain ⟨fields, rfl, -⟩ := begin_mapped begun
  exact fun sig member => Rehoming.sig_among fun reference named local_ =>
    among.sigs mixinDef descriptor patch found listed patched sig member reference named local_

variable {applied : AppliedMixin} {woven : Module}

/-- A mixin is applied if its operations are. -/
theorem apply_of_begun (assemblies : Assemblies) {index : Nat}
    (subjects : engine.subjects target mixin = .ok (index, type, mixinDef))
    (begun : engine.begin target mixin type mixinDef = .ok (mapped, context)) :
    (∀ final known, engine.applyOps context target mixin.ops assemblies { mapped with seen := [] } = (.ok final, known) →
        ∃ result, engine.apply target mixin assemblies = (.ok result, known)) ∧
      ∀ fault known, engine.applyOps context target mixin.ops assemblies { mapped with seen := [] } =
        (.error fault, known) →
        engine.apply target mixin assemblies = (.error fault, known) := by
  constructor
  · intro final known ran
    exact ⟨_, apply_of_ran subjects begun ran⟩
  · intro fault known failed
    simp only [apply, subjects, begun, failed]

section

variable (among : engine.Among other mixin)
  (only : ∀ type, target.type? mixin.target.fullName = some type → mixin.OnlyInjects type)
  (accepted : engine.apply target mixin assemblies = (.ok (applied, woven), known))

include among only accepted

/-- A mixin that only injects and was accepted is refused after others only for what bodies hold then. -/
theorem Among.again {marks : List AppliedMixin} (rests : target.Rests marks module) (keeps : target.Keeps module)
    (between : Assemblies) : (∃ result, other.apply module mixin between = (.ok result, between)) ∨
      ∃ fault, other.apply module mixin between = (.error fault, between) ∧ fault.Unfit mixin.mixinType := by
  obtain ⟨index, type, mixinDef, mapped, context, final, subjects, begun, ran, -, -⟩ := apply_ok accepted
  obtain ⟨named, held, found⟩ := subjects_ok subjects
  obtain ⟨extended, there, kept, -⟩ := rests.types index type held
  obtain ⟨_, there', keeps⟩ := keeps index type held
  cases there.symm.trans there'
  have own := only type (Module.type?_of_held named held)
  obtain ⟨same, mapped', begun', same'⟩ := among.begin own.fields begun rests.name kept.sig kept.fields
  have state : ({ mapped with seen := [] } : PatchState).type = type := same
  have state' : ({ mapped' with seen := [] } : PatchState).type = extended := same'
  have matched : ({ mapped with seen := [] } : PatchState).type.Matches type.methods.length MethodDef.Keeps
      ({ mapped' with seen := [] } : PatchState).type := by
    rw [state, state']
    exact keeps.matches
  have placed := apply_of_begun between
    (among.subjects subjects (Module.typeIndex?_of_names rests.names _) there) begun'
  rcases applyOps_again own.ops (fun _ _ => among.agree begun found) ran (state ▸ .refl _) matched between with
    ⟨done, ran'⟩ | ⟨fault, failed, unfit⟩
  · exact .inl (placed.1 done between ran')
  · have called : context.mixin = mixin := (begin_ok begun).2.2.1
    exact .inr ⟨fault, placed.2 fault between failed, called ▸ unfit⟩

/-- A mixin that only injects and was accepted is accepted among others if it comes first. -/
theorem Among.echo (between : Assemblies) : ∃ result, other.apply target mixin between = (.ok result, between) := by
  obtain ⟨index, type, mixinDef, mapped, context, final, subjects, begun, ran, -, -⟩ := apply_ok accepted
  obtain ⟨named, held, found⟩ := subjects_ok subjects
  have own := only type (Module.type?_of_held named held)
  obtain ⟨same, mapped', begun', same'⟩ := among.begin own.fields begun rfl rfl List.prefix_rfl
  have state : ({ mapped with seen := [] } : PatchState).type = type := same
  have state' : ({ mapped' with seen := [] } : PatchState).type = type := same'
  have matched : ({ mapped with seen := [] } : PatchState).type.Matches type.methods.length Eq
      ({ mapped' with seen := [] } : PatchState).type := by
    rw [state, state']
    exact ⟨rfl, Nat.le_refl _, by rw [List.take_length]; exact .refl (fun _ => rfl) _⟩
  obtain ⟨done, ran'⟩ := applyOps_echo own.ops (fun _ _ => among.agree begun found) ran (state ▸ .refl _) matched
    (by rw [state, state']) between
  exact (apply_of_begun between (among.subjects subjects rfl held) begun').1 done between ran'

end

end MixinEngine

/-- Verification fails only for want of stack depths, where these have to be known. -/
theorem Verification.run_invalid {config : WeaveConfig} {module : Module} {applied : List AppliedMixin} {fault : WeaveFault}
    (failed : run config module applied = .error fault) :
    config.verifyStack = true ∧ ∃ name cause, fault = .invalidStack name cause := by
  obtain ⟨mixin, -, before, -, failed⟩ := foldlM_error (motive := fun _ => True) (fun _ _ _ _ _ _ => trivial) trivial failed
  obtain ⟨name, -, state, -, failed⟩ := foldlM_error (motive := fun _ => True) (fun _ _ _ _ _ _ => trivial) trivial failed
  obtain ⟨_, _, _, cause, same, _, _, _, _, strict⟩ := method_error failed
  exact ⟨strict, name, cause, same⟩

namespace Weaver

/-- A weave of one of the mixins of another weave, and of no other mixin. -/
structure Solo (weaver alone : Weaver) (mixin : MixinDescriptor) : Prop where
  read : alone.descriptors = .ok [mixin]
  config : alone.config = weaver.config
  target : alone.target = weaver.target
  name : alone.mixins.name = weaver.mixins.name
  type : alone.mixins.type? mixin.mixinType = weaver.mixins.type? mixin.mixinType

/-- The callbacks of a mixin name no type of this name from the mixins' module in their signatures. -/
def Ignores (weaver : Weaver) (mixin : MixinDescriptor) (name : String) : Prop :=
  ∀ mixinDef descriptor patch, weaver.mixins.type? mixin.mixinType = some mixinDef → .inject descriptor ∈ mixin.ops →
    mixinDef.methods[descriptor.methodIndex]? = some patch →
    ∀ sig ∈ descriptor.sigs patch, ∀ reference ∈ sig.refs, weaver.mixins.isLocal reference.scope = true →
      reference.fullName ≠ name

variable {weaver alone : Weaver} {mixin one two : MixinDescriptor}

theorem get?_targets (one two : MixinDescriptor) (name : String) : (targets [one, two]).get? name =
    if two.mixinType = name then some two.target.fullName
    else if one.mixinType = name then some one.target.fullName else none := by
  simp only [targets, List.map_cons, List.map_nil, Table.ofList, List.foldl_cons, List.foldl_nil, Table.get?_insert,
    Table.get?_empty]

theorem get?_target (mixin : MixinDescriptor) (name : String) :
    (targets [mixin]).get? name = if mixin.mixinType = name then some mixin.target.fullName else none := by
  simp only [targets, List.map_cons, List.map_nil, Table.ofList, List.foldl_cons, List.foldl_nil, Table.get?_insert,
    Table.get?_empty]

theorem Solo.among (solo : weaver.Solo alone mixin) {mixins : List MixinDescriptor} {name : String}
    (ignores : weaver.Ignores mixin name)
    (apart : ∀ key, key ≠ name → (targets mixins).get? key = (targets [mixin]).get? key) :
    (alone.engine [mixin]).Among (weaver.engine mixins) mixin where
  config := solo.config.symm
  name := solo.name.symm
  type := solo.type.symm
  sigs mixinDef descriptor patch found listed patched sig member reference named local_ := by
    have same : weaver.mixins.isLocal reference.scope = true := by
      unfold Module.isLocal at local_ ⊢
      rwa [← solo.name]
    exact apart _ (ignores mixinDef descriptor patch (solo.type.symm.trans found) listed patched
      sig member reference named same)

/-- The earlier mixin is accepted as it was alone. -/
theorem Solo.earlier (solo : weaver.Solo alone one) (ignores : weaver.Ignores one two.mixinType) :
    (alone.engine [one]).Among (weaver.engine [one, two]) one :=
  solo.among ignores fun key other => by rw [get?_targets, get?_target, if_neg other.symm]

theorem Solo.later (solo : weaver.Solo alone two) (ignores : weaver.Ignores two one.mixinType) :
    (alone.engine [two]).Among (weaver.engine [one, two]) two :=
  solo.among ignores fun key other => by rw [get?_targets, get?_target, if_neg other.symm]

/-- What a mixin that can be woven alone is applied to there. -/
theorem Solo.applied (solo : weaver.Solo alone mixin) (accepted : alone.apply.1.isOk = true) :
    ∃ applied woven known outcome,
      (alone.engine [mixin]).apply weaver.target mixin alone.assemblies = (.ok (applied, woven), known) ∧
      Verification.run weaver.config woven [applied] = .ok outcome := by
  obtain ⟨mixins, applied, woven, known, outcome, read, ran, verified, -, -⟩ :=
    apply_reports (Prod.ext (ok_of_isOk default accepted) rfl : alone.apply = (_, alone.apply.2))
  cases Except.ok.inj (solo.read.symm.trans read)
  obtain ⟨one, others, middle, between, rfl, first, rest⟩ := applyAll_cons ran
  cases rest
  exact ⟨one, woven, known, outcome, solo.target ▸ first, solo.config ▸ verified⟩

/-- What a mixin that is woven alone injects, it injects into the target. -/
theorem Solo.injects (solo : weaver.Solo alone mixin) {injection : Injection}
    (injects : (alone.engine [mixin]).Injects weaver.target mixin alone.assemblies injection) :
    alone.Injects [mixin] injection :=
  ⟨[], mixin, [], [], weaver.target, alone.assemblies, rfl, by rw [← solo.target]; rfl, injects⟩

/-- A weave is refused for what a mixin is refused for, or for what cannot be verified. -/
theorem apply_refuses {mixins : List MixinDescriptor} {fault : WeaveFault} {known : Assemblies}
    (read : weaver.descriptors = .ok mixins)
    (failed : applyAll (weaver.engine mixins) mixins weaver.target weaver.assemblies = (.error fault, known)) :
    weaver.apply.1 = .error fault := by
  simp only [apply, weave, read, failed]

theorem apply_unverified {mixins : List MixinDescriptor} {fault : WeaveFault} {applied : List AppliedMixin} {woven : Module}
    {known : Assemblies} (read : weaver.descriptors = .ok mixins)
    (ran : applyAll (weaver.engine mixins) mixins weaver.target weaver.assemblies = (.ok (applied, woven), known))
    (failed : Verification.run weaver.config woven applied = .error fault) : weaver.apply.1 = .error fault := by
  simp only [apply, weave, read, ran, failed]

/-- Mixins that can each be woven alone are accepted one after the other, unless the later one is refused for what bodies hold
then. -/
theorem Solo.both {other : Weaver} (read : weaver.descriptors = .ok [one, two]) (first : weaver.Solo alone one)
    (second : weaver.Solo other two)
    (injects : ∀ mixin ∈ [one, two], ∀ type, weaver.target.type? mixin.target.fullName = some type →
      mixin.OnlyInjects type)
    (ignores : weaver.Ignores one two.mixinType) (ignored : weaver.Ignores two one.mixinType)
    (accepted : alone.apply.1.isOk = true) (also : other.apply.1.isOk = true) :
    (∃ earlier middle later woven,
      (weaver.engine [one, two]).apply weaver.target one weaver.assemblies = (.ok (earlier, middle), weaver.assemblies) ∧
      (weaver.engine [one, two]).apply middle two weaver.assemblies = (.ok (later, woven), weaver.assemblies)) ∨
    ∃ fault, weaver.apply.1 = .error fault ∧ fault.Unfit two.mixinType := by
  obtain ⟨_, _, _, _, ran, -⟩ := first.applied accepted
  obtain ⟨_, _, _, _, ran', -⟩ := second.applied also
  obtain ⟨⟨earlier, middle⟩, done⟩ :=
    (first.earlier ignores).echo (injects one List.mem_cons_self) ran weaver.assemblies
  rcases (second.later ignored).again (injects two (List.mem_cons_of_mem _ List.mem_cons_self)) ran'
      (MixinEngine.apply_leaves done) (MixinEngine.apply_keeps done) weaver.assemblies with
    ⟨⟨later, woven⟩, done'⟩ | ⟨fault, failed, unfit⟩
  · exact .inl ⟨earlier, middle, later, woven, done, done'⟩
  · have stopped : applyAll (weaver.engine [one, two]) [one, two] weaver.target weaver.assemblies =
        (.error fault, weaver.assemblies) := by
      simp only [applyAll, done, failed]
    exact .inr ⟨fault, apply_refuses read stopped, unfit⟩

end Weaver

end CilWeave
