import CilWeave.Mixin.Weave
import CilWeave.Proofs.Mixin.Injection

/-!
What a weave leaves of the types it works on. Types stay in their places and keep their names; their
methods stay in theirs and change nothing but their bodies.
-/

namespace CilWeave

open Stateful

section Lists

variable {α : Type} {kept : α → α → Prop} {items middle later : List α}

/-- Each item is still in its place, up to what may change about it. -/
def Persist (kept : α → α → Prop) (items later : List α) : Prop :=
  ∀ (index : Nat) (item : α), items[index]? = some item → ∃ other, later[index]? = some other ∧ kept item other

theorem Persist.refl (same : ∀ item, kept item item) (items : List α) : Persist kept items items :=
  fun _ item held => ⟨item, held, same item⟩

theorem Persist.trans (follow : ∀ first second third, kept first second → kept second third → kept first third)
    (one : Persist kept items middle) (two : Persist kept middle later) : Persist kept items later := by
  intro index item held
  obtain ⟨between, there, first⟩ := one index item held
  obtain ⟨other, last, second⟩ := two index between there
  exact ⟨other, last, follow _ _ _ first second⟩

theorem Persist.length_le (persist : Persist kept items later) : items.length ≤ later.length := by
  refine Nat.le_of_not_lt fun fewer => ?_
  obtain ⟨other, there, -⟩ := persist later.length _ (List.getElem?_eq_getElem fewer)
  exact absurd (List.getElem?_eq_some_iff.mp there).1 (Nat.lt_irrefl _)

theorem Persist.append (same : ∀ item, kept item item) (items more : List α) : Persist kept items (items ++ more) := by
  intro index item held
  refine ⟨item, ?_, same item⟩
  rw [List.getElem?_append_left (List.getElem?_eq_some_iff.mp held).1, held]

theorem Persist.modify (same : ∀ item, kept item item) {change : α → α} (changes : ∀ item, kept item (change item))
    (items : List α) (position : Nat) : Persist kept items (items.modify position change) := by
  intro index item held
  rw [List.getElem?_modify, held]
  by_cases here : position = index
  · exact ⟨change item, by simp [here], changes item⟩
  · exact ⟨item, by simp [here], same item⟩

theorem Persist.set (same : ∀ item, kept item item) {position : Nat} {old new : α} (held : items[position]? = some old)
    (changed : kept old new) : Persist kept items (items.set position new) := by
  intro index item found
  rw [List.getElem?_set]
  by_cases here : position = index
  · subst here
    cases Option.some.inj (held.symm.trans found)
    exact ⟨new, by simp [(List.getElem?_eq_some_iff.mp held).1], changed⟩
  · exact ⟨item, by simp [here, found], same item⟩

/-- The first item that something is true of keeps its place if nothing else becomes true. -/
theorem Persist.find? {condition : α → Bool} (persist : Persist kept items later)
    (blind : ∀ item other, kept item other → condition other = condition item) {item : α}
    (found : items.find? condition = some item) : ∃ other, later.find? condition = some other ∧ kept item other := by
  obtain ⟨holds, index, inside, here, before⟩ := List.find?_eq_some_iff_getElem.mp found
  obtain ⟨other, held, changed⟩ := persist index item (List.getElem?_eq_some_iff.mpr ⟨inside, here⟩)
  obtain ⟨within, there⟩ := List.getElem?_eq_some_iff.mp held
  refine ⟨other, List.find?_eq_some_iff_getElem.mpr ⟨by rw [blind item other changed, holds], index, within, there, ?_⟩,
    changed⟩
  intro earlier less
  obtain ⟨same, placed, agrees⟩ := persist earlier _ (List.getElem?_eq_getElem (Nat.lt_trans less inside))
  have value := (List.getElem?_eq_some_iff.mp placed).2
  rw [value, blind _ _ agrees]
  exact before earlier less

/-- What takes the place of the first item that something is true of is found in its place. -/
theorem find?_set {condition : α → Bool} {position : Nat} (found : items.findIdx? condition = some position) {new : α}
    (holds : condition new = true) : (items.set position new).find? condition = some new := by
  obtain ⟨inside, -, before⟩ := List.findIdx?_eq_some_iff_getElem.mp found
  refine List.find?_eq_some_iff_getElem.mpr ⟨holds, position, by rwa [List.length_set], by simp, ?_⟩
  intro earlier less
  rw [List.getElem_set_ne (Nat.ne_of_gt less)]
  simpa using before earlier less

end Lists

/-- Nothing but the body may differ. -/
def MethodDef.Alike (method other : MethodDef) : Prop := ∃ body, other = { method with body }

theorem MethodDef.Alike.refl (method : MethodDef) : method.Alike method := ⟨method.body, rfl⟩

theorem MethodDef.Alike.trans (first second third : MethodDef) (one : first.Alike second) (two : second.Alike third) :
    first.Alike third := by
  obtain ⟨_, rfl⟩ := one
  obtain ⟨body, rfl⟩ := two
  exact ⟨body, rfl⟩

/-- A type that may have gained members and other bodies. -/
structure TypeDef.Grows (type later : TypeDef) : Prop where
  ref : later.ref = type.ref
  base : later.base = type.base
  methods : Persist MethodDef.Alike type.methods later.methods

namespace TypeDef.Grows

variable {type middle later : TypeDef}

theorem refl (type : TypeDef) : type.Grows type := ⟨rfl, rfl, .refl .refl _⟩

theorem trans (type middle later : TypeDef) (first : type.Grows middle) (second : middle.Grows later) :
    type.Grows later :=
  ⟨second.ref.trans first.ref, second.base.trans first.base,
    .trans MethodDef.Alike.trans first.methods second.methods⟩

theorem fullName (grows : type.Grows later) : later.fullName = type.fullName := congrArg TypeRef.fullName grows.ref

theorem sig (grows : type.Grows later) : later.sig = type.sig := by
  simp only [TypeDef.sig, grows.ref, grows.base]

theorem addMethods (type : TypeDef) (added : List MethodDef) :
    type.Grows { type with methods := type.methods ++ added } :=
  ⟨rfl, rfl, .append .refl _ added⟩

theorem modify (type : TypeDef) {change : MethodDef → MethodDef}
    (changes : ∀ method : MethodDef, method.Alike (change method))
    (position : Nat) : type.Grows { type with methods := type.methods.modify position change } :=
  ⟨rfl, rfl, .modify .refl changes _ position⟩

end TypeDef.Grows

/-- A module whose types have only grown. -/
def Module.Grows (module later : Module) : Prop := Persist TypeDef.Grows module.types later.types

theorem Module.Grows.refl (module : Module) : module.Grows module := Persist.refl .refl _

theorem Module.Grows.trans {module middle later : Module} (first : module.Grows middle) (second : middle.Grows later) :
    module.Grows later := Persist.trans TypeDef.Grows.trans first second

theorem Module.Grows.type? {module later : Module} (grows : module.Grows later) {name : String} {type : TypeDef}
    (found : module.type? name = some type) : ∃ other, later.type? name = some other ∧ type.Grows other :=
  Persist.find? grows (fun _ _ kept => by rw [kept.fullName]) found

theorem Module.type?_fullName {module : Module} {name : String} {type : TypeDef} (found : module.type? name = some type) :
    type.fullName = name := by
  simpa using List.find?_some found

namespace MixinContext

variable {context : MixinContext} {state after : PatchState}

theorem mapField_grows {descriptor : FieldDescriptor} {name : String} {field : FieldRef}
    (mapped : context.mapField state descriptor = .ok (after, name, field)) : state.type.Grows after.type := by
  cases mapField_iff.mp mapped with
  | captured => exact .refl _
  | added => exact ⟨rfl, rfl, .refl .refl _⟩

/-- What each field that is mapped keeps, all of them keep. -/
theorem mapFields_preserves {motive : PatchState → Prop} {descriptors : List FieldDescriptor} {fields mapped : Table FieldRef}
    (keeps : ∀ descriptor before after name field, context.mapField before descriptor = .ok (after, name, field) →
      motive before → motive after)
    (begins : motive state) (ran : context.mapFields descriptors state fields = .ok (after, mapped)) : motive after := by
  induction descriptors generalizing state fields with
  | nil =>
      cases ran
      exact begins
  | cons descriptor rest ih =>
      obtain ⟨⟨middle, name, field⟩, first, ran⟩ := bind_ok ran
      exact ih (keeps descriptor state middle name field first begins) ran

theorem mapFields_grows {descriptors : List FieldDescriptor} {fields mapped : Table FieldRef}
    (ran : context.mapFields descriptors state fields = .ok (after, mapped)) : state.type.Grows after.type :=
  mapFields_preserves (motive := fun later => state.type.Grows later.type)
    (fun _ _ _ _ _ one grown => .trans _ _ _ grown (mapField_grows one)) (.refl state.type) ran

theorem applyImplements_grows {sig : TypeSig} {found : Option TypeDef}
    (applied : context.applyImplements sig found state = .ok after) : state.type.Grows after.type := by
  obtain ⟨_, _, methods, -, -, type, -⟩ := applyImplements_ok applied
  rw [type]
  exact ⟨rfl, rfl, .append .refl _ methods⟩

theorem applyOverwrite_grows {index : Nat} (applied : context.applyOverwrite index state = .ok after) :
    state.type.Grows after.type := by
  obtain ⟨_, _, position, _, -, -, -, -, -, type, -⟩ := applyOverwrite_ok applied
  rw [type]
  exact .modify _ (fun _ => ⟨_, rfl⟩) position

theorem applyInject_grows {descriptor : InjectDescriptor} (applied : context.applyInject descriptor state = .ok after) :
    state.type.Grows after.type := by
  obtain ⟨plan, slot, original, spliced, -, -, -, type⟩ := applyInject_ok applied
  rw [type]
  refine .trans _ _ _ (.addMethods state.type [context.ported state plan.patch]) ?_
  exact .modify { state.type with methods := state.type.methods ++ [context.ported state plan.patch] }
    (fun _ => ⟨_, rfl⟩) plan.index

end MixinContext

namespace MixinEngine

variable {engine : MixinEngine} {context : MixinContext} {target : Module} {assemblies known : Assemblies}
  {state after : PatchState}

theorem applyOp_grows {op : MixinOp}
    (applied : engine.applyOp context target assemblies state op = (.ok after, known)) :
    state.type.Grows after.type := by
  cases op with
  | implements interface => exact MixinContext.applyImplements_grows (congrArg Prod.fst applied)
  | overwrite index name => exact MixinContext.applyOverwrite_grows (congrArg Prod.fst applied)
  | inject descriptor => exact MixinContext.applyInject_grows (congrArg Prod.fst applied)

/-- Operations that succeed one after the other. -/
theorem applyOps_cons {op : MixinOp} {ops : List MixinOp}
    (applied : engine.applyOps context target (op :: ops) assemblies state = (.ok after, known)) :
    ∃ middle between, engine.applyOp context target assemblies state op = (.ok middle, between) ∧
      engine.applyOps context target ops between middle = (.ok after, known) := by
  unfold applyOps at applied
  rcases ran : engine.applyOp context target assemblies state op with ⟨fault | middle, between⟩
  · rw [ran] at applied
    cases applied
  · rw [ran] at applied
    exact ⟨middle, between, rfl, applied⟩

theorem applyOps_append {ops others : List MixinOp}
    (applied : engine.applyOps context target (ops ++ others) assemblies state = (.ok after, known)) :
    ∃ middle between, engine.applyOps context target ops assemblies state = (.ok middle, between) ∧
      engine.applyOps context target others between middle = (.ok after, known) := by
  induction ops generalizing state assemblies with
  | nil => exact ⟨state, assemblies, rfl, applied⟩
  | cons op rest ih =>
      obtain ⟨next, between, one, applied⟩ := applyOps_cons applied
      obtain ⟨middle, last, later, applied⟩ := ih applied
      exact ⟨middle, last, by rw [applyOps, one]; exact later, applied⟩

theorem applyOps_grows {ops : List MixinOp}
    (applied : engine.applyOps context target ops assemblies state = (.ok after, known)) :
    state.type.Grows after.type := by
  induction ops generalizing state assemblies with
  | nil =>
      cases applied
      exact .refl _
  | cons op rest ih =>
      obtain ⟨middle, between, one, applied⟩ := applyOps_cons applied
      exact .trans _ _ _ (applyOp_grows one) (ih applied)

theorem finish_types (target : Module) (index : Nat) (home : Rehoming) (refs : List TypeRef) (state : PatchState) :
    (finish target index home refs state).types = target.types.set index state.type := by
  have kept (names : List String) (module : Module) : (names.foldl Module.addAssemblyRef module).types = module.types := by
    induction names generalizing module with
    | nil => rfl
    | cons name rest ih =>
        rw [List.foldl_cons, ih, Module.addAssemblyRef]
        split <;> rfl
  simp only [finish, kept]

/-- How an accepted mixin was applied. -/
theorem apply_ok {mixin : MixinDescriptor} {applied : AppliedMixin} {woven : Module}
    (accepted : engine.apply target mixin assemblies = (.ok (applied, woven), known)) :
    ∃ index type mixinDef mapped context final, engine.subjects target mixin = .ok (index, type, mixinDef) ∧
      engine.begin target mixin type mixinDef = .ok (mapped, context) ∧
      engine.applyOps context target mixin.ops assemblies { mapped with seen := [] } = (.ok final, known) ∧
      applied = final.applied ∧ woven = finish target index context.home mapped.seen final := by
  unfold apply at accepted
  split at accepted
  · cases accepted
  · rename_i index type mixinDef subjects
    split at accepted
    · cases accepted
    · rename_i mapped context begun
      rcases ran : engine.applyOps context target mixin.ops assemblies { mapped with seen := [] } with ⟨fault | final, last⟩
      · rw [ran] at accepted
        cases accepted
      · rw [ran] at accepted
        cases accepted
        exact ⟨index, type, mixinDef, mapped, context, final, subjects, begun, ran, rfl, rfl⟩

/-- What a mixin makes of the target if all of its operations can be carried out. -/
theorem apply_of_ran {mixin : MixinDescriptor} {index : Nat} {type mixinDef : TypeDef} {mapped final : PatchState}
    (subjects : engine.subjects target mixin = .ok (index, type, mixinDef))
    (begun : engine.begin target mixin type mixinDef = .ok (mapped, context))
    (ran : engine.applyOps context target mixin.ops assemblies { mapped with seen := [] } = (.ok final, known)) :
    engine.apply target mixin assemblies =
      (.ok (final.applied, finish target index context.home mapped.seen final), known) := by
  simp only [apply, subjects, begun, ran]

theorem subjects_ok {mixin : MixinDescriptor} {index : Nat} {type mixinDef : TypeDef}
    (found : engine.subjects target mixin = .ok (index, type, mixinDef)) :
    target.typeIndex? mixin.target.fullName = some index ∧ target.types[index]? = some type ∧
      engine.mixinModule.type? mixin.mixinType = some mixinDef := by
  unfold subjects at found
  dsimp only at found
  split at found
  · rename_i position named
    split at found
    · rename_i held
      split at found
      · rename_i definition
        cases found
        exact ⟨named, held, definition⟩
      · cases found
    · cases found
  · cases found

/-- The type that a mixin works on has its target's name. -/
theorem subjects_fullName {mixin : MixinDescriptor} {index : Nat} {type mixinDef : TypeDef}
    (found : engine.subjects target mixin = .ok (index, type, mixinDef)) : type.fullName = mixin.target.fullName := by
  obtain ⟨named, held, -⟩ := subjects_ok found
  obtain ⟨inside, name, -⟩ := List.findIdx?_eq_some_iff_getElem.mp named
  rwa [(List.getElem?_eq_some_iff.mp held).2, beq_iff_eq] at name

theorem begin_ok {mixin : MixinDescriptor} {type mixinDef : TypeDef} {mapped : PatchState}
    (begun : engine.begin target mixin type mixinDef = .ok (mapped, context)) :
    type.Grows mapped.type ∧ context.targetSig = type.sig ∧ context.mixin = mixin ∧ context.mixinDef = mixinDef ∧
      context.home.config = engine.config ∧ context.home.types = engine.types := by
  unfold begin at begun
  obtain ⟨⟨state, fields⟩, ran, begun⟩ := bind_ok begun
  cases begun
  exact ⟨MixinContext.mapFields_grows ran, rfl, rfl, rfl, rfl, rfl⟩

theorem apply_grows {mixin : MixinDescriptor} {applied : AppliedMixin} {woven : Module}
    (accepted : engine.apply target mixin assemblies = (.ok (applied, woven), known)) : target.Grows woven := by
  obtain ⟨index, type, mixinDef, mapped, context, final, subjects, begun, ran, -, rfl⟩ := apply_ok accepted
  have held := (subjects_ok subjects).2.1
  have worked := applyOps_grows ran
  rw [Module.Grows, finish_types]
  exact .set .refl held (.trans _ _ _ (begin_ok begun).1 worked)

end MixinEngine

theorem Module.modifyType_grows (module : Module) (name : String) {change : TypeDef → TypeDef}
    (changes : ∀ type : TypeDef, type.Grows (change type)) : module.Grows (module.modifyType name change) := by
  unfold modifyType
  split
  · exact .modify .refl changes _ _
  · exact .refl module

namespace Verification

variable {config : WeaveConfig} {state after : Verification}

/-- What comes of verifying a name: its type is not there, it was verified before, the type has no such method, the depth of
the method is written down, or the method has no depth, which the weave refuses or notes. -/
inductive Step (config : WeaveConfig) (typeName : String) (state : Verification) (name : String) :
    Except WeaveFault Verification → Prop
  | absent : state.module.type? typeName = none → Step config typeName state name (.ok state)
  | known {type : TypeDef} : state.module.type? typeName = some type → name ∈ state.seen →
      Step config typeName state name (.ok state)
  | missing {type : TypeDef} : state.module.type? typeName = some type → type.methodIndex? name = none →
      Step config typeName state name (.ok { state with seen := name :: state.seen })
  | sized {type : TypeDef} {index : Nat} {method : MethodDef} {depth : UInt16} : state.module.type? typeName = some type →
      type.methodIndex? name = some index → type.methods[index]? = some method → method.maxDepth = .ok depth →
      Step config typeName state name (.ok { state with
        module := state.module.modifyType typeName fun type =>
          { type with methods := type.methods.modify index fun method => method.withMaxStack depth }
        seen := name :: state.seen
        verified := state.verified + 1 })
  | refused {type : TypeDef} {index : Nat} {method : MethodDef} {cause : StackFault} :
      state.module.type? typeName = some type →
      type.methodIndex? name = some index → type.methods[index]? = some method → method.maxDepth = .error cause →
      config.verifyStack = true → Step config typeName state name (.error (.invalidStack name cause))
  | unknown {type : TypeDef} {index : Nat} {method : MethodDef} {cause : StackFault} :
      state.module.type? typeName = some type →
      type.methodIndex? name = some index → type.methods[index]? = some method → method.maxDepth = .error cause →
      config.verifyStack = false → Step config typeName state name
        (.ok { state with seen := name :: state.seen, unverified := state.unverified ++ [name] })

theorem method_step (config : WeaveConfig) (typeName : String) (state : Verification) (name : String) :
    Step config typeName state name (method config typeName state name) := by
  unfold method
  cases found : state.module.type? typeName with
  | none => exact .absent found
  | some type =>
      dsimp only
      split
      · rename_i noted
        exact .known found (List.contains_iff_mem.mp noted)
      · cases named : type.methodIndex? name with
        | none => exact .missing found named
        | some index =>
            have inside : index < type.methods.length := (List.findIdx?_eq_some_iff_getElem.mp named).1
            have held := List.getElem?_eq_getElem inside
            dsimp only
            rw [held, Option.map_some]
            cases depth : type.methods[index].maxDepth with
            | ok greatest => exact .sized found named held depth
            | error cause =>
                dsimp only
                split
                · rename_i strict
                  exact .refused found named held depth strict
                · rename_i lax
                  exact .unknown found named held depth (Bool.not_eq_true _ ▸ lax)

/-- A verified name has no other effect on the module than that the depth of one method may be written down. -/
theorem method_ok {typeName name : String} (verified : method config typeName state name = .ok after) :
    after.module = state.module ∨ ∃ index depth, after.module = state.module.modifyType typeName fun type =>
      { type with methods := type.methods.modify index fun method => method.withMaxStack depth } := by
  have step := method_step config typeName state name
  rw [verified] at step
  cases step with
  | absent | known | missing | unknown => exact .inl rfl
  | sized => exact .inr ⟨_, _, rfl⟩

section

variable {motive : Verification → Prop} {module : Module} {applied : List AppliedMixin}
  (keeps : ∀ mixin ∈ applied, ∀ name ∈ mixin.touched, ∀ before after : Verification, motive before →
    method config mixin.targetType before name = .ok after → motive after)
  (begins : motive ⟨module, [], 0, []⟩)

include keeps begins

/-- What is kept when a touched method is verified is kept when all are. -/
theorem run_keeps (ran : run config module applied = .ok after) : motive after :=
  foldlM_ok (fun mixin member _ _ kept mixed => foldlM_ok (keeps mixin member) kept mixed) begins ran

/-- Verification fails at a touched method, and those before it have kept what each of them keeps. -/
theorem run_stops {fault : WeaveFault} (failed : run config module applied = .error fault) :
    ∃ mixin ∈ applied, ∃ name ∈ mixin.touched, ∃ before, motive before ∧
      method config mixin.targetType before name = .error fault := by
  obtain ⟨mixin, member, before, kept, failed⟩ := foldlM_error (motive := motive)
    (fun mixin member _ _ kept mixed => foldlM_ok (keeps mixin member) kept mixed) begins failed
  obtain ⟨name, touched, before, kept, failed⟩ := foldlM_error (motive := motive) (keeps mixin member) kept failed
  exact ⟨mixin, member, name, touched, before, kept, failed⟩

end

theorem method_grows {typeName name : String} (verified : method config typeName state name = .ok after) :
    state.module.Grows after.module := by
  rcases method_ok verified with same | ⟨index, depth, same⟩
  · exact same ▸ .refl _
  · exact same ▸ Module.modifyType_grows _ _ fun type => .modify type (fun _ => ⟨_, rfl⟩) _

theorem run_grows {module : Module} {applied : List AppliedMixin} (ran : run config module applied = .ok after) :
    module.Grows after.module :=
  run_keeps (motive := fun state => module.Grows state.module)
    (fun _ _ _ _ _ _ grown verified => grown.trans (method_grows verified)) (.refl module) ran

end Verification

namespace Weaver

variable {engine : MixinEngine} {target woven : Module} {assemblies known : Assemblies} {applied : List AppliedMixin}

theorem applyAll_cons {mixin : MixinDescriptor} {mixins : List MixinDescriptor}
    (ran : applyAll engine (mixin :: mixins) target assemblies = (.ok (applied, woven), known)) :
    ∃ one others middle between, applied = one :: others ∧
      engine.apply target mixin assemblies = (.ok (one, middle), between) ∧
      applyAll engine mixins middle between = (.ok (others, woven), known) := by
  unfold applyAll at ran
  rcases first : engine.apply target mixin assemblies with ⟨fault | ⟨one, middle⟩, between⟩
  · rw [first] at ran
    cases ran
  · rw [first] at ran
    dsimp only at ran
    rcases rest : applyAll engine mixins middle between with ⟨fault | ⟨others, last⟩, final⟩
    · rw [rest] at ran
      cases ran
    · rw [rest] at ran
      cases ran
      exact ⟨one, others, middle, between, rfl, rfl, rest⟩

theorem applyAll_grows {mixins : List MixinDescriptor}
    (ran : applyAll engine mixins target assemblies = (.ok (applied, woven), known)) : target.Grows woven := by
  induction mixins generalizing target assemblies applied with
  | nil =>
      cases ran
      exact .refl _
  | cons mixin rest ih =>
      obtain ⟨one, others, middle, between, -, first, ran⟩ := applyAll_cons ran
      exact (MixinEngine.apply_grows first).trans (ih ran)

end Weaver

end CilWeave
