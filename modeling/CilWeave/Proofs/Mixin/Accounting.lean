import CilWeave.Proofs.Mixin.Outline
import CilWeave.Proofs.Mixin.WovenVerification

/-!
What a weave changes is verified. Every operation touches the methods that it adds or changes; a name that was
touched is verified where it is found first, and its depth is the one that is written down.
-/

namespace CilWeave

open Stateful

namespace StackContext

variable (context : StackContext) (depth : UInt16) (next : InstrId)

/-- The same code with another depth written down. -/
def sized : StackContext := { context with body := { context.body with maxStack := depth } }

/-- The same code with another depth written down and another counter. -/
def rewritten : StackContext := { context with body := { context.body with maxStack := depth, nextId := next } }

theorem targetPositions_rewritten (instruction : Instruction) (targets : List InstrId) :
    (context.rewritten depth next).targetPositions instruction targets = context.targetPositions instruction targets := by
  induction targets with
  | nil => rfl
  | cons target rest ih =>
      rw [targetPositions, targetPositions, ih]
      rfl

theorem successors_rewritten (position : Nat) (instruction : Instruction) :
    (context.rewritten depth next).successors position instruction = context.successors position instruction := by
  rw [successors, successors, targetPositions_rewritten]
  rfl

theorem visit_rewritten (search : DepthSearch) (position : Nat) :
    (context.rewritten depth next).visit search position = context.visit search position := by
  unfold visit
  simp only [successors_rewritten]
  rfl

theorem explore_rewritten (rounds : Nat) (search : DepthSearch) :
    (context.rewritten depth next).explore rounds search = context.explore rounds search := by
  induction rounds generalizing search with
  | zero => rfl
  | succ rounds ih =>
      cases pending : search.pending with
      | nil => simp only [explore, pending]
      | cons position rest => simp only [explore, pending, visit_rewritten, ih]

/-- Depths are found in the instructions alone. -/
theorem maxDepth_rewritten : (context.rewritten depth next).maxDepth = context.maxDepth := by
  rw [StackContext.maxDepth, StackContext.maxDepth, StackContext.explore_rewritten]
  rfl

theorem maxDepth_sized : (context.sized depth).maxDepth = context.maxDepth :=
  context.maxDepth_rewritten depth context.body.nextId

end StackContext

namespace MethodDef

theorem maxDepth_withMaxStack (method : MethodDef) (depth : UInt16) :
    (method.withMaxStack depth).maxDepth = method.maxDepth := by
  obtain ⟨name, flags, returns, params, body, attributes⟩ := method
  cases body with
  | none => rfl
  | some body =>
      exact StackContext.maxDepth_sized
        ⟨body, argumentCount ⟨name, flags, returns, params, some body, attributes⟩, !returns.isVoid⟩ depth

/-- The method verifies, and its depth is written down. -/
def Settled (method : MethodDef) : Prop :=
  ∃ body depth, method.body = some body ∧ method.maxDepth = .ok depth ∧ body.maxStack = depth

theorem settled_withMaxStack {method : MethodDef} {depth : UInt16} (verifies : method.maxDepth = .ok depth) :
    (method.withMaxStack depth).Settled := by
  obtain ⟨name, flags, returns, params, body, attributes⟩ := method
  cases body with
  | none => cases verifies
  | some body => exact ⟨_, depth, rfl, (maxDepth_withMaxStack _ depth).trans verifies, rfl⟩

end MethodDef

/-- The methods of a type that are not as they were are touched, and what is touched are methods of it. -/
structure PatchState.Accounts (before : TypeDef) (state : PatchState) : Prop where
  fullName : state.type.fullName = before.fullName
  targetType : state.applied.targetType = before.fullName
  kept : ∀ name ∈ before.memberNames, name ∈ state.type.memberNames
  changed : ∀ (index : Nat) (method : MethodDef), state.type.methods[index]? = some method →
    before.methods[index]? = some method ∨ method.fullNameIn before.fullName ∈ state.applied.touched
  found : ∀ name ∈ state.applied.touched, name ∈ state.type.memberNames

theorem PatchState.Accounts.advances {before : TypeDef} {state after : PatchState} {added : List MethodDef}
    (accounts : state.Accounts before) (advances : state.Advances after added) : after.Accounts before where
  fullName := advances.fullName.trans accounts.fullName
  targetType := advances.targetType.trans accounts.targetType
  kept name member := by
    rw [advances.names]
    exact List.mem_append_left _ (accounts.kept name member)
  changed index method held := by
    rcases advances.changed index method held with same | touched
    · exact (accounts.changed index method same).imp_right fun touched => advances.touched _ touched
    · exact .inr (accounts.fullName ▸ touched)
  found name member := by
    rcases advances.found name member with old | new
    · rw [advances.names]
      exact List.mem_append_left _ (accounts.found name old)
    · exact new

namespace MixinEngine

variable {engine : MixinEngine} {target woven : Module} {mixin : MixinDescriptor} {assemblies known : Assemblies}
  {applied : AppliedMixin}

/-- An accepted mixin puts a type in the place of the first one of its target's name. -/
theorem apply_accounts (accepted : engine.apply target mixin assemblies = (.ok (applied, woven), known)) :
    ∃ (index : Nat) (type : TypeDef) (final : PatchState), target.typeIndex? type.fullName = some index ∧
    target.types[index]? = some type ∧
      final.Accounts type ∧ final.applied = applied ∧ woven.types = target.types.set index final.type := by
  obtain ⟨index, type, mixinDef, mapped, context, final, subjects, begun, ran, rfl, rfl⟩ := apply_ok accepted
  obtain ⟨fields, -, fieldsMapped⟩ := begin_mapped begun
  obtain ⟨named, held, -⟩ := subjects_ok subjects
  have name := subjects_fullName subjects
  obtain ⟨methods, account⟩ := MixinContext.mapFields_methods fieldsMapped
  have begins : PatchState.Accounts type { mapped with seen := [] } := by
    have grown : mapped.type.fullName = type.fullName := (MixinContext.mapFields_grows fieldsMapped).fullName
    have names : mapped.type.memberNames = type.memberNames := by
      rw [TypeDef.memberNames, TypeDef.memberNames, methods, grown]
    refine ⟨grown, ?_, fun name member => names ▸ member, fun index method there => .inl (methods ▸ there),
      fun name member => ?_⟩
    · show mapped.applied.targetType = type.fullName
      rw [account, name]
    · have none : name ∈ mapped.applied.touched := member
      rw [account] at none
      cases none
  refine ⟨index, type, final, name ▸ named, held, ?_, rfl, finish_types _ _ _ _ _⟩
  refine applyOps_preserves (motive := PatchState.Accounts type) ?_ begins ran
  intro earlier op later state after between known split before one accounts
  obtain ⟨added, advances⟩ := applyOp_advances one
  exact accounts.advances advances

end MixinEngine

/-- Methods that are not as they were are touched, on the first type of its name; what is touched are methods. -/
structure Module.Accounted (target : Module) (applied : List AppliedMixin) (woven : Module) : Prop where
  names : woven.types.map TypeDef.fullName = target.types.map TypeDef.fullName
  changed : ∀ (place index : Nat) (type : TypeDef) (method : MethodDef), woven.types[place]? = some type →
    type.methods[index]? = some method → target.code? place index ≠ some method.code →
      woven.typeIndex? type.fullName = some place ∧
        ∃ mixin ∈ applied, mixin.targetType = type.fullName ∧ method.fullNameIn type.fullName ∈ mixin.touched
  found : ∀ mixin ∈ applied, ∀ name ∈ mixin.touched,
    ∃ type ∈ woven.types, type.fullName = mixin.targetType ∧ name ∈ type.memberNames

theorem Module.typeIndex?_of_names {module other : Module}
    (same : other.types.map TypeDef.fullName = module.types.map TypeDef.fullName) (name : String) :
    other.typeIndex? name = module.typeIndex? name := by
  have named (module : Module) : module.typeIndex? name = (module.types.map TypeDef.fullName).findIdx? (· == name) := by
    rw [typeIndex?, List.findIdx?_map]
    rfl
  rw [named, named, same]

/-- What is seen of a list's items does not change if one is replaced by an item that looks the same. -/
theorem map_set_of_same {α β : Type} {view : α → β} {items : List α} {index : Nat} {old new : α}
    (held : items[index]? = some old)
    (same : view new = view old) : (items.set index new).map view = items.map view := by
  have own : (items.map view)[index]? = some (view new) := by rw [List.getElem?_map, held, Option.map_some, same]
  obtain ⟨within, here⟩ := List.getElem?_eq_some_iff.mp own
  rw [List.map_set, ← here, List.set_getElem_self]

theorem Module.Accounted.step {target middle woven : Module} {applied : List AppliedMixin} {index : Nat} {type : TypeDef}
    {final : PatchState} (accounted : target.Accounted applied middle) (named : middle.typeIndex? type.fullName = some index)
    (held : middle.types[index]? = some type) (accounts : final.Accounts type)
    (placed : woven.types = middle.types.set index final.type) : target.Accounted (applied ++ [final.applied]) woven := by
  have inside := (List.getElem?_eq_some_iff.mp held).1
  have names : woven.types.map TypeDef.fullName = middle.types.map TypeDef.fullName :=
    placed ▸ map_set_of_same held accounts.fullName
  have put : woven.types[index]? = some final.type := by
    rw [placed, List.getElem?_set_self inside]
  have others {place : Nat} (other : index ≠ place) : woven.types[place]? = middle.types[place]? := by
    rw [placed, List.getElem?_set_ne other]
  refine ⟨names.trans accounted.names, fun place position later method there listed differs => ?_,
    fun mixin member name touched => ?_⟩
  · -- Only the first type of a name is worked on, so the type of a touched method is that one.
    rw [Module.typeIndex?_of_names names]
    by_cases here : index = place
    · subst here
      cases Option.some.inj (put.symm.trans there)
      rw [accounts.fullName]
      rcases accounts.changed position method listed with same | touched
      · obtain ⟨first, mixin, member, targetType, touched⟩ :=
          accounted.changed index position type method held same differs
        exact ⟨first, mixin, List.mem_append_left _ member, targetType, touched⟩
      · exact ⟨named, final.applied, List.mem_append_right _ (List.mem_singleton_self _), accounts.targetType, touched⟩
    · obtain ⟨first, mixin, member, rest⟩ :=
        accounted.changed place position later method (others here ▸ there) listed differs
      exact ⟨first, mixin, List.mem_append_left _ member, rest⟩
  · rcases List.mem_append.mp member with old | new
    · obtain ⟨type', among, targetType, has⟩ := accounted.found mixin old name touched
      obtain ⟨place, there⟩ := List.getElem?_of_mem among
      by_cases here : index = place
      · subst here
        cases Option.some.inj (held.symm.trans there)
        exact ⟨final.type, List.mem_of_getElem? put, accounts.fullName.trans targetType, accounts.kept name has⟩
      · exact ⟨type', List.mem_of_getElem? ((others here).trans there), targetType, has⟩
    · cases List.mem_singleton.mp new
      exact ⟨final.type, List.mem_of_getElem? put, accounts.fullName.trans accounts.targetType.symm,
        accounts.found name touched⟩

/-- A mixin neither adds types nor renames them. -/
theorem MixinEngine.apply_names {engine : MixinEngine} {target woven : Module} {mixin : MixinDescriptor}
    {assemblies known : Assemblies}
    {applied : AppliedMixin} (accepted : engine.apply target mixin assemblies = (.ok (applied, woven), known)) :
    woven.types.map TypeDef.fullName = target.types.map TypeDef.fullName := by
  obtain ⟨index, type, final, -, held, accounts, -, placed⟩ := apply_accounts accepted
  rw [placed, map_set_of_same held accounts.fullName]

theorem Weaver.applyAll_names {engine : MixinEngine} {mixins : List MixinDescriptor} {target woven : Module}
    {assemblies known : Assemblies} {applied : List AppliedMixin}
    (ran : applyAll engine mixins target assemblies = (.ok (applied, woven), known)) :
    woven.types.map TypeDef.fullName = target.types.map TypeDef.fullName := by
  induction mixins generalizing target assemblies applied with
  | nil =>
      cases ran
      rfl
  | cons mixin rest ih =>
      obtain ⟨one, others, middle, between, -, first, ran⟩ := applyAll_cons ran
      exact (ih ran).trans (MixinEngine.apply_names first)

theorem Weaver.applyAll_accounted {weaver : Weaver} {mixins : List MixinDescriptor} {applied : List AppliedMixin}
    {woven : Module} {known : Assemblies}
    (ran : applyAll (weaver.engine mixins) mixins weaver.target weaver.assemblies = (.ok (applied, woven), known)) :
    weaver.target.Accounted applied woven := by
  refine applyAll_reaches (motive := weaver.target.Accounted) ⟨rfl, ?_, nofun⟩ ?_ (List.append_nil mixins).symm ran
  · intro place index type method held listed differs
    exact absurd (Module.code?_of held listed) differs
  · intro earlier mixin later applied one target middle between known split before accepted accounted
    obtain ⟨index, type, final, named, held, accounts, rfl, placed⟩ := MixinEngine.apply_accounts accepted
    exact accounted.step named held accounts placed

namespace Module

variable (module : Module)

/-- Where the method of a full name is found on the type of a name. -/
def place? (typeName name : String) : Option (Nat × Nat) := do
  let place ← module.typeIndex? typeName
  let type ← module.types[place]?
  let index ← type.methodIndex? name
  return (place, index)

def methodAt? (place index : Nat) : Option MethodDef := (module.types[place]?).bind (·.methods[index]?)

/-- Writes down the depth of the method in a place. -/
def resize (place index : Nat) (depth : UInt16) : Module :=
  { module with
    types := module.types.modify place fun type =>
      { type with methods := type.methods.modify index fun method => method.withMaxStack depth } }

variable {module}

theorem type?_of_absent {typeName : String} (nowhere : module.typeIndex? typeName = none) : module.type? typeName = none := by
  rw [type?, List.find?_eq_bind_findIdx?_getElem?, show module.types.findIdx? _ = _ from nowhere, Option.bind_none]

/-- A type that is found by name has a place. -/
theorem type?_of_place {typeName : String} {place : Nat} (named : module.typeIndex? typeName = some place) :
    ∃ type, module.types[place]? = some type ∧ module.type? typeName = some type := by
  have inside := (List.findIdx?_eq_some_iff_getElem.mp named).1
  have held := List.getElem?_eq_getElem inside
  refine ⟨_, held, ?_⟩
  rw [type?, List.find?_eq_bind_findIdx?_getElem?, show module.types.findIdx? _ = _ from named, Option.bind_some, held]

theorem typeIndex?_of_none {typeName : String} (nowhere : module.type? typeName = none) :
    module.typeIndex? typeName = none := by
  cases named : module.typeIndex? typeName with
  | none => rfl
  | some place =>
      obtain ⟨type, -, found⟩ := type?_of_place named
      cases nowhere.symm.trans found

/-- The place of a type that is found by name, where it is changed by its name. -/
theorem place_of_type? {typeName : String} {type : TypeDef} (found : module.type? typeName = some type) :
    ∃ place, module.typeIndex? typeName = some place ∧ module.types[place]? = some type ∧
      ∀ change, module.modifyType typeName change = { module with types := module.types.modify place change } := by
  cases named : module.typeIndex? typeName with
  | none => cases (type?_of_absent named).symm.trans found
  | some place =>
      obtain ⟨own, held, first⟩ := type?_of_place named
      cases found.symm.trans first
      exact ⟨place, rfl, held, fun change => by rw [modifyType, named]⟩

theorem place?_of_held {typeName name : String} {place : Nat} {type : TypeDef} (named : module.typeIndex? typeName = some place)
    (held : module.types[place]? = some type) :
    module.place? typeName name = (type.methodIndex? name).map (Prod.mk place) := by
  rw [place?, named]
  simp only [Option.bind_eq_bind, Option.bind_some, held]
  rw [Option.map_eq_bind]
  rfl

theorem typeIndex?_of_place? {typeName name : String} {found : Nat × Nat} (there : module.place? typeName name = some found) :
    module.typeIndex? typeName ≠ none := by
  intro nowhere
  rw [place?, nowhere] at there
  cases there

theorem methodAt?_of_held {place index : Nat} {type : TypeDef} (held : module.types[place]? = some type) :
    module.methodAt? place index = type.methods[index]? := by
  rw [methodAt?, held, Option.bind_some]

theorem place?_of_outline {other : Module} (same : other.outline = module.outline) (typeName name : String) :
    other.place? typeName name = module.place? typeName name := by
  have by_outline (module : Module) : module.place? typeName name = (do
      let place ← module.outline.findIdx? fun type => type.fullName == typeName
      let type ← module.outline[place]?
      let index ← (type.methods.map Prod.fst).findIdx? (· == name)
      return (place, index)) := by
    simp only [place?, typeIndex?_eq, outline, List.getElem?_map, TypeDef.methodIndex?_eq, ← TypeDef.outline_memberNames,
      Option.bind_eq_bind, Option.bind_map]
    rfl
  rw [by_outline, by_outline, same]

theorem methodAt?_resize (place index place' index' : Nat) (depth : UInt16) :
    (module.resize place' index' depth).methodAt? place index =
      if place' = place ∧ index' = index then (module.methodAt? place index).map (·.withMaxStack depth)
      else module.methodAt? place index := by
  simp only [resize, methodAt?, List.getElem?_modify]
  cases module.types[place]? with
  | none => simp
  | some type =>
      by_cases type' : place' = place <;> by_cases method : index' = index <;> simp [type', method]

end Module

namespace Verification

variable {config : WeaveConfig} {state after outcome : Verification} {typeName name : String}

/-- A name that is verified is noted, and the method that it finds gets its depth. -/
theorem method_strict (strict : config.verifyStack = true) (verified : method config typeName state name = .ok after) :
    after = state ∧ (state.module.typeIndex? typeName = none ∨ name ∈ state.seen) ∨
      after.seen = name :: state.seen ∧
        (state.module.place? typeName name = none ∧ after.module = state.module ∨
          ∃ place index method depth, state.module.place? typeName name = some (place, index) ∧
            state.module.methodAt? place index = some method ∧ method.maxDepth = .ok depth ∧
            after.module = state.module.resize place index depth) := by
  have step := method_step config typeName state name
  rw [verified] at step
  cases step with
  | absent nowhere => exact .inl ⟨rfl, .inl (Module.typeIndex?_of_none nowhere)⟩
  | known _ noted => exact .inl ⟨rfl, .inr noted⟩
  | missing found named =>
      obtain ⟨place, there, held, -⟩ := Module.place_of_type? found
      exact .inr ⟨rfl, .inl ⟨by rw [Module.place?_of_held there held, named]; rfl, rfl⟩⟩
  | sized found named own depth =>
      obtain ⟨place, there, held, same⟩ := Module.place_of_type? found
      refine .inr ⟨rfl, .inr ⟨place, _, _, _, ?_, (Module.methodAt?_of_held held).trans own, depth, same _⟩⟩
      rw [Module.place?_of_held there held, named]
      rfl
  | unknown _ _ _ _ lax => cases strict.symm.trans lax

/-- The method in a place is settled once its name has been noted. -/
structure Watches (module : Module) (place index : Nat) (name : String) (state : Verification) : Prop where
  outline : state.module.outline = module.outline
  settled : name ∈ state.seen → ∀ method, state.module.methodAt? place index = some method → method.Settled

theorem Watches.method {module : Module} {place index : Nat} {typeName' name' : String} (strict : config.verifyStack = true)
    (found : module.place? typeName name = some (place, index)) (own : name' = name → typeName' = typeName)
    (watches : Watches module place index name state) (verified : method config typeName' state name' = .ok after) :
    Watches module place index name after := by
  refine ⟨(method_outline verified).trans watches.outline, fun noted other there => ?_⟩
  rcases method_strict strict verified with ⟨rfl, -⟩ | ⟨seen, outcome⟩
  · exact watches.settled noted other there
  · -- Names are noted without the type they were touched on: `own` makes the noted one this method's.
    have before : name = name' → state.module.place? typeName' name' = some (place, index) := by
      rintro rfl
      rw [own rfl, Module.place?_of_outline watches.outline, found]
    rw [seen] at noted
    rcases outcome with ⟨nowhere, same⟩ | ⟨place', index', method, depth, here, held, verifies, same⟩
    · rw [same] at there
      rcases List.mem_cons.mp noted with now | earlier
      · cases nowhere.symm.trans (before now)
      · exact watches.settled earlier other there
    · rw [same, Module.methodAt?_resize] at there
      split at there
      · rename_i both
        obtain ⟨rfl, rfl⟩ := both
        obtain ⟨old, was, rfl⟩ := Option.map_eq_some_iff.mp there
        cases held.symm.trans was
        exact MethodDef.settled_withMaxStack verifies
      · rename_i apart
        rcases List.mem_cons.mp noted with now | earlier
        · cases here.symm.trans (before now)
          exact absurd ⟨rfl, rfl⟩ apart
        · exact watches.settled earlier other there

theorem Watches.mixin {module : Module} {place index : Nat} {applied : AppliedMixin} (strict : config.verifyStack = true)
    (found : module.place? typeName name = some (place, index))
    (own : name ∈ applied.touched → applied.targetType = typeName)
    (watches : Watches module place index name state) (verified : mixin config state applied = .ok after) :
    Watches module place index name after :=
  foldlM_ok (motive := Watches module place index name)
    (fun _ member _ _ watches verified => watches.method strict found
      (fun same => own (same ▸ member)) verified) watches verified

theorem method_remembers (strict : config.verifyStack = true) (verified : method config typeName state name = .ok after)
    {noted : String} (before : noted ∈ state.seen) : noted ∈ after.seen := by
  rcases method_strict strict verified with ⟨rfl, -⟩ | ⟨seen, -⟩
  · exact before
  · exact seen ▸ List.mem_cons_of_mem _ before

theorem mixin_remembers (strict : config.verifyStack = true) {applied : AppliedMixin}
    (verified : mixin config state applied = .ok after) {noted : String} (before : noted ∈ state.seen) :
    noted ∈ after.seen :=
  foldlM_ok (motive := (noted ∈ ·.seen))
    (fun _ _ _ _ before verified => method_remembers strict verified before) before verified

theorem method_notes (strict : config.verifyStack = true) (typed : state.module.typeIndex? typeName ≠ none)
    (verified : method config typeName state name = .ok after) : name ∈ after.seen := by
  rcases method_strict strict verified with ⟨rfl, nowhere | there⟩ | ⟨seen, -⟩
  · exact absurd nowhere typed
  · exact there
  · exact seen ▸ List.mem_cons_self

theorem mixin_notes (strict : config.verifyStack = true) {applied : AppliedMixin}
    (typed : state.module.typeIndex? applied.targetType ≠ none) (touched : name ∈ applied.touched)
    (verified : mixin config state applied = .ok after) : name ∈ after.seen := by
  refine foldlM_visits (motive := fun now => now.module.outline = state.module.outline) ?_ rfl (name ∈ ·.seen) touched ?_ ?_
    verified
  -- Verification leaves the outline as it is, so the type stays where it was.
  · exact fun _ _ _ _ same verified => (method_outline verified).trans same
  · intro before after same verified
    refine method_notes strict ?_ verified
    rwa [Module.typeIndex?_of_outline same]
  · exact fun _ _ _ _ _ before verified => method_remembers strict verified before

/-- A method whose name is touched on its type, and on no other, is settled. -/
theorem run_settles (strict : config.verifyStack = true) {module : Module} {applied : List AppliedMixin}
    (ran : run config module applied = .ok outcome) {place index : Nat}
    (found : module.place? typeName name = some (place, index)) {one : AppliedMixin} (member : one ∈ applied)
    (targetType : one.targetType = typeName) (touched : name ∈ one.touched)
    (own : ∀ mixin ∈ applied, name ∈ mixin.touched → mixin.targetType = typeName) {method : MethodDef}
    (held : outcome.module.methodAt? place index = some method) : method.Settled := by
  have keeps (mixin : AppliedMixin) (within : mixin ∈ applied) (before after : Verification)
      (watches : Watches module place index name before) (verified : Verification.mixin config before mixin = .ok after) :
      Watches module place index name after := watches.mixin strict found (own mixin within) verified
  have begins : Watches module place index name ⟨module, [], 0, []⟩ := ⟨rfl, nofun⟩
  have watches : Watches module place index name outcome :=
    foldlM_ok (motive := Watches module place index name) keeps begins ran
  have noted : name ∈ outcome.seen := by
    refine foldlM_visits (motive := Watches module place index name) keeps begins (name ∈ ·.seen) member ?_ ?_ ran
    · intro before after watches verified
      refine mixin_notes strict ?_ touched verified
      rw [targetType, Module.typeIndex?_of_outline watches.outline]
      exact Module.typeIndex?_of_place? found
    · exact fun _ _ _ _ _ before verified => mixin_remembers strict verified before
  exact watches.settled noted method held

end Verification

/-- A method that is new or has other code than before is verified, and its depth written down, if it is the first
of its full name on its type and no type of another name has a method of that full name. -/
theorem Weaver.changed_settled {weaver after : Weaver} {report : WeaveReport} (accepted : weaver.apply = (.ok report, after))
    (strict : weaver.config.verifyStack = true) {place index : Nat} {type : TypeDef} {method : MethodDef}
    (held : after.target.types[place]? = some type) (listed : type.methods[index]? = some method)
    (changed : weaver.target.code? place index ≠ some method.code)
    (first : type.methodIndex? (method.fullNameIn type.fullName) = some index)
    (own : ∀ other ∈ after.target.types, method.fullNameIn type.fullName ∈ other.memberNames →
      other.fullName = type.fullName) :
    ∃ body depth, method.body = some body ∧ method.maxDepth = .ok depth ∧ body.maxStack = depth := by
  obtain ⟨mixins, applied, woven, known, outcome, read, ran, verified, same⟩ := apply_woven accepted
  have accounted := applyAll_accounted ran
  -- What is touched is known of `woven`; names and places are the same after verification.
  have outline : after.target.outline = woven.outline := same ▸ Verification.run_outline verified
  obtain ⟨twin, there, alike⟩ := Module.type_of_outline outline held
  obtain ⟨old, listed', name, code⟩ := TypeDef.method_of_outline alike listed
  have fullName : twin.fullName = type.fullName := congrArg TypeOutline.fullName alike
  obtain ⟨place', mixin, member, targetType, touched⟩ :=
    accounted.changed place index twin old there listed' (code ▸ changed)
  rw [name] at touched
  have named : after.target.typeIndex? type.fullName = some place := by
    rw [Module.typeIndex?_of_outline outline, ← fullName, place']
  have found : woven.place? type.fullName (method.fullNameIn type.fullName) = some (place, index) := by
    rw [← Module.place?_of_outline outline, Module.place?_of_held named held, first]
    rfl
  have apart : ∀ other ∈ woven.types, method.fullNameIn type.fullName ∈ other.memberNames →
    other.fullName = type.fullName := by
    have both := Module.forall_types_of_outline outline fun other =>
      method.fullNameIn type.fullName ∈ other.methods.map Prod.fst → other.fullName = type.fullName
    simp only [TypeDef.outline_memberNames] at both
    exact both.mp own
  refine Verification.run_settles strict verified found member (targetType.trans fullName) touched ?_ ?_
  · intro other among touched
    obtain ⟨type', listed, named, has⟩ := accounted.found other among _ touched
    exact named ▸ apart type' listed has
  · rw [← same, Module.methodAt?_of_held held]
    exact listed

namespace Lookalike

def named (scope : String) : ParamDef := ⟨"value", .classType ⟨some scope, "X", "Y"⟩, []⟩

/-- A method that takes a type of one assembly. -/
def present : MethodDef := { Deeper.reset with name := "Use", flags := ⟨0⟩, params := [named "First"] }

/-- A method of an interface that takes the type of another assembly that has the same name. -/
def expected : MethodDef := { present with params := [named "Second"], body := none }

def interface : TypeDef := { TypeDef.empty "" "I" ⟨TypeFlags.isInterface⟩ none with methods := [expected] }

/-- A mixin that adds the interface's method, with this body. -/
def mixinType (body : Body) : TypeDef :=
  { TypeDef.empty "" "M" ⟨0⟩ none with
    methods := [{ expected with body := some body }]
    attributes := [Deeper.marked .mixin [.type "T"], Deeper.marked .implements [.type "I"]] }

/-- The mixin, and a target type with these methods. -/
def weaver (methods : List MethodDef) (body : Body) : Weaver :=
  .new .standard ⟨"Game", [], [{ TypeDef.empty "" "T" ⟨0⟩ none with methods }]⟩
    ⟨"Mods", [], [interface, mixinType body]⟩ ⟨[]⟩

def report : WeaveReport := (weaver [] Deeper.nothing).apply.1.toOption.getD default

def woven : Weaver := (weaver [] Deeper.nothing).apply.2

def type : TypeDef := (woven.target.types[0]?).getD default

def method : MethodDef := (type.methods[0]?).getD default

theorem some_getD {α : Type} {found : Option α} (fallback : α) (some : found.isSome = true) :
    found = .some (found.getD fallback) := by
  cases found with
  | none => cases some
  | some value => rfl

/-- On a type without methods, the one that is added is settled. -/
theorem changed_settled_alone : (weaver [] Deeper.nothing).apply = (.ok report, woven) ∧
    (weaver [] Deeper.nothing).config.verifyStack = true ∧ woven.target.types[0]? = some type ∧
    type.methods[0]? = some method ∧ (weaver [] Deeper.nothing).target.code? 0 0 ≠ some method.code ∧
    type.methodIndex? (method.fullNameIn type.fullName) = some 0 ∧
    (∀ other ∈ woven.target.types, method.fullNameIn type.fullName ∈ other.memberNames →
      other.fullName = type.fullName) ∧
    ∃ body depth, method.body = some body ∧ method.maxDepth = .ok depth ∧ body.maxStack = depth := by
  have accepted : (weaver [] Deeper.nothing).apply = (.ok report, woven) :=
    Prod.ext (ok_of_isOk default (by decide +kernel)) rfl
  have held : woven.target.types[0]? = some type := some_getD _ (by decide +kernel)
  have listed : type.methods[0]? = some method := some_getD _ (by decide +kernel)
  have changed : (weaver [] Deeper.nothing).target.code? 0 0 ≠ some method.code := nofun
  have first : type.methodIndex? (method.fullNameIn type.fullName) = some 0 := by decide +kernel
  have own : ∀ other ∈ woven.target.types, method.fullNameIn type.fullName ∈ other.memberNames →
      other.fullName = type.fullName := by decide +kernel
  exact ⟨accepted, rfl, held, listed, changed, first, own,
    Weaver.changed_settled accepted rfl held listed changed first own⟩

/-- Takes a value from an empty stack. -/
def underflow : Body := ⟨8, true, #[], #[⟨0, .pop, .none⟩, ⟨1, .ret, .none⟩], 0⟩

/-- The method that is added has the full name of one before it, which is verified in its stead. -/
theorem added_unsettled : (weaver [present] underflow).config.verifyStack = true ∧
    (∀ type ∈ (weaver [present] underflow).target.types, type.memberNames.Nodup) ∧
    (weaver [present] underflow).apply.1.isOk = true ∧ (weaver [present] underflow).target.code? 0 1 = none ∧
    ((weaver [present] underflow).apply.2.target.methodAt? 0 1).map (fun method => method.maxDepth.isOk) = some false :=
  ⟨rfl, by decide +kernel, by decide +kernel, rfl, by decide +kernel⟩

end Lookalike

end CilWeave
