import CilWeave.Proofs.Mixin.ConsistentMethods

/-!
Mixins woven together. Two mixins that only inject callbacks, and can each be woven alone, can be woven one
after the other, unless the later one no longer finds in a body what it found there, or a callback is cancelled
where the stack does not allow it.
-/

namespace CilWeave

open Stateful

/-- A body that names no locals but those that it declares. -/
def Body.Declares (body : Body) : Prop :=
  ∀ instruction ∈ body.instructions.toList, ∀ index, instruction.local? = some index → index.toNat < body.locals.size

/-- Depths that are consistent with more locals are so with those that the body declares. -/
theorem MethodDef.ConsistentWith.declared {method : MethodDef} {locals : Array TypeSig}
    (consistent : method.ConsistentWith locals)
    (sane : method.Sane) (declares : ∀ body, method.body = some body → body.Declares) : method.Consistent := by
  obtain ⟨body, defined, consistent⟩ := consistent
  have distinct := (sane.coherent body defined).distinct
  have own : StackContext.Assigns ⟨body, method.argumentCount, !method.returns.isVoid⟩ _ :=
    (consistent.assigns distinct).carry rfl rfl rfl fun instruction member index named _ =>
      declares body defined instruction member index named
  exact ⟨body, defined, own.consistent consistent.nonempty⟩

/-- A type that is worked on still has the methods of a type, and where the one in a place has consistent depths with some
locals, so had that type's. -/
structure PatchState.TracesTo (type : TypeDef) (place : Nat) (state : PatchState) : Prop where
  keeps : type.Keeps state.type
  back : ∀ method locals, state.type.methods[place]? = some method → method.ConsistentWith locals →
    ∃ old, type.methods[place]? = some old ∧ old.ConsistentWith locals

namespace MixinEngine

variable {engine : MixinEngine} {context : MixinContext} {target woven : Module} {mixin : MixinDescriptor}
  {assemblies known : Assemblies} {applied : AppliedMixin} {state after : PatchState} {descriptor : InjectDescriptor}

/-- What an accepted mixin was applied to, and what became of it. -/
theorem apply_final (accepted : engine.apply target mixin assemblies = (.ok (applied, woven), known)) :
    ∃ (index : Nat) (type mixinDef : TypeDef) (mapped : PatchState) (context : MixinContext) (final : PatchState),
      engine.subjects target mixin = .ok (index, type, mixinDef) ∧
      engine.begin target mixin type mixinDef = .ok (mapped, context) ∧
      engine.applyOps context target mixin.ops assemblies { mapped with seen := [] } = (.ok final, known) ∧
      final.applied = applied ∧ target.type? mixin.target.fullName = some type ∧ mapped.type.methods = type.methods ∧
      type.Keeps mapped.type ∧ woven.type? applied.targetType = some final.type := by
  have targetType := (apply_rests accepted).1
  obtain ⟨index, type, mixinDef, mapped, context, final, subjects, begun, ran, rfl, rfl⟩ := apply_ok accepted
  obtain ⟨named, held, -⟩ := subjects_ok subjects
  obtain ⟨fields, -, fieldsMapped⟩ := begin_mapped begun
  have keeps := begin_keeps begun
  have worked := applyOps_keeps ran
  have called : final.type.fullName = mixin.target.fullName :=
    (TypeDef.Keeps.trans _ _ _ keeps worked).fullName.trans (subjects_fullName subjects)
  refine ⟨index, type, mixinDef, mapped, context, final, subjects, begun, ran, rfl, Module.type?_of_held named held,
    (MixinContext.mapFields_methods fieldsMapped).1, keeps, ?_⟩
  rw [Module.type?, finish_types, targetType]
  exact find?_set named (by rw [called, beq_self_eq_true])

/-- Injections into methods that a type has leave what is behind these as it is. -/
theorem applyOps_stay {type : TypeDef} {ops : List MixinOp}
    (injects : ∀ op ∈ ops, ∃ descriptor, op = .inject descriptor ∧
      (type.methodIndex? descriptor.targetMethod).isSome = true)
    (ran : engine.applyOps context target ops assemblies state = (.ok after, known)) (keeps : type.Keeps state.type)
    {place : Nat} (behind : type.methods.length ≤ place) {method : MethodDef}
    (held : state.type.methods[place]? = some method) :
    after.type.methods[place]? = some method ∧ state.applied.touched ⊆ after.applied.touched := by
  refine (applyOps_preserves (motive := fun later => type.Keeps later.type ∧
    later.type.methods[place]? = some method ∧ state.applied.touched ⊆ later.applied.touched) ?_
    ⟨keeps, held, List.Subset.refl _⟩ ran).2
  intro earlier op rest state after between known split before one ⟨keeps, held, touched⟩
  obtain ⟨added, advances⟩ := applyOp_advances one
  obtain ⟨injection, rfl, rfl, rfl, rfl, inside⟩ :=
    applyOp_injects (injects op (split ▸ List.mem_append_right earlier List.mem_cons_self)) one keeps
  exact ⟨.trans _ _ _ keeps injection.keeps, injection.methods_stay (Nat.ne_of_lt (Nat.lt_of_lt_of_le inside behind)) held,
    fun name member => advances.touched name (touched member)⟩

section

variable (only : ∀ type, target.type? mixin.target.fullName = some type → mixin.OnlyInjects type)
  (accepted : engine.apply target mixin assemblies = (.ok (applied, woven), known))

include only accepted

/-- What a mixin that only injects put behind the methods of its type is there in the end, and touched. -/
theorem apply_callback (listed : .inject descriptor ∈ mixin.ops) : ∃ (injection : Injection) (final : TypeDef),
    engine.Injects target mixin assemblies injection ∧ injection.descriptor = descriptor ∧
      woven.type? applied.targetType = some final ∧ injection.after.type.Keeps final ∧
      final.methods[injection.before.type.methods.length]? = some injection.callback ∧
      injection.callback.fullNameIn injection.before.type.fullName ∈ applied.touched ∧
      descriptor.targetMethod ∈ applied.touched := by
  obtain ⟨index, type, mixinDef, mapped, context, final, subjects, begun, ran, rfl, found, -, keeps, there⟩ :=
    apply_final accepted
  have injects := (only type found).ops
  obtain ⟨earlier, later, split⟩ := List.append_of_mem listed
  rw [split] at ran
  obtain ⟨before, between, first, others⟩ := applyOps_append ran
  obtain ⟨after, next, one, rest⟩ := applyOps_cons others
  have worked := applyOps_keeps first
  have grown : type.Keeps before.type := .trans _ _ _ keeps worked
  obtain ⟨injection, own, rfl, rfl, rfl, inside⟩ :=
    applyOp_injects (injects _ (split ▸ List.mem_append_right earlier List.mem_cons_self)) one grown
  cases own
  obtain ⟨-, touches⟩ := injection.touches
  obtain ⟨stays, touched⟩ := applyOps_stay
    (fun op member => injects op (split ▸ List.mem_append_right earlier (List.mem_cons_of_mem _ member))) rest
    (.trans _ _ _ grown injection.keeps) (Persist.length_le grown.methods) injection.after_methods.1
  refine ⟨injection, final.type, ⟨index, type, mixinDef, mapped, between, earlier, later, subjects,
    begun, split, first⟩, rfl, there,
    applyOps_keeps rest, stays, touched ?_, touched ?_⟩
  all_goals
    rw [touches]
    exact List.mem_append_right _ (by simp)

end

/-- Going back through an injection, the method in a place has consistent depths with the locals that it has in the end. -/
theorem Proper.tracesTo_inject (proper : engine.Proper mixin)
    (spare : ∀ injection, engine.Injects target mixin assemblies injection → injection.woven.Spare)
    (sane : target.EachMethod MethodDef.Sane) {injection : Injection}
    (injects : engine.Injects target mixin assemblies injection) {type : TypeDef} {place : Nat}
    (inside : place < type.methods.length) (traces : injection.before.TracesTo type place) :
    injection.after.TracesTo type place := by
  refine ⟨.trans _ _ _ traces.keeps injection.keeps, fun method locals held consistent => ?_⟩
  obtain ⟨old, there, consistent⟩ := injection.consistent_back
    (proper.sane_before spare sane injects _ (List.mem_of_getElem? injection.held)) (spare injection injects)
    (Nat.lt_of_lt_of_le inside (Persist.length_le traces.keeps.methods)) held consistent
  exact traces.back old locals there consistent

variable (proper : engine.Proper mixin)
  (spare : ∀ injection, engine.Injects target mixin assemblies injection → injection.woven.Spare)
  (sane : target.EachMethod MethodDef.Sane)
  (only : ∀ type, target.type? mixin.target.fullName = some type → mixin.OnlyInjects type)
  (accepted : engine.apply target mixin assemblies = (.ok (applied, woven), known)) {config : WeaveConfig}
  (strict : config.verifyStack = true) {outcome : Verification}
  (verified : Verification.run config woven [applied] = .ok outcome)
  (listed : .inject descriptor ∈ mixin.ops)

include proper spare sane only accepted strict verified listed

/-- A mixin that was verified alone has callbacks with consistent depths. -/
theorem Proper.patch_consistent : ∃ mixinDef patch, engine.mixinModule.type? mixin.mixinType = some mixinDef ∧
    mixinDef.methods[descriptor.methodIndex]? = some patch ∧ patch.Consistent := by
  obtain ⟨injection, final, injects, rfl, there, keeps, stays, touched, -⟩ := apply_callback only accepted listed
  have named := keeps.matches.methodIndex? (fun _ _ kept => kept.1)
    (injection.callback_index fun method member => (proper.sane_after spare sane injects method member).toPlain)
    (List.getElem?_eq_some_iff.mp injection.after_methods.1).1
  have consistent : injection.callback.Consistent := Verification.run_consistent strict verified touched there named stays
  obtain ⟨_, _, mixinDef, _, _, _, _, subjects, begun, -⟩ := injects
  obtain ⟨-, -, -, defined, -⟩ := begin_ok begun
  exact ⟨mixinDef, injection.patch, (subjects_ok subjects).2.2, defined ▸ injection.patched,
    injection.callback_consistent.mp consistent⟩

/-- A mixin that was verified alone injects into methods that had consistent depths. -/
theorem Proper.target_consistent (declares : target.EachMethod fun method => ∀ body, method.body = some body →
      body.Declares) :
    target.Verifies mixin.target.fullName descriptor.targetMethod := by
  obtain ⟨-, final', -, -, there', -, -, -, touched⟩ := apply_callback only accepted listed
  obtain ⟨index, type, mixinDef, mapped, context, final, subjects, begun, ran, rfl, found, methods, keeps, there⟩ :=
    apply_final accepted
  obtain ⟨_, same, own⟩ := (only type found).ops _ listed
  cases same
  obtain ⟨place, named⟩ := Option.isSome_iff_exists.mp own
  have inside : place < type.methods.length := (List.findIdx?_eq_some_iff_getElem.mp named).1
  have begins : PatchState.TracesTo type place { mapped with seen := [] } :=
    ⟨keeps, fun method locals held consistent => ⟨method, methods ▸ held, consistent⟩⟩
  have traces : final.TracesTo type place := by
    refine applyOps_preserves ?_ begins ran
    intro earlier op later state after between known split before one traces
    obtain ⟨injection, rfl, rfl, rfl, rfl, -⟩ :=
      applyOp_injects ((only type found).ops op (split ▸ List.mem_append_right earlier List.mem_cons_self)) one traces.keeps
    exact proper.tracesTo_inject spare sane
      ⟨index, type, mixinDef, mapped, between, earlier, later, subjects, begun, split, before⟩ inside traces
  obtain ⟨last, held, -⟩ := traces.keeps.methods place _ (List.getElem?_eq_getElem inside)
  obtain ⟨body, defined, consistent⟩ := Verification.run_consistent strict verified touched there
    (traces.keeps.matches.methodIndex? (fun _ _ kept => kept.1) named inside) held
  obtain ⟨old, first, consistent⟩ := traces.back last body.locals held ⟨body, defined, consistent⟩
  have member : type ∈ target.types := List.mem_of_find?_eq_some found
  have listed := List.mem_of_getElem? first
  exact ⟨type, found, old, TypeDef.method?_of_index named first,
    consistent.declared (sane type member old listed) (declares type member old listed)⟩

end MixinEngine

namespace Weaver

variable {weaver alone : Weaver} {mixins later : List MixinDescriptor} {mixin one two : MixinDescriptor}

/-- A weave of modules whose types are plainly named, whose methods hold together, and whose target's bodies declare their
locals. -/
structure WellFormed (weaver : Weaver) (mixins : List MixinDescriptor) : Prop where
  names : ∀ mixin ∈ mixins, (TypeRef.ofFullName none mixin.target.fullName).Plain
  distinct : (weaver.mixins.types.map TypeDef.fullName).Nodup
  target : weaver.target.EachMethod MethodDef.Sane
  declares : weaver.target.EachMethod fun method => ∀ body, method.body = some body → body.Declares
  patches : weaver.mixins.EachMethod MethodDef.Sane

namespace WellFormed

variable (formed : weaver.WellFormed mixins)

include formed

theorem proper {engine : MixinEngine} {some : List MixinDescriptor} (among : some ⊆ mixins)
    (types : engine.types = targets some)
    (same : engine.mixinModule.type? mixin.mixinType = weaver.mixins.type? mixin.mixinType)
    (injects : ∀ op ∈ mixin.ops, ∃ descriptor, op = .inject descriptor) : engine.Proper mixin where
  injects := injects
  targets name target found := by
    rw [types] at found
    obtain ⟨other, member, same⟩ := List.mem_map.mp (Table.mem_of_get?_ofList found)
    cases same
    exact formed.names other (among member)
  patches mixinDef found :=
    formed.patches mixinDef (List.mem_of_find?_eq_some (same ▸ found))

/-- What is injected into a method that holds together is as its depths need it. -/
theorem sized (read : weaver.descriptors = .ok mixins) {injection : Injection} (injects : weaver.Injects mixins injection)
    (sane : injection.target.Sane) : injection.Sized := by
  have works := injects.works
  obtain ⟨-, -, owner, roles⟩ := injects.roles read formed.distinct
  have patch := formed.patches _ works.mixinDef injection.patch (List.mem_of_getElem? injection.patched)
  exact ⟨works.plainTargets formed.names, sane.params, patch.params, WeaveConfig.roles_stated roles patch.params,
    fun kind type held value => injection.carrier_typed roles held value⟩

/-- A mixin that can be woven alone, with depths that have to be known, injects callbacks with consistent depths into methods
that have them. -/
theorem solo_consistent (solo : weaver.Solo alone mixin) (member : mixin ∈ mixins) (strict : weaver.config.verifyStack = true)
    (only : ∀ type, weaver.target.type? mixin.target.fullName = some type → mixin.OnlyInjects type)
    (accepted : alone.apply.1.isOk = true) (within : ¬alone.Exhausts [mixin]) {descriptor : InjectDescriptor}
    (listed : .inject descriptor ∈ mixin.ops) :
    weaver.target.Verifies mixin.target.fullName descriptor.targetMethod ∧
      ∃ mixinDef patch, weaver.mixins.type? mixin.mixinType = some mixinDef ∧
        mixinDef.methods[descriptor.methodIndex]? = some patch ∧ patch.Consistent := by
  obtain ⟨applied, woven, known, outcome, ran, verified⟩ := solo.applied accepted
  obtain ⟨_, type, _, _, _, _, -, -, -, -, found, -⟩ := MixinEngine.apply_final ran
  have proper : (alone.engine [mixin]).Proper mixin :=
    formed.proper (List.cons_subset.mpr ⟨member, List.nil_subset _⟩) rfl solo.type
    fun op listed => ((only type found).ops op listed).imp fun _ own => own.1
  have spare (injection : Injection) (injects : (alone.engine [mixin]).Injects weaver.target mixin alone.assemblies injection) :
      injection.woven.Spare := (solo.injects injects).spare within
  refine ⟨proper.target_consistent spare formed.target only ran strict verified listed formed.declares, ?_⟩
  obtain ⟨mixinDef, patch, defined, held, consistent⟩ :=
    proper.patch_consistent spare formed.target only ran strict verified listed
  exact ⟨mixinDef, patch, solo.type.symm.trans defined, held, consistent⟩

/-- A mixin that can be woven alone keeps depths consistent among others, and gives them to what it touches, if
its callbacks are cancelled where the stack allows it. -/
theorem verifies (earlier : List MixinDescriptor) (read : weaver.descriptors = .ok mixins)
    (split : mixins = earlier ++ mixin :: later) {marks : List AppliedMixin} {middle woven : Module}
    {between known : Assemblies} {applied : AppliedMixin}
    (reached : applyAll (weaver.engine mixins) earlier weaver.target weaver.assemblies = (.ok (marks, middle), between))
    (done : (weaver.engine mixins).apply middle mixin between = (.ok (applied, woven), known))
    (lands : ∀ injection, weaver.Injects mixins injection → injection.descriptor.cancellable = true → injection.Lands)
    (within : ¬weaver.Exhausts mixins) (sane : middle.EachMethod MethodDef.Sane)
    (kept : ∀ typeName name, weaver.target.Verifies typeName name → middle.Verifies typeName name)
    (solo : weaver.Solo alone mixin) (strict : weaver.config.verifyStack = true)
    (only : ∀ type, weaver.target.type? mixin.target.fullName = some type → mixin.OnlyInjects type)
    (accepted : alone.apply.1.isOk = true) (alone_within : ¬alone.Exhausts [mixin]) :
    woven.EachMethod MethodDef.Sane ∧
      (∀ typeName name, middle.Verifies typeName name → woven.Verifies typeName name) ∧
      ∀ name ∈ applied.touched, woven.Verifies applied.targetType name := by
  have member : mixin ∈ mixins := split ▸ List.mem_append_right earlier List.mem_cons_self
  obtain ⟨_, _, _, outcome, ran, -⟩ := solo.applied accepted
  obtain ⟨_, type, _, _, _, _, -, -, -, -, found, -⟩ := MixinEngine.apply_final ran
  have proper : (weaver.engine mixins).Proper mixin := formed.proper (List.Subset.refl _) rfl rfl
    fun op listed => ((only type found).ops op listed).imp fun _ own => own.1
  have among {injection : Injection} (injects : (weaver.engine mixins).Injects middle mixin between injection) :
      weaver.Injects mixins injection := ⟨earlier, mixin, later, marks, middle, between, split, reached, injects⟩
  have spare (injection : Injection) (injects : (weaver.engine mixins).Injects middle mixin between injection) :
      injection.woven.Spare := (among injects).spare within
  refine ⟨MixinEngine.apply_preserves (proper.step spare) sane done, proper.verifies spare sane (fun injection injects => ?_)
    (fun descriptor listed => ?_) (fun injection injects => ?_) done⟩
  · have held := proper.sane_before spare sane injects injection.target (List.mem_of_getElem? injection.held)
    refine injection.secures_target (formed.sized read (among injects) held) ?_ held (spare injection injects)
    cases cancel : injection.descriptor.cancellable with
    | true => exact lands injection (among injects) cancel
    | false =>
        intro carries
        have none : injection.slot.isSome = true := carries
        rw [injection.no_slot cancel] at none
        cases none
  · exact kept _ _ (formed.solo_consistent solo member strict only accepted alone_within listed).1
  · obtain ⟨_, _, definition, _, _, done, rest, subjects, begun, ops, -⟩ := injects
    obtain ⟨-, mixinDef, patch, defined, there, consistent⟩ :=
      formed.solo_consistent solo member strict only accepted alone_within
        (ops ▸ List.mem_append_right done List.mem_cons_self)
    obtain ⟨-, -, -, same, -⟩ := MixinEngine.begin_ok begun
    cases (MixinEngine.subjects_ok subjects).2.2.symm.trans defined
    have patched := injection.patched
    rw [same, there] at patched
    cases patched
    exact injection.callback_consistent.mpr consistent

end WellFormed

/-- Two mixins that only inject callbacks into methods that their targets have, and can each be woven alone, can be woven
together, unless the later one is refused for what bodies hold then, or the depth of a stack is too great or not known where a
callback is cancelled, or identities run out. -/
theorem compose {other : Weaver} (read : weaver.descriptors = .ok [one, two]) (first : weaver.Solo alone one)
    (second : weaver.Solo other two)
    (injects : ∀ mixin ∈ [one, two], ∀ type, weaver.target.type? mixin.target.fullName = some type →
      mixin.OnlyInjects type)
    (ignores : weaver.Ignores one two.mixinType) (ignored : weaver.Ignores two one.mixinType)
    (accepted : alone.apply.1.isOk = true) (also : other.apply.1.isOk = true) :
    weaver.apply.1.isOk = true ∨ ∃ fault, weaver.apply.1 = .error fault ∧
      (fault.Unfit two.mixinType ∨ ∃ name cause, fault = .invalidStack name cause ∧
        (weaver.WellFormed [one, two] → (∃ depth, cause = .tooDeep depth ∧ 65535 < depth) ∨
          (∃ injection, weaver.Injects [one, two] injection ∧ injection.descriptor.cancellable = true ∧
            ¬injection.Lands) ∨
          weaver.Exhausts [one, two] ∨ alone.Exhausts [one] ∨ other.Exhausts [two])) := by
  rcases Solo.both read first second injects ignores ignored accepted also with
    ⟨earlier, middle, later, woven, done, done'⟩ | ⟨fault, failed, unfit⟩
  · have start : applyAll (weaver.engine [one, two]) [one] weaver.target weaver.assemblies =
        (.ok ([earlier], middle), weaver.assemblies) := by
      simp only [applyAll, done]
    have all : applyAll (weaver.engine [one, two]) [one, two] weaver.target weaver.assemblies =
        (.ok ([earlier, later], woven), weaver.assemblies) := by
      simp only [applyAll, done, done']
    cases checked : Verification.run weaver.config woven [earlier, later] with
    | ok outcome =>
        left
        rw [apply_accepts read all checked]
        rfl
    | error fault =>
        obtain ⟨strict, name, cause, same⟩ := Verification.run_invalid checked
        refine .inr ⟨fault, apply_unverified read all checked, .inr ⟨name, cause, same, fun formed => ?_⟩⟩
        refine Classical.or_iff_not_imp_right.mpr fun others => ?_
        simp only [not_or] at others
        obtain ⟨astray, within, alone_within, other_within⟩ := others
        have lands (injection : Injection) (own : weaver.Injects [one, two] injection)
            (cancel : injection.descriptor.cancellable = true) : injection.Lands :=
          Classical.not_not.mp fun stray => astray ⟨injection, own, cancel, stray⟩
        obtain ⟨sane, kept, touched⟩ := formed.verifies [] read rfl rfl done lands within formed.target
          (fun _ _ verifies => verifies) first strict (injects one List.mem_cons_self) accepted alone_within
        obtain ⟨-, kept', touched'⟩ := formed.verifies [one] read rfl start done' lands within sane kept second strict
          (injects two (List.mem_cons_of_mem _ List.mem_cons_self)) also other_within
        have verifies : ∀ mixin ∈ [earlier, later], ∀ name ∈ mixin.touched, woven.Verifies mixin.targetType name := by
          intro mixin member name listed
          obtain rfl | rfl := List.mem_pair.mp member
          · exact kept' _ _ (touched name listed)
          · exact touched' name listed
        obtain ⟨_, depth, same', deep⟩ := Verification.run_tooDeep verifies checked
        cases same.symm.trans same'
        exact ⟨depth, rfl, deep⟩
  · exact .inr ⟨fault, failed, .inl unfit⟩

end Weaver

namespace Leave

open Deeper (marked)

def carrier : ParamDef := ⟨"info", .classType ⟨some "DotMixin", "DotMixin", Marker.plainCarrier⟩, []⟩

/-- A callback that may leave the method at its start. -/
def guard : MethodDef :=
  ⟨"guard", ⟨MethodFlags.isStatic⟩, .void, [carrier], some Deeper.nothing,
    [marked .inject [.string "System.Void T::Reset()", .string "HEAD", .bool true]]⟩

/-- A callback for the one place where the method returns. -/
def closing : MethodDef :=
  ⟨"closing", ⟨MethodFlags.isStatic⟩, .void, [], some Deeper.nothing,
    [marked .inject [.string "System.Void T::Reset()", .string "RETURN"]]⟩

def guards : TypeDef :=
  { TypeDef.empty "" "M" ⟨0⟩ none with methods := [guard], attributes := [marked .mixin [.type "T"]] }

def closes : TypeDef :=
  { TypeDef.empty "" "N" ⟨0⟩ none with methods := [closing], attributes := [marked .mixin [.type "T"]] }

def one : MixinDescriptor :=
  ⟨"M", .type "T", 0, [], [.inject ⟨0, "guard", "System.Void T::Reset()", .head, true, .return, 1, [.carrier .plain]⟩]⟩

def two : MixinDescriptor :=
  ⟨"N", .type "T", 0, [], [.inject ⟨0, "closing", "System.Void T::Reset()", .return, false, .return, 1, []⟩]⟩

def weaver (mixins : List TypeDef) : Weaver := .new .standard Deeper.target ⟨"Mods", [], mixins⟩ ⟨[]⟩

def both : Weaver := weaver [guards, closes]

theorem read : both.descriptors = .ok [one, two] :=
  Weaver.descriptors_of_sorted (by decide +kernel) (by decide)

theorem solo_one : both.Solo (weaver [guards]) one :=
  ⟨Weaver.descriptors_of_sorted (by decide +kernel) (by decide), rfl, rfl, rfl, rfl⟩

theorem solo_two : both.Solo (weaver [closes]) two :=
  ⟨Weaver.descriptors_of_sorted (by decide +kernel) (by decide), rfl, rfl, rfl, rfl⟩

theorem injects : ∀ mixin ∈ [one, two], ∀ type,
    both.target.type? mixin.target.fullName = some type → mixin.OnlyInjects type := by
  intro mixin member type found
  obtain rfl | rfl := List.mem_pair.mp member <;> cases found
  all_goals
    refine ⟨nofun, fun op listed => ?_⟩
    cases List.mem_singleton.mp listed
    exact ⟨_, rfl, by decide +kernel⟩

theorem ignores : both.Ignores one two.mixinType ∧ both.Ignores two one.mixinType := by
  constructor
  all_goals
    intro mixinDef descriptor patch found listed patched
    cases found
    cases List.mem_singleton.mp listed
    cases patched
    decide +kernel

theorem guards_alone : (weaver [guards]).apply.1.isOk = true := by decide +kernel

theorem closes_alone : (weaver [closes]).apply.1.isOk = true := by decide +kernel

/-- What a weave fails for, if it expects another number of places. -/
def counts : Except WeaveFault (List AppliedMixin × Module) → Option (Nat × Nat × String × String × String)
  | .error (.injectionCount expected found method patch mixin) => some (expected, found, method, patch, mixin)
  | _ => none

def run : Except WeaveFault (List AppliedMixin × Module) × Assemblies :=
  Weaver.applyAll (both.engine [one, two]) [one, two] both.target both.assemblies

/-- The second return is not one that the later mixin expects. -/
theorem miscounted : both.apply.1 = .error (.injectionCount 1 2 "System.Void T::Reset()" "closing" "N") := by
  have refused : counts run.1 = some (1, 2, "System.Void T::Reset()", "closing", "N") := by decide +kernel
  unfold counts at refused
  split at refused
  · rename_i expected found method patch mixin failed
    have stopped : run = (.error (.injectionCount expected found method patch mixin), run.2) := by
      rw [← failed, Prod.eta]
    cases refused
    exact Weaver.apply_refuses read stopped
  · cases refused

/-- Two mixins that only inject and can each be woven alone, but not the one after the other. -/
theorem alone_not_both : both.descriptors = .ok [one, two] ∧ both.Solo (weaver [guards]) one ∧
    both.Solo (weaver [closes]) two ∧
    (∀ mixin ∈ [one, two], ∀ type, both.target.type? mixin.target.fullName = some type → mixin.OnlyInjects type) ∧
    (∀ mixin ∈ [one, two], mixin.fields = []) ∧
    (weaver [guards]).apply.1.isOk = true ∧ (weaver [closes]).apply.1.isOk = true ∧
    ¬both.apply.1.isOk = true := by
  refine ⟨read, solo_one, solo_two, injects, by decide, guards_alone, closes_alone, ?_⟩
  rw [miscounted]
  nofun

theorem compose_guard : both.descriptors = .ok [one, two] ∧ both.apply.1.isOk = false ∧
    ∃ fault, both.apply.1 = .error fault ∧
      (fault.Unfit two.mixinType ∨ ∃ name cause, fault = .invalidStack name cause ∧
        (both.WellFormed [one, two] → (∃ depth, cause = .tooDeep depth ∧ 65535 < depth) ∨
          (∃ injection, both.Injects [one, two] injection ∧ injection.descriptor.cancellable = true ∧
            ¬injection.Lands) ∨
          both.Exhausts [one, two] ∨ (weaver [guards]).Exhausts [one] ∨ (weaver [closes]).Exhausts [two])) := by
  have refused : both.apply.1.isOk = false := by
    rw [miscounted]
    rfl
  have composed := Weaver.compose read solo_one solo_two injects ignores.1 ignores.2 guards_alone closes_alone
  refine ⟨read, refused, composed.resolve_left fun accepted => ?_⟩
  rw [refused] at accepted
  cases accepted

/-- A body that does nothing while a value is on its stack. -/
def held : Body :=
  ⟨8, true, #[.primitive .int32], #[⟨0, .ldcI40, .none⟩, ⟨1, .ldcI40, .none⟩, ⟨2, .pop, .none⟩,
    ⟨3, .nop, .none⟩,
    ⟨4, .stloc0, .none⟩, ⟨5, .ret, .none⟩], 5⟩

/-- A callback that may go back to the first place where nothing is done. -/
def backs : TypeDef :=
  { closes with methods := [{ guard with
      attributes := [marked .inject [.string "System.Void T::Reset()", .string "stloc.0", .bool true, .string "nop"]] }] }

def weaverOf (body : Body) (mixins : List TypeDef) : Weaver :=
  .new .standard { Deeper.target with types := [{ Deeper.type with methods := [{ Deeper.reset with body := some body }] }] }
    ⟨"Mods", [], mixins⟩ ⟨[]⟩

/-- The method whose stack depths are not known when mixins are applied in the order in which they are listed. -/
def unverified (weaver : Weaver) : Option String :=
  let mixins := (weaver.config.mixinDescriptors weaver.mixins).toOption.getD []
  match (Weaver.applyAll (weaver.engine mixins) mixins weaver.target weaver.assemblies).1 with
  | .error _ => none
  | .ok (applied, woven) =>
    match Verification.run weaver.config woven applied with
    | .error (.invalidStack name _) => some name
    | _ => none

-- The first callback brings a place where nothing is done to the start of the method, where the stack is empty.
example : (weaverOf held [guards]).apply.1.isOk = true ∧ (weaverOf held [backs]).apply.1.isOk = true ∧
    unverified (weaverOf held [guards, backs]) = some "System.Void T::Reset()" := by decide +kernel

/-- A loop in front of a return with two identities left above it. -/
def loop : MethodDef :=
  ⟨"Loop", ⟨MethodFlags.isStatic⟩, .void, [Deeper.number "x"],
    some ⟨8, true, #[],
      #[⟨10, .nop, .none⟩, ⟨11, .ldarg0, .none⟩, ⟨12, .brtrueS, .target 10⟩, ⟨4294967293, .ret, .none⟩], 0⟩, []⟩

def watch (place : String) : MethodDef :=
  ⟨"watch", ⟨MethodFlags.isStatic⟩, .void, [Deeper.number "x"], some Deeper.nothing,
    [marked .inject [.string "System.Void T::Loop(System.Int32)", .string place]]⟩

def watches (name place : String) : TypeDef :=
  { TypeDef.empty "" name ⟨0⟩ none with methods := [watch place], attributes := [marked .mixin [.type "T"]] }

def crowded (mixins : List TypeDef) : Weaver :=
  .new .standard { Deeper.target with types := [{ Deeper.type with methods := [loop] }] } ⟨"Mods", [], mixins⟩ ⟨[]⟩

-- There are identities for each callback, but not for both.
example : (crowded [watches "M" "RETURN"]).apply.1.isOk = true ∧ (crowded [watches "N" "HEAD"]).apply.1.isOk = true ∧
    unverified (crowded [watches "M" "RETURN", watches "N" "HEAD"]) = some "System.Void T::Loop(System.Int32)" := by
  decide +kernel

end Leave

end CilWeave
