import CilWeave.Proofs.Mixin.Interfaces
import CilWeave.Proofs.Mixin.MemberNames

/-!
Interfaces as they are recorded. A mixin's interface is looked for under the name that the mixin gives it, and recorded
under the name that this has once it is moved. Both lead to the same definition if a name without a scope is one of the
mixins' module alone; one that the target has as well is looked for in the target and recorded for the mixins' module.
-/

namespace CilWeave

open Stateful

@[simp] theorem TypeRef.scope_withScope (reference : TypeRef) (scope : Option String) :
    (reference.withScope scope).scope = scope := rfl

@[simp] theorem TypeRef.fullName_withScope (reference : TypeRef) (scope : Option String) :
    (reference.withScope scope).fullName = reference.fullName := rfl

namespace Assemblies

variable {assemblies : Assemblies} {disk : Disk} {name : String}

theorem resolve_fst (assemblies : Assemblies) (disk : Disk) (name : String) : (assemblies.resolve disk name).1 =
    match assemblies.modules.get? name with
    | some module => .ok module
    | none =>
      match assemblies.locate? disk name with
      | some path => disk.loadModule path
      | none => .error (.assemblyNotFound name) := by
  unfold resolve
  cases assemblies.modules.get? name with
  | some module => rfl
  | none =>
      cases assemblies.locate? disk name with
      | none => rfl
      | some path =>
          dsimp only
          cases disk.loadModule path <;> rfl

/-- Another module is known only if it has been loaded under its name. -/
theorem resolve_snd (assemblies : Assemblies) (disk : Disk) (name : String) :
    (assemblies.resolve disk name).2 = assemblies ∨ ∃ module, (assemblies.resolve disk name).1 = .ok module ∧
      (assemblies.resolve disk name).2 = { assemblies with modules := assemblies.modules.insert name module } := by
  unfold resolve
  cases assemblies.modules.get? name with
  | some module => exact .inl rfl
  | none =>
      cases assemblies.locate? disk name with
      | none => exact .inl rfl
      | some path =>
          dsimp only
          cases disk.loadModule path with
          | error fault => exact .inl rfl
          | ok module => exact .inr ⟨module, rfl, rfl⟩

/-- Loading a module does not change what names lead to. -/
theorem resolve_resolve (assemblies : Assemblies) (disk : Disk) (name other : String) :
    ((assemblies.resolve disk name).2.resolve disk other).1 = (assemblies.resolve disk other).1 := by
  rcases assemblies.resolve_snd disk name with same | ⟨module, found, loaded⟩
  · rw [same]
  · rw [loaded, resolve_fst]
    by_cases same : name = other
    · subst same
      rw [Table.get?_insert_self, found]
    · rw [Table.get?_insert_of_ne same, resolve_fst]
      rfl

end Assemblies

namespace MixinEngine

variable {engine : MixinEngine} {context : MixinContext} {target woven : Module} {mixin : MixinDescriptor}
  {assemblies known : Assemblies} {state after : PatchState} {applied : AppliedMixin}

theorem resolveInterface_resolve (engine : MixinEngine) (assemblies : Assemblies) (target : Module) (interface : TypeSig)
    (name : String) : ((engine.resolveInterface assemblies target interface).2.resolve engine.disk name).1 =
      (assemblies.resolve engine.disk name).1 := by
  unfold resolveInterface
  split
  · rfl
  · split
    · rfl
    · split
      · rfl
      · rename_i scope _
        have same := assemblies.resolve_resolve engine.disk scope name
        split
        · rename_i resolved
          rwa [resolved] at same
        · rename_i resolved
          rwa [resolved] at same

theorem applyOp_resolve {op : MixinOp} (applied : engine.applyOp context target assemblies state op = (.ok after, known))
    (name : String) : (known.resolve engine.disk name).1 = (assemblies.resolve engine.disk name).1 := by
  cases op with
  | implements interface =>
      obtain rfl : (engine.resolveInterface assemblies target interface).2 = known := congrArg Prod.snd applied
      exact engine.resolveInterface_resolve assemblies target interface name
  | overwrite | inject =>
      obtain rfl : assemblies = known := congrArg Prod.snd applied
      rfl

theorem applyOps_resolve {ops : List MixinOp} (ran : engine.applyOps context target ops assemblies state = (.ok after, known))
    (name : String) : (known.resolve engine.disk name).1 = (assemblies.resolve engine.disk name).1 := by
  induction ops generalizing assemblies state with
  | nil =>
      cases ran
      rfl
  | cons op rest ih =>
      obtain ⟨middle, between, one, ran⟩ := applyOps_cons ran
      exact (ih ran).trans (applyOp_resolve one name)

end MixinEngine

namespace Weaver

variable {weaver later : Weaver} {mixins : List MixinDescriptor} {context : MixinContext} {interface : TypeSig}
  {provider : Provider} {definition : TypeDef} {state after : PatchState} {report : WeaveReport}

theorem applyAll_resolve {engine : MixinEngine} {target woven : Module} {assemblies known : Assemblies}
    {applied : List AppliedMixin}
    (ran : applyAll engine mixins target assemblies = (.ok (applied, woven), known)) (name : String) :
    (known.resolve engine.disk name).1 = (assemblies.resolve engine.disk name).1 := by
  induction mixins generalizing target assemblies applied with
  | nil =>
      cases ran
      rfl
  | cons mixin rest ih =>
      obtain ⟨_, _, _, _, -, accepted, ran⟩ := applyAll_cons ran
      obtain ⟨_, _, _, _, _, _, -, -, first, -⟩ := MixinEngine.apply_ok accepted
      exact (ih ran).trans (MixinEngine.applyOps_resolve first name)

/-- An accepted weave leaves the mixins, and the modules that names lead to, as they were. -/
theorem apply_rest (accepted : weaver.apply = (.ok report, later)) :
    later.mixins = weaver.mixins ∧
      ∀ name, (later.assemblies.resolve later.disk name).1 = (weaver.assemblies.resolve weaver.disk name).1 := by
  obtain ⟨mixins, applied, woven, known, outcome, read, ran, verified, -⟩ := apply_woven accepted
  unfold apply at accepted
  split at accepted
  · cases accepted
  · rename_i woven
    unfold weave at woven
    rw [read] at woven
    dsimp only at woven
    rw [ran] at woven
    dsimp only at woven
    rw [verified] at woven
    obtain ⟨-, rfl⟩ := Prod.mk.inj woven
    obtain ⟨-, rfl⟩ := Prod.mk.inj accepted
    have resolved := applyAll_resolve ran
    exact ⟨rfl, resolved⟩

/-- What a reference in the target names: a type of the target, of the mixins' module or of another one, as its scope says. -/
def denoted? (weaver : Weaver) (reference : TypeRef) : Option (Provider × TypeDef) :=
  if weaver.target.isLocal reference.scope then (weaver.target.type? reference.fullName).map (.target, ·)
  else if weaver.mixins.isLocal reference.scope then (weaver.mixins.type? reference.fullName).map (.mixins, ·)
  else
    reference.scope.bind fun scope =>
      match (weaver.assemblies.resolve weaver.disk scope).1 with
      | .ok module => (module.type? reference.fullName).map (.assembly scope, ·)
      | .error _ => none

/-- A reference in the target names a definition, which a weave may have extended if it is one of the target's. -/
def Denotes (weaver : Weaver) (reference : TypeRef) (provider : Provider) (definition : TypeDef) : Prop :=
  ∃ found, weaver.denoted? reference = some (provider, found) ∧ definition.Extends found ∧
    (provider ≠ .target → found = definition)

/-- An accepted interface of one of the mixins of a weave, whose methods were those of the given definition. -/
def Implements (weaver : Weaver) (mixins : List MixinDescriptor) (context : MixinContext) (interface : TypeSig)
    (provider : Provider) (definition : TypeDef) (state after : PatchState) : Prop :=
  ∃ earlier mixin others applied middle between, mixins = earlier ++ mixin :: others ∧
    applyAll (weaver.engine mixins) earlier weaver.target weaver.assemblies = (.ok (applied, middle), between) ∧
    (weaver.engine mixins).Implements middle mixin between context interface provider definition state after

theorem Implements.works (implemented : weaver.Implements mixins context interface provider definition state after) :
    weaver.Works mixins context (.implements interface) state after := by
  obtain ⟨earlier, mixin, others, applied, middle, between, split, before, one⟩ := implemented
  exact ⟨earlier, mixin, others, applied, middle, between, split, before, one.works⟩

/-- The interface was looked for in a module with types of the same names as at first, of which the woven one has grown,
and names led to the modules that they lead to now. -/
theorem Implements.provided (accepted : weaver.apply = (.ok report, later)) (read : weaver.descriptors = .ok mixins)
    (implemented : weaver.Implements mixins context interface provider definition state after) :
    ∃ middle between, (weaver.engine mixins).provided? between middle interface = some (provider, definition) ∧
      middle.name = weaver.target.name ∧ middle.types.map TypeDef.fullName = weaver.target.types.map TypeDef.fullName ∧
      middle.Extends later.target ∧
      ∀ name, (between.resolve weaver.disk name).1 = (weaver.assemblies.resolve weaver.disk name).1 := by
  obtain ⟨earlier, mixin, others, applied, middle, between, split, before, index, type, mixinDef,
    mapped, first, last, reached,
    loaded, subjects, begun, ops, ran, provided, one⟩ := implemented
  obtain ⟨again, done, woven, known, outcome, reread, whole, verified, same⟩ := apply_woven accepted
  cases Except.ok.inj (read.symm.trans reread)
  obtain ⟨_, _, _, next, _, _, _, once, applies, onwards⟩ := applyAll_split split whole
  cases before.symm.trans once
  refine ⟨middle, reached, provided, (applyAll_extends before).name, applyAll_names before, ?_, fun name => ?_⟩
  · exact (MixinEngine.apply_extends applies).trans
      ((applyAll_extends onwards).trans (same ▸ Verification.run_extends verified))
  · exact (MixinEngine.applyOps_resolve ran name).trans (applyAll_resolve before name)

/-- The name of an interface leads to one definition, before and after it is moved. A name that is scoped to the target is
one of its types; one without a scope or scoped to the mixins' module is one of the types there, which is not a mixin and,
if it has no scope, not one of the target's types as well. -/
structure Settles (weaver : Weaver) (mixins : List MixinDescriptor) (reference : TypeRef) : Prop where
  target : reference.scope = some weaver.target.name → (weaver.target.type? reference.fullName).isSome = true
  own : weaver.mixins.isLocal reference.scope = true → (weaver.mixins.type? reference.fullName).isSome = true
  unmixed : weaver.mixins.isLocal reference.scope = true → (targets mixins).get? reference.fullName = none
  bare : reference.scope = none → weaver.target.type? reference.fullName = none

end Weaver

namespace Module

variable {module other : Module} {reference : TypeRef}

theorem type?_of_names (same : other.types.map TypeDef.fullName = module.types.map TypeDef.fullName) (name : String) :
    (other.type? name).isSome = (module.type? name).isSome := by
  have named (module : Module) : (module.type? name).isSome = (module.types.map TypeDef.fullName).any (· == name) := by
    rw [type?, List.isSome_find?, List.any_map]
    rfl
  rw [named, named, same]

theorem resolveType?_here (here : module.isLocal reference.scope = true) :
    module.resolveType? reference = module.type? reference.fullName := if_pos here

theorem resolveType?_abroad (abroad : module.isLocal reference.scope = false) : module.resolveType? reference = none := by
  rw [resolveType?, abroad]
  rfl

end Module

namespace MixinEngine

variable {engine : MixinEngine} {assemblies : Assemblies} {target : Module} {interface : TypeSig} {reference : TypeRef}
  {type : TypeDef} (named : interface.reference? = some reference)

include named

theorem provided?_target (found : target.resolveType? reference = some type) :
    engine.provided? assemblies target interface = some (.target, type) := by
  simp only [provided?, named, Option.bind_some, found]

variable (elsewhere : target.resolveType? reference = none)

include elsewhere

theorem provided?_mixins (found : engine.mixinModule.resolveType? reference = some type) :
    engine.provided? assemblies target interface = some (.mixins, type) := by
  simp only [provided?, named, Option.bind_some, elsewhere, found]

theorem provided?_assembly (foreign : engine.mixinModule.resolveType? reference = none) {scope : String}
    (outside : reference.scope = some scope) : engine.provided? assemblies target interface =
      (assemblies.resolve engine.disk scope).1.toOption.bind fun module =>
        (module.type? reference.fullName).map (.assembly scope, ·) := by
  simp only [provided?, named, Option.bind_some, elsewhere, foreign, outside]
  cases (assemblies.resolve engine.disk scope).1 <;> rfl

end MixinEngine

namespace Weaver

variable {weaver later : Weaver} {mixins : List MixinDescriptor} {context : MixinContext} {interface : TypeSig}
  {provider : Provider} {definition : TypeDef} {state after : PatchState} {report : WeaveReport} {reference : TypeRef}

namespace Implements

variable (accepted : weaver.apply = (.ok report, later)) (read : weaver.descriptors = .ok mixins)
  (implemented : weaver.Implements mixins context interface provider definition state after)
  (named : interface.reference? = some reference)

include accepted read implemented named

/-- A type of the target is found there, and recorded as one. -/
theorem denotes_target (foreign : weaver.mixins.isLocal reference.scope = false)
    (back : reference.scope = some weaver.target.name)
    (settles : weaver.Settles mixins reference) :
    later.Denotes ((weaver.rehoming mixins).typeRef reference) provider definition := by
  obtain ⟨middle, between, provided, name, names, extended, -⟩ := implemented.provided accepted read
  have here : middle.isLocal reference.scope = true := by
    rw [back, Module.isLocal, name]
    exact beq_self_eq_true _
  obtain ⟨type, there⟩ := Option.isSome_iff_exists.mp
    ((Module.type?_of_names names reference.fullName).trans (settles.target back))
  cases provided.symm.trans (MixinEngine.provided?_target named ((Module.resolveType?_here here).trans there))
  obtain ⟨found, last, more⟩ := extended.type? there
  have moved : (weaver.rehoming mixins).typeRef reference = reference.withScope none := by
    rw [Rehoming.typeRef, show (weaver.rehoming mixins).isMixinLocal reference.scope = false from foreign,
      if_neg Bool.false_ne_true, if_pos (show reference.scope = some (weaver.rehoming mixins).targetModule from back)]
  refine ⟨found, ?_, more, fun other => absurd rfl other⟩
  rw [moved, denoted?, TypeRef.scope_withScope, TypeRef.fullName_withScope,
    if_pos (show later.target.isLocal none = true from rfl),
    last]
  rfl

/-- A type of the mixins' module is found there if the target has none of its name, and recorded as one. -/
theorem denotes_mixins (apart : weaver.mixins.name ≠ weaver.target.name) (own : weaver.mixins.isLocal reference.scope = true)
    (settles : weaver.Settles mixins reference) :
    later.Denotes ((weaver.rehoming mixins).typeRef reference) provider definition := by
  obtain ⟨middle, between, provided, name, names, extended, -⟩ := implemented.provided accepted read
  have elsewhere : middle.resolveType? reference = none := by
    cases bare : reference.scope with
    | none =>
        have absent : (middle.type? reference.fullName).isSome = false := by
          rw [Module.type?_of_names names, settles.bare bare, Option.isSome_none]
        rw [Module.resolveType?, Option.not_isSome_iff_eq_none.mp (ne_true_of_eq_false absent), ite_self]
    | some scope =>
        rw [bare] at own
        refine Module.resolveType?_abroad ?_
        rw [bare, Module.isLocal, name, eq_of_beq own]
        exact beq_eq_false_iff_ne.mpr apart
  obtain ⟨type, there⟩ := Option.isSome_iff_exists.mp (settles.own own)
  cases provided.symm.trans (MixinEngine.provided?_mixins named elsewhere (Module.resolveType?_eq_some.mpr ⟨own, there⟩))
  have moved : (weaver.rehoming mixins).typeRef reference = reference.withScope (some weaver.mixins.name) := by
    rw [Rehoming.typeRef, show (weaver.rehoming mixins).isMixinLocal reference.scope = true from own, if_pos rfl,
      show (weaver.rehoming mixins).types = targets mixins from rfl, settles.unmixed own]
    rfl
  have abroad : later.target.isLocal (some weaver.mixins.name) = false := by
    rw [extended.isLocal, Module.isLocal, name]
    exact beq_eq_false_iff_ne.mpr apart
  refine ⟨definition, ?_, .refl _, fun _ => rfl⟩
  rw [moved, denoted?, (apply_rest accepted).1, TypeRef.scope_withScope, TypeRef.fullName_withScope, abroad,
    if_neg Bool.false_ne_true, if_pos (show weaver.mixins.isLocal (some weaver.mixins.name) =
      true from beq_self_eq_true _), there]
  rfl

/-- A type of another assembly is found in the module that its scope leads to, before and after the weave. -/
theorem denotes_assembly (foreign : weaver.mixins.isLocal reference.scope = false)
    (abroad : weaver.target.isLocal reference.scope = false) :
    later.Denotes ((weaver.rehoming mixins).typeRef reference) provider definition := by
  obtain ⟨middle, between, provided, name, names, extended, resolved⟩ := implemented.provided accepted read
  have away : middle.isLocal reference.scope = false := by rw [← abroad, Module.isLocal, Module.isLocal, name]
  obtain ⟨scope, outside⟩ : ∃ scope, reference.scope = some scope := by
    refine Option.ne_none_iff_exists'.mp fun bare => ?_
    rw [bare] at foreign
    cases foreign
  have found := provided.symm.trans (MixinEngine.provided?_assembly named (Module.resolveType?_abroad away)
    (Module.resolveType?_abroad foreign) outside)
  have moved : (weaver.rehoming mixins).typeRef reference = reference := by
    have other : ¬reference.scope = some (weaver.rehoming mixins).targetModule := by
      rintro same
      rw [same] at abroad
      exact absurd (beq_self_eq_true weaver.target.name) (ne_true_of_eq_false abroad)
    rw [Rehoming.typeRef, show (weaver.rehoming mixins).isMixinLocal reference.scope = false from foreign,
      if_neg Bool.false_ne_true, if_neg other]
  refine ⟨definition, ?_, .refl _, fun _ => rfl⟩
  rw [moved, denoted?, extended.isLocal, away, if_neg Bool.false_ne_true, (apply_rest accepted).1, foreign,
    if_neg Bool.false_ne_true, outside, Option.bind_some, (apply_rest accepted).2, ← resolved, found,
    show (weaver.engine mixins).disk = weaver.disk from rfl]
  cases (between.resolve weaver.disk scope).1 <;> rfl

end Implements

/-- The woven type lists an interface that one of its mixins implements, under a reference that names, as its scope says, the
definition whose methods the mixin was asked for. -/
theorem interface_recorded (accepted : weaver.apply = (.ok report, later)) (read : weaver.descriptors = .ok mixins)
    (implemented : weaver.Implements mixins context interface provider definition state after)
    (apart : weaver.mixins.name ≠ weaver.target.name)
    (settles : ∀ reference ∈ interface.reference?, weaver.Settles mixins reference) :
    ∃ recorded reference host, after.type.interfaces = state.type.interfacesWith recorded ∧
      recorded.reference? = some reference ∧ later.Denotes reference provider definition ∧
      later.target.type? after.type.fullName = some host ∧ after.type.interfaces <+: host.interfaces := by
  have works := implemented.works
  obtain ⟨mixin, listed, home, -⟩ := works.setting
  obtain ⟨again, leads⟩ := leads_of_apply accepted
  cases Except.ok.inj (read.symm.trans leads.read)
  obtain ⟨host, there, extended⟩ := leads.hosts works
  obtain ⟨_, _, provided, -⟩ := implemented.provided accepted read
  obtain ⟨reference, named, -⟩ := Option.bind_eq_some_iff.mp provided
  have denotes : later.Denotes ((weaver.rehoming mixins).typeRef reference) provider definition := by
    cases own : weaver.mixins.isLocal reference.scope with
    | true => exact implemented.denotes_mixins accepted read named apart own (settles _ named)
    | false =>
        cases here : weaver.target.isLocal reference.scope with
        | false => exact implemented.denotes_assembly accepted read named own here
        | true =>
            refine implemented.denotes_target accepted read named own ?_ (settles _ named)
            cases scope : reference.scope with
            | none =>
                rw [scope] at own
                cases own
            | some name =>
                rw [scope] at here
                exact congrArg some (eq_of_beq here)
  obtain ⟨middle, between, known, operated⟩ := works.applyOp
  obtain ⟨_, _, _, -, -, type, -⟩ := MixinContext.applyImplements_ok (congrArg Prod.fst operated)
  refine ⟨context.home.sig interface, _, host, congrArg TypeDef.interfaces type, ?_, denotes, there, extended.interfaces⟩
  rw [Rehoming.sig, TypeSig.reference?_mapRefs, named, typeRef_setting home]
  rfl

end Weaver

namespace Borrowed

def reset : MethodDef := { Deeper.reset with flags := ⟨0⟩ }

def definition : TypeDef :=
  { TypeDef.empty "" "I" ⟨TypeFlags.isInterface⟩ none with methods := [{ reset with body := none }] }

/-- A mixin that implements the interface of this name. -/
def mixinType (interface : String) : TypeDef :=
  { TypeDef.empty "" "M" ⟨0⟩ none with
    methods := [reset]
    attributes := [Deeper.marked .mixin [.type "T"], Deeper.marked .implements [.type interface]] }

/-- The interface is one of a library's. -/
def weaver : Weaver :=
  (Weaver.new .standard Peer.target ⟨"Mods", [], [mixinType "I, Lib"]⟩ ⟨[]⟩).addDependency ⟨"Lib", [], [definition]⟩

def reference : TypeRef := ⟨some "Lib", "", "I"⟩

def interface : TypeSig := .classType reference

def mixin : MixinDescriptor := ⟨"M", .type "T", 0, [], [.implements interface]⟩

def context : MixinContext :=
  ⟨mixin, mixinType "I, Lib", "T", Peer.type.sig, ⟨.standard, "Mods", "Game", "M", Weaver.targets [mixin], .empty⟩⟩

def state : PatchState :=
  ((weaver.engine [mixin]).applyOp context Peer.target weaver.assemblies Peer.before
    (.implements interface)).1.toOption.getD Peer.before

def report : WeaveReport := weaver.apply.1.toOption.getD default

def later : Weaver := weaver.apply.2

theorem accepted : weaver.apply = (.ok report, later) := Prod.ext (ok_of_isOk default (by decide +kernel)) rfl

theorem read : weaver.descriptors = .ok [mixin] := ok_of_toOption (by decide +kernel)

theorem implemented : weaver.Implements [mixin] context interface (.assembly "Lib") definition Peer.before state :=
  ⟨[], mixin, [], [], Peer.target, weaver.assemblies, rfl, rfl, 0, Peer.type, mixinType "I, Lib", Peer.before, [], [],
    weaver.assemblies, weaver.assemblies, rfl, rfl, rfl, rfl, rfl, Prod.ext (ok_of_isOk Peer.before (by decide +kernel)) rfl⟩

theorem settles : weaver.Settles [mixin] reference := ⟨nofun, nofun, nofun, nofun⟩

/-- The library's definition is what the target's reference names. -/
theorem interface_recorded_library : weaver.apply = (.ok report, later) ∧ weaver.descriptors = .ok [mixin] ∧
    weaver.Implements [mixin] context interface (.assembly "Lib") definition Peer.before state ∧
    weaver.mixins.name ≠ weaver.target.name ∧ (∀ reference ∈ interface.reference?, weaver.Settles [mixin] reference) ∧
    ∃ recorded reference host, state.type.interfaces = Peer.before.type.interfacesWith recorded ∧
      recorded.reference? = some reference ∧ later.Denotes reference (.assembly "Lib") definition ∧
      later.target.type? state.type.fullName = some host ∧ state.type.interfaces <+: host.interfaces := by
  have apart : weaver.mixins.name ≠ weaver.target.name := by decide
  have settled : ∀ reference ∈ interface.reference?, weaver.Settles [mixin] reference := by
    rintro _ ⟨⟩
    exact settles
  exact ⟨accepted, read, implemented, apart, settled, Weaver.interface_recorded accepted read implemented apart settled⟩

end Borrowed

namespace Namesake

def definition : TypeDef := { Borrowed.definition with space := "Game" }

def type : TypeDef := TypeDef.empty "Game" "T" ⟨0⟩ none

/-- A mixin that gives the interface of the target without a scope. -/
def mixinType : TypeDef :=
  { TypeDef.empty "Mods" "M" ⟨0⟩ none with
    methods := [Borrowed.reset]
    attributes := [Deeper.marked .mixin [.type "Game.T, Game"], Deeper.marked .implements [.type "Game.I"]] }

def weaver : Weaver := .new .standard ⟨"Game", [], [definition, type]⟩ ⟨"Mods", [], [mixinType]⟩ ⟨[]⟩

def interface : TypeSig := .classType ⟨none, "Game", "I"⟩

def mixin : MixinDescriptor := ⟨"Mods.M", .type "Game.T", 0, [], [.implements interface]⟩

/-- The methods are those of the target's interface, and what is recorded is in the mixins' module, which has no such type. -/
theorem unscoped_misnamed : weaver.apply.1.isOk = true ∧ weaver.descriptors.toOption = some [mixin] ∧
    (weaver.engine [mixin]).provided? weaver.assemblies weaver.target interface = some (.target, definition) ∧
    (weaver.apply.2.target.types.map fun type => (type.fullName, type.interfaces)) =
      [("Game.I", []), ("Game.T", [.classType ⟨some "Mods", "Game", "I"⟩])] ∧
    weaver.apply.2.denoted? ⟨some "Mods", "Game", "I"⟩ = none :=
  ⟨by decide +kernel, by decide +kernel, rfl, by decide +kernel, by decide +kernel⟩

end Namesake

end CilWeave
