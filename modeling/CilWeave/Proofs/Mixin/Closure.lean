import CilWeave.Proofs.Mixin.RecordedInterfaces
import CilWeave.Proofs.Mixin.TypeReferences

/-!
Closed modules. A module is closed if it has the types that it names as its own, and lists the assemblies of the others. A
mixin that is applied to a closed target leaves it closed: all that comes along has been looked at when it was moved, so its
assembly is listed, and what becomes local is a type that the target has.
-/

namespace CilWeave

open Stateful

/-- A full name that does not begin with a dot is read back as it is. -/
theorem TypeRef.fullName_ofFullName (scope : Option String) {text : String} (plain : text.toList.head? ≠ some '.') :
    (ofFullName scope text).fullName = text := by
  unfold ofFullName
  dsimp only
  split
  · rename_i space rest divided
    obtain ⟨more, outer⟩ := List.takeWhile_prefix (fun char => decide (char ≠ '/')) (l := text.toList)
    have whole : text.toList = space ++ '.' :: (rest ++ more) := by
      rw [← outer, Text.splitLast?_ok divided, List.append_assoc, List.cons_append]
    have dropped : text.toList.drop (space.length + 1) = rest ++ more := by
      rw [whole, List.drop_append]
      simp
    cases space with
    | nil => exact absurd (congrArg List.head? whole) plain
    | cons first others =>
        have filled : (String.ofList (first :: others)).isEmpty = false := by simp
        rw [dropped, fullName, filled, if_neg Bool.false_ne_true]
        refine String.toList_inj.mp ?_
        rw [whole]
        simp
  · rfl

theorem TypeRef.fullName_ofFullName_scope (scope : Option String) (text : String) :
    (ofFullName scope text).fullName = (ofFullName none text).fullName := by
  unfold ofFullName
  dsimp only
  split <;> rfl

namespace Module

variable {module middle later : Module} {name : String}

theorem isKnownAssembly_iff : module.isKnownAssembly name = true ↔ name = module.name ∨ name ∈ module.assemblyRefs := by
  simp [isKnownAssembly]

/-- The module has got assemblies that it did not know, each once, behind those it had. -/
structure AddsAssemblies (module later : Module) : Prop where
  name : later.name = module.name
  refs : ∃ added, later.assemblyRefs = module.assemblyRefs ++ added ∧ added.Nodup ∧
    ∀ name ∈ added, module.isKnownAssembly name = false

namespace AddsAssemblies

theorem of_same (name : later.name = module.name) (refs : later.assemblyRefs = module.assemblyRefs) :
    module.AddsAssemblies later :=
  ⟨name, [], refs.trans (List.append_nil _).symm, List.nodup_nil, nofun⟩

theorem knows (adds : module.AddsAssemblies later) (known : module.isKnownAssembly name = true) :
    later.isKnownAssembly name = true := by
  obtain ⟨same, added, refs, -⟩ := adds
  rw [isKnownAssembly_iff, same, refs]
  exact (isKnownAssembly_iff.mp known).imp_right (List.mem_append_left _)

theorem trans (first : module.AddsAssemblies middle) (second : middle.AddsAssemblies later) : module.AddsAssemblies later := by
  have earlier {name : String} (fresh : middle.isKnownAssembly name = false) : module.isKnownAssembly name = false :=
    eq_false_of_ne_true fun known => absurd (first.knows known) (ne_true_of_eq_false fresh)
  obtain ⟨same, added, refs, distinct, new⟩ := first
  obtain ⟨again, more, others, unlike, fresh⟩ := second
  refine ⟨again.trans same, added ++ more, by rw [others, refs, List.append_assoc], ?_, ?_⟩
  · refine List.nodup_append.mpr ⟨distinct, unlike, fun name old other last => ?_⟩
    rintro rfl
    have known : middle.isKnownAssembly name = true := isKnownAssembly_iff.mpr (.inr (refs ▸ List.mem_append_right _ old))
    exact absurd known (ne_true_of_eq_false (fresh name last))
  · exact List.forall_mem_append.mpr ⟨new, fun name member => earlier (fresh name member)⟩

end AddsAssemblies

theorem addAssemblyRef_adds (module : Module) (name : String) :
    module.AddsAssemblies (module.addAssemblyRef name) ∧ (module.addAssemblyRef name).isKnownAssembly name = true := by
  unfold addAssemblyRef
  cases known : module.isKnownAssembly name with
  | true => exact ⟨.of_same rfl rfl, known⟩
  | false =>
      refine ⟨⟨rfl, [name], rfl, List.nodup_singleton name, ?_⟩, isKnownAssembly_iff.mpr (.inr ?_)⟩
      · exact List.forall_mem_singleton.mpr known
      · exact List.mem_append_right _ (List.mem_singleton_self name)

theorem addAssemblyRefs_adds (module : Module) (names : List String) :
    module.AddsAssemblies (names.foldl addAssemblyRef module) ∧
      ∀ name ∈ names, (names.foldl addAssemblyRef module).isKnownAssembly name = true := by
  induction names generalizing module with
  | nil => exact ⟨.of_same rfl rfl, nofun⟩
  | cons name rest ih =>
      obtain ⟨adds, known⟩ := module.addAssemblyRef_adds name
      obtain ⟨more, others⟩ := ih (module.addAssemblyRef name)
      exact ⟨adds.trans more, List.forall_mem_cons.mpr ⟨more.knows known, others⟩⟩

end Module

namespace Rehoming

variable {home : Rehoming} {references : List TypeRef} {name : String}

theorem mem_insertName {other : String} {names : List String} :
    other ∈ insertName name names ↔ other = name ∨ other ∈ names := by
  induction names with
  | nil => simp [insertName]
  | cons head rest ih =>
      unfold insertName
      split
      · rename_i same
        simp [same]
      · split
        · simp
        · rw [List.mem_cons, ih, List.mem_cons]
          tauto

/-- The assembly of each reference looked at is among those listed. -/
theorem mem_assemblies : name ∈ home.assemblies references ↔ ∃ reference ∈ references,
      home.assembly? reference = some name := by
  have collected (found names : List String) :
      name ∈ found.foldl (fun names name => insertName name names) names ↔ name ∈ found ∨ name ∈ names := by
    induction found generalizing names with
    | nil => simp
    | cons head rest ih =>
        rw [List.foldl_cons, ih, mem_insertName, List.mem_cons]
        tauto
  rw [assemblies, collected, List.mem_filterMap]
  simp

end Rehoming

namespace Module

variable {module middle later : Module} {reference : TypeRef}

/-- The module has the type that a reference names as its own, or lists its assembly. -/
structure Links (module : Module) (reference : TypeRef) : Prop where
  defined : module.isLocal reference.scope = true → (module.type? reference.fullName).isSome = true
  listed : ∀ scope ∈ reference.scope, module.isKnownAssembly scope = true

instance (module : Module) (reference : TypeRef) : Decidable (module.Links reference) :=
  decidable_of_iff
    ((module.isLocal reference.scope = true → (module.type? reference.fullName).isSome = true) ∧
      ∀ scope ∈ reference.scope, module.isKnownAssembly scope = true)
    ⟨fun both => ⟨both.1, both.2⟩, fun links => ⟨links.defined, links.listed⟩⟩

def Closed (module : Module) : Prop := ∀ reference ∈ module.refs, module.Links reference

instance (module : Module) : Decidable module.Closed :=
  inferInstanceAs (Decidable (∀ reference ∈ module.refs, module.Links reference))

/-- A module that has got assemblies and has types of the same names. -/
structure Continues (module later : Module) : Prop where
  adds : module.AddsAssemblies later
  names : later.types.map TypeDef.fullName = module.types.map TypeDef.fullName

namespace Continues

theorem refl (module : Module) : module.Continues module := ⟨.of_same rfl rfl, rfl⟩

theorem trans (first : module.Continues middle) (second : middle.Continues later) : module.Continues later :=
  ⟨first.adds.trans second.adds, second.names.trans first.names⟩

theorem type? (continues : module.Continues later) (name : String) : (later.type? name).isSome = (module.type? name).isSome :=
  type?_of_names continues.names name

theorem isLocal (continues : module.Continues later) (scope : Option String) : later.isLocal scope = module.isLocal scope := by
  rw [Module.isLocal, Module.isLocal, continues.adds.name]

theorem links (continues : module.Continues later) (links : module.Links reference) : later.Links reference where
  defined here := by
    rw [continues.isLocal] at here
    rw [continues.type?]
    exact links.defined here
  listed scope among := continues.adds.knows (links.listed scope among)

end Continues

/-- The reference to a type that a module has. -/
theorem links_here {type : TypeDef} (member : type ∈ module.types) : module.Links type.ref where
  defined _ := List.find?_isSome.mpr ⟨type, member, beq_self_eq_true type.fullName⟩
  listed := nofun

end Module

/-- The assembly of a moved reference is known if that of the reference is listed. -/
theorem Rehoming.listed_typeRef {home : Rehoming} {module : Module} {reference : TypeRef}
    (known : ∀ name ∈ home.assembly? reference, module.isKnownAssembly name = true) :
    ∀ scope ∈ (home.typeRef reference).scope, module.isKnownAssembly scope = true := by
  unfold typeRef assembly? at *
  intro scope among
  split at among
  · rename_i own
    rw [if_pos own] at known
    split at among
    · rw [TypeRef.scope_ofFullName] at among
      cases among
    · rename_i absent
      rw [Table.contains_eq, absent] at known
      exact known scope among
  · rename_i foreign
    rw [if_neg foreign] at known
    split at among
    · cases among
    · rename_i elsewhere
      rw [if_neg elsewhere] at known
      exact known scope among

/-- References that are moved to the module are looked at from another one; mixins are for types of the module, and what
fields stand for is linked. -/
structure Rehoming.Fits (home : Rehoming) (module : Module) : Prop where
  target : home.targetModule = module.name
  apart : home.mixinModule ≠ module.name
  types : ∀ key name, home.types.get? key = some name → (module.type? (TypeRef.ofFullName none name).fullName).isSome = true
  fields : ∀ key field, home.fields.get? key = some field → ∀ reference ∈ field.refs, module.Links reference

namespace Rehoming.Fits

variable {home : Rehoming} {module : Module} {reference : TypeRef} {seen : List TypeRef} (fits : home.Fits module)

include fits

theorem defined_typeRef (back : reference.scope = some module.name → (module.type? reference.fullName).isSome = true)
    (here : module.isLocal (home.typeRef reference).scope = true) :
    (module.type? (home.typeRef reference).fullName).isSome = true := by
  unfold typeRef at here ⊢
  split at here
  · rename_i own
    rw [if_pos own]
    split at here
    · rename_i name found
      exact fits.types _ name found
    · exact absurd (eq_of_beq here) fits.apart
  · rename_i foreign
    rw [if_neg foreign]
    split at here
    · rename_i scope
      rw [if_pos scope]
      exact back (fits.target ▸ scope)
    · rename_i elsewhere
      cases scope : reference.scope with
      | none =>
          rw [isMixinLocal, scope] at foreign
          exact absurd rfl foreign
      | some name =>
          rw [scope] at here elsewhere
          exact absurd (congrArg some ((eq_of_beq here).trans fits.target.symm)) elsewhere

/-- What a looked at part brings is linked, if what it names of the module is there and its assemblies are known. -/
theorem links (back : ∀ own ∈ seen, own.scope = some module.name → (module.type? own.fullName).isSome = true)
    (known : ∀ own ∈ seen, ∀ name ∈ home.assembly? own, module.isKnownAssembly name = true)
    (brings : home.Brings seen reference) : module.Links reference := by
  cases brings with
  | moved member => exact ⟨fits.defined_typeRef (back _ member), listed_typeRef (known _ member)⟩
  | mapped found member => exact fits.fields _ _ found _ member

end Rehoming.Fits

/-- The mixin's references to the module are to types that are there, and what it looked at are known assemblies. -/
structure MixinContext.Settles (context : MixinContext) (module : Module) (seen : List TypeRef) : Prop where
  fits : context.home.Fits module
  host : ∀ reference ∈ context.targetSig.refs, module.Links reference
  back : ∀ reference ∈ context.mixinDef.refs, reference.scope = some module.name →
    (module.type? reference.fullName).isSome = true
  known : ∀ reference ∈ seen, ∀ name ∈ context.home.assembly? reference, module.isKnownAssembly name = true

/-- Interfaces of the module, and the plain carrier beside carriers of the module, are there. -/
structure MixinContext.Meets (context : MixinContext) (module : Module) (op : MixinOp) : Prop where
  interface : ∀ interface, op = .implements interface → ∀ reference ∈ interface.refs,
    reference.scope = some module.name →
    (module.type? reference.fullName).isSome = true
  carrier : ∀ carrier, context.mixinDef.Takes carrier op →
    module.isLocal ((context.home.sig carrier).reference?.bind (·.scope)) = true →
      (module.type? (TypeRef.ofFullName none (context.home.config.attributeName Marker.plainCarrier)).fullName).isSome = true

namespace MixinContext

variable {context : MixinContext} {module : Module} {seen more : List TypeRef} {reference : TypeRef}

theorem Settles.less (settles : context.Settles module more) (within : seen ⊆ more) : context.Settles module seen :=
  { settles with known := fun reference member => settles.known reference (within member) }

theorem Settles.links (settles : context.Settles module seen) (brought : context.Brought seen reference) :
    module.Links reference := by
  obtain ⟨looked, own, among, brings⟩ := brought
  exact settles.fits.links (fun reference member => settles.back reference (own member))
    (fun reference member => settles.known reference (among member)) brings

/-- What the type names after an operation is linked, if it was before. -/
theorem Cites.links {op : MixinOp} {state after : PatchState} (cites : context.Cites op state after reference)
    (settles : context.Settles module after.seen) (meets : context.Meets module op)
    (before : ∀ reference ∈ state.type.refs, module.Links reference) : module.Links reference := by
  cases cites with
  | kept member => exact before reference member
  | brought brought => exact settles.links brought
  | interface same within brings =>
      exact settles.fits.links (meets.interface _ same) (fun reference member => settles.known reference (within member)) brings
  | host member => exact settles.host reference member
  | @question carrier taken within =>
      refine ⟨fun here => ?_, fun scope among => ?_⟩
      · rw [TypeRef.scope_ofFullName] at here
        rw [TypeRef.fullName_ofFullName_scope]
        exact meets.carrier carrier taken here
      · rw [TypeRef.scope_ofFullName] at among
        obtain ⟨moved, named, among⟩ := Option.mem_bind_iff.mp among
        rw [Rehoming.sig, TypeSig.reference?_mapRefs] at named
        obtain ⟨owner, owned, rfl⟩ := Option.map_eq_some_iff.mp named
        exact Rehoming.listed_typeRef (settles.known owner (within (TypeSig.reference?_mem owned))) scope among

end MixinContext

theorem TypeSig.refs_of_head {sig : TypeSig} {reference : TypeRef} (plain : sig.arguments = [])
    (head : sig.reference? = some reference) : sig.refs = [reference] := by
  cases sig <;> cases head
  · rfl
  · rfl
  · cases plain
    rfl

/-- A name gives no arguments. -/
theorem TypeSig.arguments_ofName (name : String) : (ofName name).arguments = [] := by
  have leaf (scope : Option String) (text : List Char) : (ofNameWithin.leaf scope text).arguments = [] := by
    unfold ofNameWithin.leaf
    split <;> rfl
  have within (scope : Option String) (bound : Nat) (text : List Char) : (ofNameWithin scope bound text).arguments = [] := by
    cases bound with
    | zero => exact leaf scope text
    | succ bound =>
        unfold ofNameWithin
        split
        · rfl
        · split
          · rfl
          · exact leaf scope text
  unfold ofName
  split <;> exact within _ _ _

namespace MixinEngine

variable {engine : MixinEngine} {context : MixinContext} {target woven module : Module} {mixin : MixinDescriptor}
  {assemblies known : Assemblies} {state after : PatchState} {applied : AppliedMixin}

theorem applyOps_seen {ops : List MixinOp} (ran : engine.applyOps context target ops assemblies state = (.ok after, known)) :
    state.seen ⊆ after.seen :=
  applyOps_preserves (motive := fun after => state.seen ⊆ after.seen)
    (fun _ _ _ _ _ _ _ _ _ one within => List.Subset.trans within (applyOp_cites one).1) (List.Subset.refl _) ran

/-- What the name of an interface leads to is in the target, if its scope is and nothing else is found under that. -/
theorem provided?_scoped {interface : TypeSig} {reference : TypeRef} {found : Provider × TypeDef}
    (provided : engine.provided? assemblies target interface = some found) (named : interface.reference? = some reference)
    (back : reference.scope = some target.name) (apart : engine.mixinModule.name ≠ target.name)
    (unshadowed : (assemblies.resolve engine.disk target.name).1.isOk = false) :
    (target.type? reference.fullName).isSome = true := by
  cases there : target.resolveType? reference with
  | some type => exact Option.isSome_of_eq_some (Module.resolveType?_eq_some.mp there).2
  | none =>
      have foreign : engine.mixinModule.resolveType? reference = none := by
        refine Module.resolveType?_abroad ?_
        rw [back]
        exact beq_eq_false_iff_ne.mpr apart.symm
      rw [provided?_assembly named there foreign back] at provided
      cases loaded : (assemblies.resolve engine.disk target.name).1 with
      | ok other =>
          rw [loaded] at unshadowed
          cases unshadowed
      | error fault =>
          rw [loaded] at provided
          cases provided

/-- Operations leave a linked type linked, if all that they look at is settled and each of them is met. -/
theorem applyOps_links {ops : List MixinOp} (ran : engine.applyOps context target ops assemblies state = (.ok after, known))
    (settles : context.Settles module after.seen)
    (unshadowed : (assemblies.resolve engine.disk target.name).1.isOk = false)
    (meets : ∀ op ∈ ops, ∀ assemblies state after known,
      (assemblies.resolve engine.disk target.name).1.isOk = false →
      engine.applyOp context target assemblies state op = (.ok after, known) → context.Meets module op)
    (before : ∀ reference ∈ state.type.refs, module.Links reference) :
    ∀ reference ∈ after.type.refs, module.Links reference := by
  induction ops generalizing assemblies state with
  | nil =>
      cases ran
      exact before
  | cons op rest ih =>
      obtain ⟨middle, between, one, ran⟩ := applyOps_cons ran
      have met := meets op List.mem_cons_self _ _ _ _ unshadowed one
      refine ih ran ?_ (fun other member => meets other (List.mem_cons_of_mem _ member)) fun reference member => ?_
      · rw [applyOp_resolve one, unshadowed]
      · exact ((applyOp_cites one).2 reference member).links (settles.less (applyOps_seen ran)) met before

/-- A mixin leaves types of the same names, and lists what its references need. -/
theorem apply_continues (accepted : engine.apply target mixin assemblies = (.ok (applied, woven), known)) :
    target.Continues woven := by
  have names := apply_names accepted
  obtain ⟨index, type, mixinDef, mapped, context, final, -, -, -, -, rfl⟩ := apply_ok accepted
  obtain ⟨adds, -⟩ := target.addAssemblyRefs_adds
    (context.home.assemblies mapped.seen ++ context.home.assemblies final.seen)
  exact ⟨⟨adds.name, adds.refs⟩, names⟩

theorem finish_knows {index : Nat} {home : Rehoming} {references : List TypeRef} {reference : TypeRef}
    (looked : reference ∈ references ++ state.seen) :
    ∀ name ∈ home.assembly? reference, (finish target index home references state).isKnownAssembly name = true := by
  intro name listed
  refine (target.addAssemblyRefs_adds _).2 name ?_
  rcases List.mem_append.mp looked with front | back
  · exact List.mem_append_left _ (Rehoming.mem_assemblies.mpr ⟨reference, front, listed⟩)
  · exact List.mem_append_right _ (Rehoming.mem_assemblies.mpr ⟨reference, back, listed⟩)

end MixinEngine

/-- A callback of one of the mixins takes a carrier of the type. -/
def Weaver.Takes (weaver : Weaver) (mixins : List MixinDescriptor) (carrier : TypeSig) : Prop :=
  ∃ mixin ∈ mixins, ∃ op ∈ mixin.ops, ∃ mixinDef, weaver.mixins.type? mixin.mixinType = some mixinDef ∧
    mixinDef.Takes carrier op

/-- The target is closed, and the mixins refer to types that it has. Both modules have names of their own, nothing else is found
under the target's, names of target types do not begin with a dot, and the plain carrier is one of them if a carrier that a
callback takes is, once it is moved. -/
structure Weaver.Closable (weaver : Weaver) (mixins : List MixinDescriptor) : Prop where
  target : weaver.target.Closed
  back : ∀ reference ∈ weaver.mixins.refs, reference.scope = some weaver.target.name →
    (weaver.target.type? reference.fullName).isSome = true
  apart : weaver.mixins.name ≠ weaver.target.name
  unshadowed : (weaver.assemblies.resolve weaver.disk weaver.target.name).1.isOk = false
  names : ∀ type ∈ weaver.target.types, type.fullName.toList.head? ≠ some '.'
  carriers : ∀ carrier, weaver.Takes mixins carrier →
    weaver.target.isLocal (((weaver.rehoming mixins).sig carrier).reference?.bind (·.scope)) = true →
      (weaver.target.type? (weaver.config.attributeName Marker.plainCarrier)).isSome = true

theorem Module.Continues.links_sig {module later : Module} (continues : module.Continues later) {type : TypeDef}
    (member : type ∈ module.types) : ∀ reference ∈ type.sig.refs, later.Links reference := by
  rw [TypeDef.refs_sig]
  exact List.forall_mem_singleton.mpr (continues.links (Module.links_here member))

theorem Module.mem_refs {module : Module} {type : TypeDef} (member : type ∈ module.types) : type.refs ⊆ module.refs :=
  fun _ named => List.mem_flatMap.mpr ⟨type, member, named⟩

namespace Weaver

variable {weaver later : Weaver} {mixins : List MixinDescriptor} {woven : Module} {known : Assemblies}
  {applied : List AppliedMixin} {report : WeaveReport}

theorem applyAll_continues {engine : MixinEngine} {target : Module} {assemblies : Assemblies}
    (ran : applyAll engine mixins target assemblies = (.ok (applied, woven), known)) : target.Continues woven := by
  induction mixins generalizing target assemblies applied with
  | nil =>
      cases ran
      exact .refl _
  | cons mixin rest ih =>
      obtain ⟨one, others, middle, between, -, first, ran⟩ := applyAll_cons ran
      exact (MixinEngine.apply_continues first).trans (ih ran)

/-- The targets of accepted mixins are types of the target. -/
theorem applyAll_targets
    (ran : applyAll (weaver.engine mixins) mixins weaver.target weaver.assemblies = (.ok (applied, woven), known))
    {mixin : MixinDescriptor} (member : mixin ∈ mixins) : (weaver.target.type? mixin.target.fullName).isSome = true := by
  obtain ⟨earlier, others, split⟩ := List.append_of_mem member
  obtain ⟨_, _, middle, _, _, _, _, before, accepted, -⟩ := applyAll_split split ran
  obtain ⟨index, type, _, _, _, _, subjects, -⟩ := MixinEngine.apply_ok accepted
  have named := MixinEngine.subjects_fullName subjects
  obtain ⟨-, held, -⟩ := MixinEngine.subjects_ok subjects
  rw [← (applyAll_continues before).type?]
  exact List.find?_isSome.mpr ⟨type, List.mem_of_getElem? held, by rw [named, beq_self_eq_true]⟩

namespace Closable

variable (closable : weaver.Closable mixins) {module : Module} (continues : weaver.target.Continues module)
  {mixin : MixinDescriptor} {context : MixinContext}
  (home : context.home = { weaver.rehoming mixins with mixinType := mixin.mixinType, fields := context.home.fields })
  (found : weaver.mixins.type? mixin.mixinType = some context.mixinDef)

include closable

/-- A type of the target can be read back from its name. -/
theorem reads {name : String} (has : (weaver.target.type? name).isSome = true) :
    (TypeRef.ofFullName none name).fullName = name := by
  obtain ⟨type, there⟩ := Option.isSome_iff_exists.mp has
  refine TypeRef.fullName_ofFullName none ?_
  rw [← Module.type?_fullName there]
  exact closable.names type (List.mem_of_find?_eq_some there)

include continues home found

theorem settles (ran : applyAll (weaver.engine mixins) mixins weaver.target weaver.assemblies = (.ok (applied, woven), known))
    {seen : List TypeRef} (host : ∀ reference ∈ context.targetSig.refs, module.Links reference)
    (fields : ∀ key field, context.home.fields.get? key = some field → ∀ reference ∈ field.refs, module.Links reference)
    (listed : ∀ reference ∈ seen, ∀ name ∈ context.home.assembly? reference, module.isKnownAssembly name = true) :
    context.Settles module seen where
  fits :=
    { target := by rw [home, continues.adds.name]; rfl
      apart := by rw [home, continues.adds.name]; exact closable.apart
      types := by
        intro key name stands
        rw [home] at stands
        obtain ⟨mixin, member, same⟩ := List.mem_map.mp (Table.mem_of_get?_ofList stands)
        obtain ⟨-, rfl⟩ := Prod.mk.inj same
        have has := applyAll_targets ran member
        rw [closable.reads has, continues.type?, has]
      fields }
  host
  back reference member back := by
    rw [continues.adds.name] at back
    rw [continues.type?]
    exact closable.back reference (Module.mem_refs (List.mem_of_find?_eq_some found) member) back
  known := listed

theorem meets (read : weaver.descriptors = .ok mixins) (member : mixin ∈ mixins) {op : MixinOp} (among : op ∈ mixin.ops)
    {target : Module} (before : weaver.target.Continues target) {assemblies reached : Assemblies} {state after : PatchState}
    (unshadowed : (assemblies.resolve weaver.disk target.name).1.isOk = false)
    (accepted : (weaver.engine mixins).applyOp context target assemblies state op = (.ok after, reached)) :
    context.Meets module op where
  interface interface same reference named back := by
    subst same
    obtain ⟨name, rfl⟩ := descriptors_interface read member among
    obtain ⟨_, _, _, resolved, -⟩ := MixinContext.applyImplements_ok (congrArg Prod.fst accepted)
    have stated := (weaver.engine mixins).resolveInterface_provided assemblies target (.ofName name)
    obtain ⟨provided, leads, -⟩ := Option.map_eq_some_iff.mp (stated.symm.trans resolved)
    obtain ⟨head, own, -⟩ := Option.bind_eq_some_iff.mp leads
    rw [TypeSig.refs_of_head (TypeSig.arguments_ofName name) own, List.mem_singleton] at named
    subst named
    rw [continues.adds.name, ← before.adds.name] at back
    rw [continues.type?, ← before.type?]
    refine MixinEngine.provided?_scoped leads own back ?_ unshadowed
    rw [before.adds.name]
    exact closable.apart
  carrier carrier taken here := by
    rw [continues.isLocal, show context.home.sig carrier = (weaver.rehoming mixins).sig carrier from
      congrArg (TypeSig.mapRefs · carrier) (typeRef_setting home)] at here
    have has := closable.carriers carrier ⟨mixin, member, op, among, _, found, taken⟩ here
    have settings : context.home.config = weaver.config := by
      rw [home]
      rfl
    rw [settings, continues.type?, closable.reads has, has]

end Closable

/-- What a mixin's operations work with, if the module it is applied to has the target's name. -/
theorem home_of_begin {target : Module} {mixin : MixinDescriptor} {type mixinDef : TypeDef} {mapped : PatchState}
    {context : MixinContext} (named : target.name = weaver.target.name)
    (begun : (weaver.engine mixins).begin target mixin type mixinDef = .ok (mapped, context)) :
    context.home = { weaver.rehoming mixins with mixinType := mixin.mixinType, fields := context.home.fields } ∧
      context.mixinDef = mixinDef ∧ context.targetSig = type.sig := by
  obtain ⟨fields, rfl, -⟩ := MixinEngine.begin_mapped begun
  rw [named]
  exact ⟨rfl, rfl, rfl⟩

section

variable (closable : weaver.Closable mixins)
  (ran : applyAll (weaver.engine mixins) mixins weaver.target weaver.assemblies = (.ok (applied, woven), known))
  {target module : Module} {mixin : MixinDescriptor} {type mixinDef : TypeDef} {mapped : PatchState} {context : MixinContext}
  (before : weaver.target.Continues target) (next : target.Continues module) (own : type ∈ target.types)
  (found : weaver.mixins.type? mixin.mixinType = some mixinDef)
  (begun : (weaver.engine mixins).begin target mixin type mixinDef = .ok (mapped, context))

include closable ran before next own found begun

/-- The context of a mixin's operations is settled if what they look at is listed. -/
theorem Closable.settles_of_begin {seen : List TypeRef}
    (fields : ∀ key field, context.home.fields.get? key = some field → ∀ reference ∈ field.refs, module.Links reference)
    (listed : ∀ reference ∈ seen, ∀ name ∈ context.home.assembly? reference, module.isKnownAssembly name = true) :
    context.Settles module seen := by
  obtain ⟨home, defined, signed⟩ := home_of_begin before.adds.name begun
  exact closable.settles (before.trans next) home (defined ▸ found) ran (signed ▸ next.links_sig own) fields listed

/-- What the type names when a mixin's fields have been mapped is linked, and so is what they stand for. -/
theorem Closable.links_of_begin (closed : target.Closed)
    (listed : ∀ reference ∈ mapped.seen, ∀ name ∈ context.home.assembly? reference,
      module.isKnownAssembly name = true) :
    (∀ reference ∈ mapped.type.refs, module.Links reference) ∧
      ∀ key field, context.home.fields.get? key = some field → ∀ reference ∈ field.refs, module.Links reference := by
  obtain ⟨stands, rfl, fieldsMapped⟩ := MixinEngine.begin_mapped begun
  obtain ⟨-, table, cited⟩ := MixinContext.mapFields_cites fieldsMapped nofun
  have host := next.links_sig own
  -- Fields are moved before any of them stands for another.
  have settles : MixinContext.Settles ⟨mixin, mixinDef, mixin.target.fullName, type.sig,
      ⟨weaver.config, weaver.mixins.name, target.name, mixin.mixinType, targets mixins, .empty⟩⟩ module mapped.seen :=
    closable.settles (before.trans next) (by rw [before.adds.name]; rfl) found ran host (fun _ _ none => by cases none) listed
  have links : ∀ reference ∈ mapped.type.refs, module.Links reference := by
    intro reference member
    rcases cited reference member with kept | brought
    · exact next.links (closed reference (Module.mem_refs own kept))
    · exact settles.links brought
  refine ⟨links, fun key field there reference member => ?_⟩
  rcases List.mem_append.mp (table key field there member) with declared | typed
  · exact host reference declared
  · exact links reference typed

end

/-- An accepted mixin leaves a closed target closed. -/
theorem Closable.apply (closable : weaver.Closable mixins) (read : weaver.descriptors = .ok mixins)
    (ran : applyAll (weaver.engine mixins) mixins weaver.target weaver.assemblies = (.ok (applied, woven), known))
    {target middle : Module} {mixin : MixinDescriptor} (listed : mixin ∈ mixins) (before : weaver.target.Continues target)
    {assemblies reached : Assemblies} {one : AppliedMixin}
    (accepted : (weaver.engine mixins).apply target mixin assemblies = (.ok (one, middle), reached))
    (unshadowed : (assemblies.resolve weaver.disk target.name).1.isOk = false) (closed : target.Closed) :
    middle.Closed := by
  have next := MixinEngine.apply_continues accepted
  obtain ⟨index, type, mixinDef, mapped, context, final, subjects, begun, operated, -, rfl⟩ := MixinEngine.apply_ok accepted
  obtain ⟨-, held, found⟩ := MixinEngine.subjects_ok subjects
  have own : type ∈ target.types := List.mem_of_getElem? held
  obtain ⟨links, stands⟩ := closable.links_of_begin ran before next own found begun closed fun reference member =>
    MixinEngine.finish_knows (List.mem_append_left _ member)
  have settles := closable.settles_of_begin ran before next own found begun stands fun reference member =>
    MixinEngine.finish_knows (List.mem_append_right mapped.seen member)
  have worked : ∀ reference ∈ final.type.refs,
      (MixinEngine.finish target index context.home mapped.seen final).Links reference := by
    refine MixinEngine.applyOps_links operated settles unshadowed ?_ links
    intro op among assemblies state after known unshadowed one
    obtain ⟨home, defined, -⟩ := home_of_begin before.adds.name begun
    exact closable.meets (before.trans next) home (defined ▸ found) read listed among before unshadowed one
  intro reference member
  obtain ⟨other, among, named⟩ := List.mem_flatMap.mp member
  rw [MixinEngine.finish_types] at among
  rcases List.mem_or_eq_of_mem_set among with old | rfl
  · exact next.links (closed reference (Module.mem_refs old named))
  · exact worked reference named

/-- Mixins that are accepted leave a closed target closed. -/
theorem Closable.applyAll (closable : weaver.Closable mixins) (read : weaver.descriptors = .ok mixins)
    (ran : applyAll (weaver.engine mixins) mixins weaver.target weaver.assemblies = (.ok (applied, woven), known)) :
    woven.Closed := by
  refine applyAll_reaches (motive := fun _ module => module.Closed) closable.target ?_ (List.append_nil mixins).symm ran
  intro earlier mixin later applied one target middle between known split before accepted closed
  have continues := applyAll_continues before
  refine closable.apply read ran (split ▸ List.mem_append_right _ List.mem_cons_self) continues accepted ?_ closed
  have resolved := applyAll_resolve before weaver.target.name
  rw [continues.adds.name]
  exact (congrArg Except.isOk resolved).trans closable.unshadowed

end Weaver

theorem MethodDef.refs_withMaxStack (method : MethodDef) (depth : UInt16) : (method.withMaxStack depth).refs = method.refs := by
  rw [refs, refs, withMaxStack, Option.map_map]
  rfl

namespace Verification

variable {config : WeaveConfig} {state after : Verification}

/-- A depth that is written down names no types. -/
theorem method_refs {typeName name : String} (verified : method config typeName state name = .ok after) :
    state.module.Continues after.module ∧ after.module.refs = state.module.refs := by
  rcases method_ok verified with same | ⟨index, depth, same⟩
  · exact same ▸ ⟨.refl _, rfl⟩
  · rw [same, Module.modifyType]
    split
    · have named (type : TypeDef) : TypeDef.fullName
          { type with methods := type.methods.modify index fun method => method.withMaxStack depth } = type.fullName := rfl
      refine ⟨⟨.of_same rfl rfl, map_modify_of_blind TypeDef.fullName named state.module.types _⟩, ?_⟩
      refine flatMap_modify_of_blind (fun type => ?_) state.module.types _
      have methods := flatMap_modify_of_blind (MethodDef.refs_withMaxStack · depth) type.methods index
      simp only [TypeDef.refs, methods]
    · exact ⟨.refl _, rfl⟩

theorem run_refs {module : Module} {applied : List AppliedMixin} (ran : run config module applied = .ok after) :
    module.Continues after.module ∧ after.module.refs = module.refs := by
  refine run_keeps (motive := fun state => module.Continues state.module ∧ state.module.refs = module.refs)
    (fun _ _ _ _ before after kept verified => ?_) ⟨.refl module, rfl⟩ ran
  obtain ⟨continues, refs⟩ := method_refs verified
  exact ⟨kept.1.trans continues, refs.trans kept.2⟩

end Verification

/-- A weave of a target and mixins that refer to what is there leaves a closed module, which lists the assemblies that the
target listed, and behind them others that it did not know, each once. -/
theorem Weaver.references_closed {weaver later : Weaver} {mixins : List MixinDescriptor} {report : WeaveReport}
    (accepted : weaver.apply = (.ok report, later)) (read : weaver.descriptors = .ok mixins)
    (closable : weaver.Closable mixins) :
    later.target.Closed ∧ weaver.target.AddsAssemblies later.target := by
  obtain ⟨again, applied, woven, known, outcome, reread, ran, verified, same⟩ := apply_woven accepted
  cases Except.ok.inj (read.symm.trans reread)
  obtain ⟨last, refs⟩ := Verification.run_refs verified
  rw [same]
  refine ⟨fun reference member => ?_, ((applyAll_continues ran).trans last).adds⟩
  rw [refs] at member
  exact last.links (closable.applyAll read ran reference member)

namespace Leak

theorem closable : weaver.Closable [mixin] where
  target := by decide +kernel
  back := by decide +kernel
  apart := by decide +kernel
  unshadowed := by decide +kernel
  names := by decide +kernel
  carriers := by
    rintro carrier ⟨other, member, op, among, mixinDef, found, taken⟩ here
    obtain rfl := List.mem_singleton.mp member
    obtain rfl := List.mem_singleton.mp among
    cases found
    obtain ⟨patch, position, kind, patched, role, typed⟩ := taken
    cases patched
    match position, role, typed with
    | 0, role, _ => cases role
    | 1, _, typed =>
        cases typed
        exact absurd here (by decide +kernel)
    | _ + 2, role, _ => cases role

/-- The carrier's assembly is listed. -/
theorem references_closed_poke : weaver.apply = (.ok report, after) ∧ weaver.descriptors = .ok [mixin] ∧
    weaver.Closable [mixin] ∧ after.target.Closed ∧ weaver.target.AddsAssemblies after.target :=
  ⟨accepted, read, closable, Weaver.references_closed accepted read closable⟩

end Leak

/-- What both modules bring if they refer to types that are there: the target is closed, types that the mixins name as their own
or as the target's are there, no name begins with a dot, carriers are plain ones, and no module that is found for the target's
name has that name. -/
def Weaver.Coherent (weaver : Weaver) : Prop :=
  weaver.target.Closed ∧
    (∀ reference ∈ weaver.mixins.refs,
      (weaver.mixins.isLocal reference.scope = true → (weaver.mixins.type? reference.fullName).isSome = true) ∧
        (reference.scope = some weaver.target.name → (weaver.target.type? reference.fullName).isSome = true)) ∧
    (∀ type ∈ weaver.target.types ++ weaver.mixins.types, type.fullName.toList.head? ≠ some '.') ∧
    (∀ type ∈ weaver.mixins.types, ∀ method ∈ type.methods, ∀ sig ∈ method.paramTypes,
      ∀ kind ∈ weaver.config.carrierKind? sig, kind = .plain) ∧
    ∀ other ∈ (weaver.assemblies.resolve weaver.disk weaver.target.name).1.toOption, other.name ≠ weaver.target.name

instance (weaver : Weaver) : Decidable weaver.Coherent := inferInstanceAs (Decidable (_ ∧ _ ∧ _ ∧ _ ∧ _))

namespace Dangling

/-- A mixin with a field of a type beside it. -/
def holder : TypeDef :=
  { TypeDef.empty "" "M" ⟨0⟩ none with
    fields := [⟨"f", ⟨0⟩, .classType ⟨none, "", "H"⟩, []⟩]
    attributes := [Leak.marked .mixin [.type "T"]] }

/-- Both modules have one name. -/
def named : Weaver := .new .standard Peer.target ⟨"Game", [], [TypeDef.empty "" "H" ⟨0⟩ none, holder]⟩ ⟨[]⟩

def done : Body := ⟨8, true, #[], #[⟨0, .ret, .none⟩], 0⟩

def test : MethodDef := ⟨"Test", ⟨MethodFlags.isStatic⟩, .void, [], some done, []⟩

def callback : MethodDef :=
  ⟨"cb", ⟨MethodFlags.isStatic⟩, .void, [⟨"info", .classType ⟨none, "DotMixin", Marker.plainCarrier⟩, []⟩],
    some done,
    [Leak.marked .inject [.string "System.Void T::Test()", .string "HEAD", .bool true]]⟩

/-- The plain carrier is a mixin itself. -/
def carrying : Weaver :=
  .new .standard ⟨"Game", [], [{ Peer.type with methods := [test] }]⟩
    ⟨"Mods", [], [{ TypeDef.empty "DotMixin" Marker.plainCarrier ⟨0⟩ none with
      methods := [callback], attributes := [Leak.marked .mixin [.type "T"]] }]⟩ ⟨[]⟩

/-- A module of another name was loaded under the target's, and has the interface that a mixin asks of the target. -/
def shadowed : Weaver :=
  let library : Module := ⟨"Other", [], [TypeDef.empty "" "I" ⟨TypeFlags.isInterface⟩ none]⟩
  { Weaver.new .standard Peer.target ⟨"Mods", [], [{ Borrowed.mixinType "I, Game" with methods := [] }]⟩ ⟨[]⟩ with
    assemblies := ⟨.ofList [("Game", library)], []⟩ }

/-- Types are missing from woven modules if both modules have one name, if a carrier is a mixin, or if another module is found
under the target's name. -/
theorem coherent_open : (named.Coherent ∧ carrying.Coherent ∧ shadowed.Coherent) ∧
    (named.apply.1.isOk = true ∧ carrying.apply.1.isOk = true ∧ shadowed.apply.1.isOk = true) ∧
    ¬ named.apply.2.target.Closed ∧ ¬ carrying.apply.2.target.Closed ∧ ¬ shadowed.apply.2.target.Closed :=
  ⟨by decide +kernel, by decide +kernel, by decide +kernel, by decide +kernel, by decide +kernel⟩

end Dangling

end CilWeave
