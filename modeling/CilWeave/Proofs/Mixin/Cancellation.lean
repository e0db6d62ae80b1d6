import CilWeave.Proofs.Mixin.Carriers
import CilWeave.Proofs.Mixin.Refinement

/-!
Injections that can be cancelled. The callback is handed a fresh carrier as its last argument, which is kept
in a local of its own; the carrier that this local holds when the callback has returned decides whether the
method goes on, returns, or goes on elsewhere.
-/

namespace CilWeave

open Machine Stateful

namespace CallbackSite

theorem paramSources_carrier {site : CallbackSite} {slot : UInt16} {members : CarrierMembers} {kind : CarrierKind}
    (held : site.carrier = some (slot, members)) (next : UInt16) (earlier : List ParamRole) :
    ∃ sources, site.paramSources next (earlier ++ [.carrier kind]) = sources ++ [.slot slot] := by
  induction earlier generalizing next with
  | nil => exact ⟨[], by simp [paramSources, held]⟩
  | cons role rest ih =>
      cases role with
      | argument =>
          obtain ⟨sources, same⟩ := ih (next + 1)
          exact ⟨_ :: sources, by rw [List.cons_append, paramSources, same, List.cons_append]⟩
      | captureLocal _ _ | storeLocal _ _ | carrier _ =>
          obtain ⟨sources, same⟩ := ih next
          exact ⟨_ :: sources, by rw [List.cons_append, paramSources, same, List.cons_append]⟩

theorem sources_carrier {site : CallbackSite} {slot : UInt16} {members : CarrierMembers} {kind : CarrierKind}
    {earlier : List ParamRole} (held : site.carrier = some (slot, members))
    (last : site.params = earlier ++ [.carrier kind]) : site.sources.getLast? = some (.slot slot) := by
  unfold sources
  rw [last]
  split
  · obtain ⟨sources, same⟩ : ∃ sources, site.paramSources 1 (earlier ++ [.carrier kind]) = _ :=
      paramSources_carrier held 1 earlier
    rw [same, ← List.cons_append, List.getLast?_concat]
  · obtain ⟨sources, same⟩ : ∃ sources, site.paramSources 0 (earlier ++ [.carrier kind]) = _ :=
      paramSources_carrier held 0 earlier
    rw [same, List.getLast?_concat]

end CallbackSite

namespace Injection

variable {injection : Injection} {config : WeaveConfig} {owner : String} {kind : CarrierKind} {type : TypeSig}

theorem carrier_cancellable (cancellable : injection.descriptor.cancellable = true) :
    ∃ kind type, injection.carrier = some (kind, type) := by
  obtain ⟨⟨kind, type⟩, held⟩ := Option.isSome_iff_exists.mp (injection.carried.trans cancellable)
  exact ⟨kind, type, held⟩

/-- The carrier is the type of one of the callback's parameters, moved onto the target. -/
theorem carrier_param
    (roles : injection.patch.params.mapM (config.paramRole owner) = .ok injection.descriptor.params)
    (held : injection.carrier = some (kind, type)) :
    ∃ param ∈ injection.patch.params, type = injection.context.home.sig param.type ∧
      config.carrierKind? param.type = some kind := by
  obtain ⟨earlier, params, moved⟩ := MixinContext.carrier?_last (injection.carries.trans (congrArg Except.ok held))
  have role : injection.descriptor.params[earlier.length]? = some (.carrier kind) := by simp [params]
  obtain ⟨param, found, read⟩ := mapM_getElem? roles role
  refine ⟨param, List.mem_of_getElem? found, ?_, WeaveConfig.paramRole_carrier read⟩
  simp only [MethodDef.paramTypes, List.getElem?_map, found, Option.map_some, Option.some.injEq] at moved
  exact moved.symm

/-- The carrier is what the settings name, moved onto the target. -/
theorem carrier_moved
    (roles : injection.patch.params.mapM (config.paramRole owner) = .ok injection.descriptor.params)
    (held : injection.carrier = some (kind, type)) :
    ∃ sig, type = injection.context.home.sig sig ∧ config.carrierKind? sig = some kind := by
  obtain ⟨param, -, moved, read⟩ := carrier_param roles held
  exact ⟨param.type, moved, read⟩

/-- The carrier has a local of its own behind those of the body, from which the callback's last argument is
loaded. -/
theorem slot_carrier (held : injection.carrier = some (kind, type)) :
    ∃ slot members, injection.slot = some (slot, members) ∧ members.carrier = type ∧
      slot.toNat = injection.body.locals.size ∧ injection.original.locals = injection.body.locals.push type ∧
      injection.site.sources.getLast? = some (.slot slot) := by
  obtain ⟨-, -, fits, -⟩ := injection.accepted
  obtain ⟨-, room⟩ := fits kind type held
  obtain ⟨earlier, params, -⟩ := MixinContext.carrier?_last (injection.carries.trans (congrArg Except.ok held))
  have slot : injection.slot = some (injection.body.locals.size.toUInt16,
      CarrierMembers.of type (injection.context.home.config.attributeName Marker.plainCarrier)) := by
    simp [Injection.slot, held]
  refine ⟨_, _, slot, rfl, ?_, ?_, CallbackSite.sources_carrier slot params⟩
  · rw [UInt16.toNat_ofNat']
    unfold Body.maxLocals at room
    omega
  · simp [original, held]

theorem unset_typed {reference : TypeRef} {value : TypeSig} {others : List TypeSig}
    (held : injection.carrier = some (kind, .generic reference (value :: others))) (host : TypeDef)
    (callback : MethodDef) : (injection.interposition host callback).unset = Value.default value := by
  simp [interposition, held]

/-- An interpreter with the settings of the weave knows the members of the carrier. -/
theorem carries_carrier {modules : List Module} {host : TypeDef} {callback : MethodDef}
    (flat : '/' ∉ config.space.toList) (settings : injection.context.home.config = config)
    (kept : ∀ name, name = Marker.plainCarrier ∨ name = Marker.typedCarrier →
      injection.context.home.types.get? (config.attributeName name) = none)
    {sig : TypeSig} (held : injection.carrier = some (kind, injection.context.home.sig sig))
    (read : config.carrierKind? sig = some kind) {slot : UInt16} {members : CarrierMembers}
    (added : injection.slot = some (slot, members)) :
    (injection.interposition host callback).Carries (Program.ofModules config modules) members ∧
      (injection.target.returns.isVoid = false → members.returnValue.isSome = true) := by
  have fits := (injection.accepted.2.2.1 _ _ held).1
  have base (scope : Option String) : (Program.ofModules config modules).carrierKind?
      (.classType (.ofFullName scope (config.attributeName Marker.plainCarrier))) = some false :=
    Program.carrierKind?_plain rfl (WeaveConfig.fullName_attributeName scope flat (by decide))
  simp only [Injection.slot, held, Option.map_some, settings, Option.some.injEq, Prod.mk.injEq] at added
  obtain ⟨-, rfl⟩ := added
  unfold WeaveConfig.carrierKind? at read
  split at read
  · rename_i reference
    split at read
    · rename_i named
      cases read
      have made : (Program.ofModules config modules).carrierKind? (injection.context.home.sig (.classType reference)) =
          some false :=
        Program.carrierKind?_plain rfl ((Rehoming.fullName_typeRef (named ▸ kept _ (.inl rfl))).trans named)
      refine ⟨⟨congrArg Option.isSome made, rfl, congrArg Option.isSome (base _), ⟨rfl, rfl, rfl, rfl⟩,
        fun _ absent => by cases absent⟩, fun returns => ?_⟩
      rw [MixinContext.carrierFits, returns] at fits
      cases fits
    · cases read
  · rename_i reference value
    split at read
    · rename_i named
      cases read
      have made : (Program.ofModules config modules).carrierKind?
          (injection.context.home.sig (.generic reference [value])) = some true :=
        Program.carrierKind?_typed rfl ((Rehoming.fullName_typeRef (named ▸ kept _ (.inr rfl))).trans named)
      refine ⟨⟨congrArg Option.isSome made, rfl, congrArg Option.isSome (base _), ⟨rfl, rfl, rfl, rfl⟩, ?_⟩,
        fun _ => rfl⟩
      intro getter same
      cases same
      exact ⟨made, rfl, rfl, rfl, rfl, (unset_typed held host callback).symm⟩
    · cases read
  · cases read

end Injection

/-- With an injection that can be cancelled, the woven method goes on as the original one does, except that in
front of each place it calls the callback with a fresh carrier, and returns or goes on elsewhere if the
carrier is cancelled then. Identities have to last for the code that is put in. -/
theorem Weaver.cancellable_injection_refines {weaver after : Weaver} {report : WeaveReport}
    (accepted : weaver.apply = (.ok report, after)) {mixins : List MixinDescriptor}
    (read : weaver.descriptors = .ok mixins) (distinct : (weaver.mixins.types.map TypeDef.fullName).Nodup)
    (flat : '/' ∉ weaver.config.space.toList)
    (apart : ∀ mixin ∈ mixins, mixin.mixinType ≠ weaver.config.attributeName Marker.plainCarrier ∧
      mixin.mixinType ≠ weaver.config.attributeName Marker.typedCarrier)
    {injection : Injection} (injects : weaver.Injects mixins injection)
    (cancellable : injection.descriptor.cancellable = true) (valid : injection.body.validate = .ok ())
    (fresh : injection.body.Fresh) (spare : injection.woven.Spare) {program : Program} {others : List Module}
    (configured : program = .ofModules weaver.config (after.target :: others))
    (ordinary : program.carrierKind? injection.context.targetSig = none) :
    ∃ host callback slot members, program.method? injection.site.callback = some (host, callback) ∧
      injection.callback.Alike callback ∧ host.methods[injection.before.type.methods.length]? = some callback ∧
      injection.slot = some (slot, members) ∧ slot.toNat = injection.body.locals.size ∧
      injection.woven.locals = injection.body.locals.push members.carrier ∧
      injection.site.sources.getLast? = some (.slot slot) ∧
      ∀ (limits : Limits) (store : Store) (call : Call) (ending : Ending), store.call program limits call = ending →
        ending.1 ≠ .error (.instructionLimit limits.maxInstructions) →
        ∃ history steps final, store.Calls program limits call history ending ∧
          (injection.interposition host callback).Calls program limits store call steps final ∧
          Interposition.Agree final ending ∧
          steps.flatMap Interposed.shows = history.flatMap (injection.interposition host callback).sees := by
  have modules : program.modules = after.target :: others := by rw [configured]; rfl
  obtain ⟨host, callback, resolved, alike, -, held⟩ := injection.resolves (injects.hosted accepted read) modules
  obtain ⟨settings, types, owner, roles⟩ := injects.roles read distinct
  obtain ⟨kind, type, carrier⟩ := injection.carrier_cancellable cancellable
  obtain ⟨sig, rfl, known⟩ := injection.carrier_moved roles carrier
  obtain ⟨slot, members, added, declared, index, locals, last⟩ := injection.slot_carrier carrier
  have kept (name : String) (either : name = Marker.plainCarrier ∨ name = Marker.typedCarrier) :
      injection.context.home.types.get? (weaver.config.attributeName name) = none := by
    rw [types]
    refine Table.get?_ofList_none fun entry member => ?_
    obtain ⟨mixin, listed, rfl⟩ := List.mem_map.mp member
    rcases either with rfl | rfl
    · exact (apart mixin listed).1
    · exact (apart mixin listed).2
  subst configured
  have carried : ∀ slot members, injection.slot = some (slot, members) →
      (injection.interposition host callback).Carries
          (Program.ofModules weaver.config (after.target :: others)) members ∧
        (injection.target.returns.isVoid = false → members.returnValue.isSome = true) :=
    fun _ _ same => Injection.carries_carrier flat settings kept carrier known same
  have serves := injection.serves resolved alike ordinary (fun _ _ same => (carried _ _ same).1)
    (fun _ _ same => (carried _ _ same).2)
  have supplies := injection.supplies fresh spare
  have woven := (injection.layered (Body.validate_ok valid).1 supplies).1
  refine ⟨host, callback, slot, members, resolved, alike, held, added, index, ?_, last,
    fun limits store call ending called within => injection.calls_agree serves valid supplies called within⟩
  rw [woven, locals, declared]

namespace Leak

/-- A field that keeps the address of an argument. -/
def pointer : FieldDef := ⟨"p", ⟨FieldFlags.isStatic⟩, .byRef (.primitive .int32), []⟩

def pointed (scope : Option String) : Operand :=
  .field ⟨.classType ⟨scope, "", "T"⟩, "p", .byRef (.primitive .int32)⟩

def code : Body :=
  ⟨8, true, #[],
    #[⟨0, .ldargaS, .argument 0⟩, ⟨1, .stsfld, pointed none⟩, ⟨2, .ldarg0, .none⟩, ⟨3, .ret, .none⟩], 0⟩

def number : ParamDef := ⟨"x", .primitive .int32, []⟩

def test : MethodDef := ⟨"Test", ⟨MethodFlags.isStatic⟩, .primitive .int32, [number], some code, []⟩

def type : TypeDef := { TypeDef.empty "" "T" ⟨0⟩ none with fields := [pointer], methods := [test] }

def target : Module := ⟨"Game", [], [type]⟩

def marked (marker : Marker) (arguments : List Argument) : Attribute :=
  ⟨.onInstance (.classType ⟨some "DotMixin", "DotMixin", marker.name⟩) ".ctor" .void [], .decoded ⟨arguments, []⟩⟩

def carrier : ParamDef :=
  ⟨"info", .generic ⟨some "DotMixin", "DotMixin", Marker.typedCarrier⟩ [.primitive .int32], []⟩

def poke : MethodDef :=
  ⟨"poke", ⟨MethodFlags.isStatic⟩, .void, [number, carrier],
    some ⟨8, true, #[],
      #[⟨0, .ldsfld, pointed (some "Game")⟩, ⟨1, .ldcI47, .none⟩, ⟨2, .stindI4, .none⟩, ⟨3, .ret, .none⟩], 0⟩,
    [marked .inject [.string "System.Int32 T::Test(System.Int32)", .string "RETURN", .bool true]]⟩

def mixinType : TypeDef :=
  { TypeDef.empty "" "M" ⟨0⟩ none with methods := [poke], attributes := [marked .mixin [.type "T"]] }

def weaver : Weaver := .new .standard target ⟨"Mods", [], [mixinType]⟩ ⟨[]⟩

def descriptor : InjectDescriptor :=
  ⟨0, "poke", "System.Int32 T::Test(System.Int32)", .return, true, .return, 1,
    [.argument, .carrier (.typed (.primitive .int32))]⟩

def mixin : MixinDescriptor := ⟨"M", .type "T", 0, [], [.inject descriptor]⟩

theorem read : weaver.descriptors = .ok [mixin] := by
  have succeeds : weaver.descriptors.isOk = true := by decide +kernel
  have same : weaver.descriptors.toOption.getD [] = [mixin] := by decide +kernel
  rw [ok_of_isOk [] succeeds, same]

def after : Weaver := weaver.apply.2

def report : WeaveReport := weaver.apply.1.toOption.getD default

theorem accepted : weaver.apply = (.ok report, after) :=
  Prod.ext (ok_of_isOk default (by decide +kernel)) rfl

def engine : MixinEngine := weaver.engine [mixin]

def context : MixinContext := ⟨mixin, mixinType, "T", type.sig, ⟨.standard, "Mods", "Game", "M", engine.types, .empty⟩⟩

def before : PatchState := ⟨type, ⟨"M", "T", 0, 0, 0, 0, []⟩, []⟩

def patched : PatchState := (context.applyInject descriptor before).toOption.getD before

theorem applied : context.applyInject descriptor before = .ok patched := ok_of_isOk before (by decide +kernel)

def injection : Injection :=
  .of applied 0 poke test code (some (.typed (.primitive .int32), context.home.sig carrier.type)) (.return true)
    rfl rfl rfl rfl rfl rfl

theorem injects : weaver.Injects [mixin] injection :=
  ⟨[], mixin, [], [], target, .empty, rfl, rfl, 0, type, mixinType, before, .empty, [], [], rfl, rfl, rfl, rfl⟩

def program : Program := .ofModules .standard [after.target]

def call (value : Int32) : Call := ⟨type, { test with body := some injection.woven }, [.int32 value], .drop⟩

def first : State :=
  ⟨Store.empty.enter (call 1), (enterFrame .standard 0 "" (call 1)).toOption.getD default, []⟩

theorem entered : enterFrame .standard 0 "" (call 1) = .ok first.active := ok_of_isOk default (by decide +kernel)

def ending : Ending := Store.empty.call program .standard (call 1)

theorem ordinary : program.carrierKind? injection.context.targetSig = none := by decide +kernel

/-- The callback stores through the address it found, and does not cancel: the target goes on with another
argument. -/
theorem poke_changes_argument :
    weaver.apply = (.ok report, after) ∧ weaver.descriptors = .ok [mixin] ∧ weaver.Injects [mixin] injection ∧
      injection.descriptor.cancellable = true ∧ injection.body.validate = .ok () ∧
      injection.target.maxDepth = .ok 1 ∧ program.carrierKind? injection.context.targetSig = none ∧
      injection.descriptor.params = [.argument, .carrier (.typed (.primitive .int32))] ∧
      enterFrame .standard 0 "" (call 1) = .ok first.active ∧
      ∃ visited reached resumed, Activation program .standard first visited resumed ∧ reached ∈ visited ∧
        reached.active.instruction?.map (·.id) = some 4 ∧ reached.active.args == #[.int32 1] ∧
        resumed.depth = first.depth ∧ resumed.active.instruction?.map (·.id) = some 2 ∧
        ((resumed.load? (.localPointer 0 0)).bind resumed.store.carrier?).map (·.2) == some .notCancelled ∧
        resumed.active.args == #[.int32 7] := by
  have walked : (walk? program .standard 0 15 [] first).any (fun (visited, resumed) =>
      visited.any (fun reached =>
        decide (reached.active.instruction?.map (·.id) = some 4 ∧ reached.active.args == #[.int32 1])) &&
      decide (resumed.depth = first.depth ∧ resumed.active.instruction?.map (·.id) = some 2 ∧
        ((resumed.load? (.localPointer 0 0)).bind resumed.store.carrier?).map (·.2) == some .notCancelled ∧
        resumed.active.args == #[.int32 7])) = true := by decide +kernel
  obtain ⟨⟨visited, resumed⟩, walked, holds⟩ := (Option.any_eq_true _ _).mp walked
  obtain ⟨past, holds⟩ := Bool.and_eq_true_iff.mp holds
  obtain ⟨reached, member, place⟩ := List.any_eq_true.mp past
  obtain ⟨here, given⟩ := of_decide_eq_true place
  exact ⟨accepted, read, injects, rfl, rfl, rfl, ordinary, rfl, entered, visited, reached, resumed,
    Activation.enter.walk walked, member, here, given, of_decide_eq_true holds⟩

theorem poke_refines :
    injection.descriptor.cancellable = true ∧ injection.woven.Spare ∧ ending.1.toOption == some (.int32 7) ∧
      ∃ host callback slot members, program.method? injection.site.callback = some (host, callback) ∧
        injection.slot = some (slot, members) ∧ slot.toNat = 0 ∧
        ∃ history steps final, Store.empty.Calls program .standard (call 1) history ending ∧
          (injection.interposition host callback).Calls program .standard .empty (call 1) steps final ∧
          Interposition.Agree final ending ∧
          steps.flatMap Interposed.shows = history.flatMap (injection.interposition host callback).sees := by
  have value : ending.1.toOption == some (.int32 7) := by decide +kernel
  have spare : injection.woven.Spare := by decide +kernel
  have configured : program = .ofModules weaver.config [after.target] := rfl
  obtain ⟨host, callback, slot, members, resolved, -, -, added, index, -, -, refines⟩ :=
    Weaver.cancellable_injection_refines accepted read (by decide +kernel) (by decide +kernel) (by decide +kernel)
      injects rfl rfl (.inl rfl) spare configured ordinary
  refine ⟨rfl, spare, value, host, callback, slot, members, resolved, added, index,
    refines .standard .empty (call 1) ending rfl fun cut => ?_⟩
  rw [cut] at value
  cases value

/-- A branch to the value that is returned. One identity is left above that of the value. -/
def crowded : MethodDef :=
  { test with
    body := some ⟨8, true, #[],
      #[⟨0, .ldargaS, .argument 0⟩, ⟨1, .stsfld, pointed none⟩, ⟨2, .brS, .target 4294967294⟩,
        ⟨4294967294, .ldarg0, .none⟩, ⟨3, .ret, .none⟩], 0⟩ }

/-- What the method returns that a weave leaves behind. -/
def returned (weaver : Weaver) : Option Value :=
  ((Machine.ofModules .standard .standard [weaver.apply.2.target]).call
    "System.Int32 T::Test(System.Int32)" none [.int32 1]).1.toOption

-- All of the injected code has the last identity then, and the branch goes past the callback.
example : returned weaver == some (.int32 7) ∧
    returned { weaver with target := ⟨"Game", [], [{ type with methods := [crowded] }]⟩ } == some (.int32 1) := by
  decide +kernel

end Leak

end CilWeave
