import CilWeave.Proofs.Mixin.Cancellation
import CilWeave.Proofs.Mixin.MemberNames
import CilWeave.Proofs.Signature.MovedNames

/-!
What a callback's parameters receive. Injected code loads a value for each of them, in order: an argument of the target, a
local of its body or the address of one, or the carrier. Types are compared as names, by the reader of annotations before
they are moved and by the injection afterwards; where names can be read back, each value comes from a place whose type is
called as the parameter's.
-/

namespace CilWeave

open Stateful

/-- What an instruction loads, if it is one of those that load a value for a callback. -/
def Instruction.source? (instruction : Instruction) : Option Source :=
  match instruction.opcode with
  | .ldarg0 | .ldarg1 | .ldarg2 | .ldarg3 | .ldargS | .ldarg => instruction.argument?.map .argument
  | .ldloc0 | .ldloc1 | .ldloc2 | .ldloc3 | .ldlocS | .ldloc => instruction.local?.map .slot
  | .ldlocaS | .ldloca => instruction.local?.map .slotAddress
  | .ldnull => some .nothing
  | _ => none

theorem Source.source?_draft (source : Source) (id : InstrId) : (source.draft.withId id).source? = some source := by
  cases source with
  | argument index =>
      refine Draft.indexed_cases (motive := fun draft => (draft.withId id).source? = some (.argument index))
        ⟨rfl, rfl⟩ (Nat.le_refl 4) ?_ ?_ ?_ ?_
      all_goals
        intro opcode found same
        cases found
        subst same
        rfl
  | slot index =>
      refine Draft.indexed_cases (motive := fun draft => (draft.withId id).source? = some (.slot index))
        ⟨rfl, rfl⟩ (Nat.le_refl 4) ?_ ?_ ?_ ?_
      all_goals
        intro opcode found same
        cases found
        subst same
        rfl
  | slotAddress index =>
      refine Draft.indexed_cases (motive := fun draft => (draft.withId id).source? = some (.slotAddress index))
        ⟨rfl, rfl⟩ (Nat.zero_le 4) ?_ ?_ ?_ ?_
      all_goals
        intro opcode found
        cases found
  | nothing => rfl

theorem Source.source?_numbered (ids : Nat → InstrId) (sources : List Source) :
    (numbered ids (sources.map Source.draft)).map Instruction.source? = sources.map some := by
  induction sources generalizing ids with
  | nil => rfl
  | cons source rest ih =>
      rw [List.map_cons, numbered_cons, List.map_cons, List.map_cons, ih]
      exact congrArg (· :: rest.map some) (source.source?_draft (ids 0))

theorem Draft.source?_storeLocal (index : UInt16) (id : InstrId) : ((storeLocal index).withId id).source? = none := by
  refine indexed_cases (motive := fun draft => (draft.withId id).source? = none) ⟨rfl, rfl⟩ (Nat.le_refl 4) ?_ ?_ ?_ ?_
  all_goals
    intro opcode found same
    cases found
    rfl

/-- The roles that receive the target's arguments. -/
def ParamRole.plain (roles : List ParamRole) : List ParamRole := roles.filter fun role => !role.isSpecial

namespace CallbackSite

variable {site : CallbackSite} {role : ParamRole} {roles : List ParamRole} {position : Nat}

/-- What a parameter of a role receives, if the next plain one receives the given argument. -/
def source (site : CallbackSite) (next : UInt16) : ParamRole → Source
  | .argument => .argument next
  | .captureLocal index _ => .slot index
  | .storeLocal index _ => .slotAddress index
  | .carrier _ =>
    match site.carrier with
    | some (slot, _) => .slot slot
    | none => .nothing

/-- Each parameter receives what its role says, and the plain ones receive consecutive arguments. -/
theorem getElem?_paramSources (held : roles[position]? = some role) (next : UInt16) :
    (site.paramSources next roles)[position]? =
      some (site.source (next + (ParamRole.plain (roles.take position)).length.toUInt16) role) := by
  induction roles generalizing position next with
  | nil => cases held
  | cons head rest ih =>
      cases position with
      | zero =>
          cases held
          have same : next + (ParamRole.plain ((role :: rest).take 0)).length.toUInt16 = next := UInt16.add_zero next
          rw [same]
          cases role <;> rfl
      | succ position =>
          cases head with
          | argument =>
              have same : next + (ParamRole.plain ((.argument :: rest).take (position + 1))).length.toUInt16 =
                  next + 1 + (ParamRole.plain (rest.take position)).length.toUInt16 := by
                show next + ((ParamRole.plain (rest.take position)).length + 1).toUInt16 = _
                rw [Nat.toUInt16, UInt16.ofNat_add, UInt16.add_assoc, UInt16.add_comm 1]
                rfl
              rw [same]
              exact ih held (next + 1)
          | captureLocal _ _ | storeLocal _ _ | carrier _ => exact ih held next

/-- The first of the values is the instance, if there is one. -/
theorem sources_split {loads : List Instruction} (sources : loads.map Instruction.source? = site.sources.map some) :
    ∃ this values, loads = this ++ values ∧
      this.map Instruction.source? = (if site.hasThis then [some (.argument 0)] else []) ∧
      values.map Instruction.source? = (site.paramSources (if site.hasThis then 1 else 0) site.params).map some := by
  unfold CallbackSite.sources at sources
  split at sources
  · obtain ⟨this, values, rfl, first, others⟩ := List.map_eq_cons_iff.mp sources
    exact ⟨[this], values, rfl, by simp [*], by simp [*]⟩
  · exact ⟨[], loads, rfl, by simp [*], by simp [*]⟩

/-- The code of a place: what makes a carrier ready, the loads of the values, the call, and the rest. -/
theorem codeBy_split (cancel : CancelAction) (ids : Nat → InstrId) : ∃ setup loads call rest,
    site.codeBy cancel ids = setup ++ loads ++ call :: rest ∧ (∀ instruction ∈ setup, instruction.source? = none) ∧
      loads.map Instruction.source? = site.sources.map some ∧ call.opcode = .call ∧ call.method? = some site.callback := by
  have ready : ∀ instruction ∈ numbered ids site.carrierDrafts, instruction.source? = none := by
    unfold carrierDrafts
    intro instruction member
    cases held : site.carrier with
    | none =>
        rw [held] at member
        cases member
    | some carrier =>
        rw [held] at member
        rcases List.mem_cons.mp member with rfl | member
        · rfl
        · have stores : instruction = (Draft.storeLocal carrier.1).withId (ids 1) := List.mem_singleton.mp member
          rw [stores, Draft.source?_storeLocal]
  obtain ⟨more, whole⟩ : ∃ more, site.drafts (ids (site.length cancel - 1)) cancel =
      site.carrierDrafts ++ site.sources.map Source.draft ++ ⟨.call, .method site.callback⟩ :: more :=
    ⟨_, by simp only [drafts, callDrafts, List.append_assoc, List.singleton_append]; rfl⟩
  rw [codeBy, whole, numbered_append, numbered_append, numbered_cons]
  exact ⟨_, _, _, _, rfl, ready, Source.source?_numbered _ _, rfl, rfl⟩

end CallbackSite

/-- What the reader of annotations has checked of a parameter's type for its role. -/
inductive WeaveConfig.Marks (config : WeaveConfig) (type : TypeSig) : ParamRole → Prop
  | argument : config.Marks type .argument
  | captured {index : UInt16} {stated : TypeSig} : type.fullName = stated.fullName →
      config.Marks type (.captureLocal index stated)
  | stored {index : UInt16} {stated : TypeSig} : type.fullName = (TypeSig.byRef stated).fullName →
      config.Marks type (.storeLocal index stated)
  | carrier {kind : CarrierKind} : config.carrierKind? type = some kind → config.Marks type (.carrier kind)

theorem WeaveConfig.paramRole_marks {config : WeaveConfig} {owner : String} {param : ParamDef} {role : ParamRole}
    (read : config.paramRole owner param = .ok role) : config.Marks param.type role := by
  unfold paramRole at read
  dsimp only at read
  split at read
  · obtain ⟨args, -, read⟩ := bind_ok read
    obtain ⟨⟨index, stated⟩, -, read⟩ := bind_ok read
    obtain ⟨same, read⟩ := check_ok read
    cases read
    exact .captured (Decidable.not_not.mp same)
  · split at read
    · obtain ⟨args, -, read⟩ := bind_ok read
      obtain ⟨⟨index, stated⟩, -, read⟩ := bind_ok read
      obtain ⟨same, read⟩ := check_ok read
      cases read
      exact .stored (Decidable.not_not.mp same)
    · split at read
      · cases read
        exact .carrier ‹_›
      · cases read
        exact .argument

namespace MixinContext

variable {context : MixinContext} {types : List TypeSig} {roles : List ParamRole} {position : Nat} {type : TypeSig}

/-- The plain types are those of the plain roles. -/
theorem getElem?_plainTypes (held : roles[position]? = some .argument) (typed : types[position]? = some type) :
    (plainTypes types roles)[(ParamRole.plain (roles.take position)).length]? = some type := by
  induction roles generalizing types position with
  | nil => cases held
  | cons role rest ih =>
      cases types with
      | nil => cases typed
      | cons first others =>
          cases position with
          | zero =>
              cases held
              exact typed
          | succ position => cases role <;> exact ih held typed

/-- A carrier that a role asks for is the last parameter. -/
theorem carrier?_role {patch : MethodDef} {descriptor : InjectDescriptor} {carrier : Option (CarrierKind × TypeSig)}
    {kind : CarrierKind} (chosen : context.carrier? patch types descriptor = .ok carrier)
    (held : descriptor.params[position]? = some (.carrier kind)) :
    ∃ kind type, carrier = some (kind, type) ∧ types[position]? = some type := by
  cases carrier?_ok chosen with
  | none _ free => cases free _ (List.mem_of_getElem? held)
  | @last earlier own type _ params free typed =>
      rw [params] at held
      rcases Nat.lt_trichotomy position earlier.length with before | rfl | behind
      · rw [List.getElem?_append_left before] at held
        cases free _ (List.mem_of_getElem? held)
      · exact ⟨own, type, rfl, typed⟩
      · rw [List.getElem?_eq_none (by rw [List.length_append, List.length_singleton]; exact behind)] at held
        cases held

theorem splice_locals {site : CallbackSite} {cancel : CancelAction} {own : List InstrId} {body after : Body} {point : InstrId}
    (spliced : splice site cancel own body point = .ok after) : after.locals = body.locals := by
  simp only [splice, CallbackSite.build_ok, Except.mapError, bind, Except.bind] at spliced
  split at spliced
  · cases spliced
    exact body.locals_handOut _
  · split at spliced
    · cases spliced
    · rename_i inserted
      cases spliced
      unfold Body.insertBefore at inserted
      split at inserted
      · cases inserted
        exact body.locals_handOut _
      · cases inserted

end MixinContext

namespace Injection

variable {injection : Injection}

/-- Splicing leaves the locals alone. -/
theorem woven_locals (injection : Injection) : injection.woven.locals = injection.original.locals := by
  obtain ⟨-, -, -, -, spliced, ran, woven, -⟩ := injection.accepted
  have relaxed : injection.woven.locals = spliced.locals := by rw [woven, (Body.relax_widens spliced).rest]
  refine relaxed.trans (foldlM_ok (motive := fun body : Body => body.locals = injection.original.locals) ?_ rfl ran)
  exact fun point _ body after same one => (MixinContext.splice_locals one).trans same

/-- The code that an injection puts in front of one of its places, in the body with the code of the places before it. -/
def Inserts (injection : Injection) (code : Array Instruction) : Prop :=
  ∃ earlier point later body after, injection.body.locate injection.descriptor.location = earlier ++ point :: later ∧
    earlier.foldlM (MixinContext.splice injection.site injection.cancel injection.body.ids) injection.original = .ok body ∧
    injection.site.build body injection.cancel = .ok (code, after)

/-- What a parameter behind others receives: the target's argument for the next plain parameter, a local that the target's
body had or its address, or the local that was added for the carrier; of a type called as the parameter's. -/
inductive Receives (injection : Injection) (earlier : List ParamRole) (type : TypeSig) : ParamRole → Source → Prop
  | argument {index : UInt16} {own : TypeSig} :
      index.toNat = (!injection.target.isStatic).toNat + (ParamRole.plain earlier).length →
      injection.target.paramTypes[(ParamRole.plain earlier).length]? = some own → own.fullName = type.fullName →
      injection.Receives earlier type .argument (.argument index)
  | captured {index : UInt16} {stated own : TypeSig} : injection.body.locals[index.toNat]? = some own →
      own.fullName = type.fullName → injection.Receives earlier type (.captureLocal index stated) (.slot index)
  | stored {index : UInt16} {stated own inner : TypeSig} : injection.body.locals[index.toNat]? = some own →
      type = .byRef inner → own.fullName = inner.fullName →
      injection.Receives earlier type (.storeLocal index stated) (.slotAddress index)
  | carrier {kind : CarrierKind} {index : UInt16} : index.toNat = injection.body.locals.size →
      injection.woven.locals = injection.body.locals.push type →
      injection.Receives earlier type (.carrier kind) (.slot index)

/-- Code that calls the callback: what makes a carrier ready, the instance if there is one, a load for each parameter, the
call, and the rest. -/
structure Binds (injection : Injection) (code setup this loads : List Instruction) (call : Instruction)
    (rest : List Instruction) : Prop where
  split : code = setup ++ (this ++ loads) ++ call :: rest
  ready : ∀ instruction ∈ setup, instruction.source? = none
  first : this.map Instruction.source? = if injection.target.isStatic then [] else [some (.argument 0)]
  calls : call.opcode = .call ∧ call.method? = some (injection.callback.ref injection.context.targetSig)
  counted : loads.length = injection.callback.params.length
  receives : ∀ (position : Nat) (param : ParamDef) (role : ParamRole), injection.callback.params[position]? = some param →
    injection.descriptor.params[position]? = some role → ∃ (load : Instruction) (source : Source),
      loads[position]? = some load ∧ load.source? = some source ∧
      injection.Receives (injection.descriptor.params.take position) param.type role source

/-- What a parameter's type and its marker say of a local can be read back, and names no type of another module like a
mixin. -/
def Legible (injection : Injection) : Prop :=
  ∀ pair ∈ injection.patch.params.zip injection.descriptor.params, ∀ named ∈ pair.2.slot?,
    (pair.1.type.Ordinary ∧ injection.context.home.Owns pair.1.type) ∧
      named.2.Ordinary ∧ injection.context.home.Owns named.2

instance (injection : Injection) : Decidable injection.Legible :=
  inferInstanceAs (Decidable (∀ pair ∈ injection.patch.params.zip injection.descriptor.params,
    ∀ named ∈ pair.2.slot?, _))

/-- A local that a legible marker names is there, and its type is called as the stated one. -/
theorem slot_declared (targets : injection.context.home.PlainTargets) {role : ParamRole} {index : UInt16} {stated : TypeSig}
    (member : role ∈ injection.descriptor.params) (named : role.slot? = some (index, stated)) (ordinary : stated.Ordinary) :
    ∃ own, injection.body.locals[index.toNat]? = some own ∧
      own.fullName = (injection.context.home.sig stated).fullName := by
  obtain ⟨-, -, -, checked, -⟩ := injection.accepted
  have same := MixinContext.checkLocals_ok checked role member index stated named
  cases found : injection.body.locals[index.toNat]? with
  | some own =>
      rw [found] at same
      exact ⟨own, rfl, same.symm⟩
  | none =>
      rw [found] at same
      have opened : TypeSig.opens (injection.context.home.sig stated).fullName := by
        rw [same]
        decide
      exact absurd (Rehoming.opens_sig targets stated opened) (TypeSig.fullName_starts stated ordinary.plain.separable).2

/-- The target's parameters have their arguments behind the instance, if there is one. -/
theorem toNat_argument {place : Nat} (inside : place < injection.target.params.length)
    (addressed : injection.target.argumentCount ≤ UInt16.size) :
    ((if injection.site.hasThis then 1 else 0) + place.toUInt16).toNat = (!injection.target.isStatic).toNat + place := by
  have bound : (!injection.target.isStatic).toNat + place < 65536 := by
    rw [Nat.add_comm]
    exact Nat.lt_of_lt_of_le (Nat.add_lt_add_right inside _) addressed
  have first : (if injection.site.hasThis then 1 else 0 : UInt16).toNat = (!injection.target.isStatic).toNat := by
    show (if (!injection.target.isStatic) = true then 1 else 0 : UInt16).toNat = _
    cases injection.target.isStatic <;> rfl
  rw [UInt16.toNat_add, first, Nat.toUInt16, UInt16.toNat_ofNat', Nat.add_mod_mod, Nat.mod_eq_of_lt bound]

section

variable (targets : injection.context.home.PlainTargets) (params : ∀ sig ∈ injection.target.paramTypes, sig.Plain)
  (patch : ∀ sig ∈ injection.patch.paramTypes, sig.Plain)

include targets params patch

/-- The target's parameters are called as the callback's plain ones. -/
theorem fullNames_plain : TypeSig.fullNames injection.target.paramTypes =
    TypeSig.fullNames (MixinContext.plainTypes (injection.patch.paramTypes.map injection.context.home.sig)
      injection.descriptor.params) :=
  TypeSig.fullNames_of_joinNames (TypeSig.separable_of_plain params)
    (TypeSig.separable_of_plain (plainTypes_plain targets patch)) injection.names

/-- There are as many plain parameters as the target has parameters. -/
theorem length_plain : (ParamRole.plain injection.descriptor.params).length = injection.target.params.length := by
  have types : (injection.patch.paramTypes.map injection.context.home.sig).length = injection.descriptor.params.length := by
    rw [List.length_map, MethodDef.paramTypes, List.length_map, injection.accepted.2.1]
  have names := congrArg List.length (fullNames_plain targets params patch)
  rw [TypeSig.fullNames_eq_map, TypeSig.fullNames_eq_map, List.length_map, List.length_map,
    MixinContext.length_plainTypes types, MethodDef.paramTypes, List.length_map] at names
  exact names.symm

/-- Each parameter receives what its role says, from a place of its type. -/
theorem receives {config : WeaveConfig} {owner : String}
    (roles : injection.patch.params.mapM (config.paramRole owner) = .ok injection.descriptor.params)
    (legible : injection.Legible) (addressed : injection.target.argumentCount ≤ UInt16.size) {position : Nat}
    {param : ParamDef} {role : ParamRole} (held : injection.patch.params[position]? = some param)
    (plays : injection.descriptor.params[position]? = some role) :
    injection.Receives (injection.descriptor.params.take position) (injection.context.home.sig param.type) role
      (injection.site.source
        ((if injection.site.hasThis then 1 else 0) +
          (ParamRole.plain (injection.descriptor.params.take position)).length.toUInt16) role) := by
  have member := List.mem_of_getElem? plays
  have among : (param, role) ∈ injection.patch.params.zip injection.descriptor.params :=
    List.mem_of_getElem? (List.getElem?_zip_eq_some.mpr ⟨held, plays⟩)
  have marks : config.Marks param.type role := by
    obtain ⟨other, there, read⟩ := mapM_getElem? roles plays
    cases held.symm.trans there
    exact WeaveConfig.paramRole_marks read
  have typed : (injection.patch.paramTypes.map injection.context.home.sig)[position]? =
      some (injection.context.home.sig param.type) := by
    simp [MethodDef.paramTypes, held]
  cases marks with
  | argument =>
      have listed := MixinContext.getElem?_plainTypes plays typed
      have names := congrArg (·[(ParamRole.plain (injection.descriptor.params.take position)).length]?)
        (fullNames_plain targets params patch)
      simp only [TypeSig.fullNames_eq_map, List.getElem?_map, listed, Option.map_some] at names
      obtain ⟨own, there, same⟩ := Option.map_eq_some_iff.mp names
      refine .argument ?_ there same
      have less := (List.getElem?_eq_some_iff.mp there).1
      rw [MethodDef.paramTypes, List.length_map] at less
      exact toNat_argument less addressed
  | captured same =>
      obtain ⟨⟨ordinary, own⟩, ordinary', own'⟩ := legible _ among _ rfl
      obtain ⟨declared, there, named⟩ := slot_declared targets member rfl ordinary'
      exact .captured there (named.trans (Rehoming.fullName_sig_congr ordinary ordinary' own own' same).symm)
  | stored same =>
      obtain ⟨⟨ordinary, own⟩, ordinary', own'⟩ := legible _ among _ rfl
      obtain ⟨declared, there, named⟩ := slot_declared targets member rfl ordinary'
      obtain ⟨inner, is, called⟩ := TypeSig.byRef_of_fullName ordinary ordinary' same
      have plain : inner.Ordinary := show (TypeSig.byRef inner).Ordinary from is ▸ ordinary
      have inside : injection.context.home.Owns inner := show injection.context.home.Owns (.byRef inner) from is ▸ own
      rw [is]
      exact .stored there rfl (named.trans (Rehoming.fullName_sig_congr plain ordinary' inside own' called).symm)
  | carrier _ =>
      obtain ⟨kind, type, chosen, last⟩ := MixinContext.carrier?_role injection.carries plays
      cases typed.symm.trans last
      obtain ⟨slot, members, added, -, index, locals, -⟩ := injection.slot_carrier chosen
      have source (next : UInt16) (kind : CarrierKind) : injection.site.source next (.carrier kind) = .slot slot := by
        simp [CallbackSite.source, show injection.site.carrier = _ from added]
      rw [source]
      exact .carrier index (injection.woven_locals.trans locals)

end

end Injection

namespace Weaver

variable {weaver : Weaver} {mixins : List MixinDescriptor} {injection : Injection}

/-- There are as many plain parameters as the target has parameters, and all code that is injected loads for each parameter
of the callback, in their order, what its role says, from a place whose type is called as the parameter's. -/
theorem callback_bound (read : weaver.descriptors = .ok mixins) (distinct : (weaver.mixins.types.map TypeDef.fullName).Nodup)
    (plainly : weaver.PlainlyNamed mixins) (injects : weaver.Injects mixins injection) (legible : injection.Legible)
    (addressed : injection.target.argumentCount ≤ UInt16.size) :
    injection.descriptor.params.length = injection.callback.params.length ∧
      (ParamRole.plain injection.descriptor.params).length = injection.target.params.length ∧
      ∀ code, injection.Inserts code → ∃ setup this loads call rest,
        injection.Binds code.toList setup this loads call rest := by
  obtain ⟨-, -, owner, roles⟩ := injects.roles read distinct
  have works := injects.works
  have targets := works.plainTargets plainly.names
  have params := (works.reaches_methods plainly.step plainly.target _ (List.mem_of_getElem? injection.held)).params
  have patch := (plainly.patches _ works.mixinDef _ (List.mem_of_getElem? injection.patched)).params
  have count : injection.descriptor.params.length = injection.callback.params.length := by
    rw [injection.callback_params, injection.accepted.2.1]
  refine ⟨count, Injection.length_plain targets params patch, ?_⟩
  rintro code ⟨earlier, point, later, body, after, -, -, built⟩
  rw [CallbackSite.build_ok] at built
  cases built
  obtain ⟨setup, loads, call, rest, split, ready, sources, calls⟩ :=
    injection.site.codeBy_split injection.cancel body.upcoming
  obtain ⟨this, values, rfl, first, others⟩ := injection.site.sources_split sources
  have filled := congrArg List.length others
  rw [List.length_map, List.length_map, CallbackSite.length_paramSources] at filled
  refine ⟨setup, this, values, call, rest, split, ready, ?_, calls, filled.trans count, ?_⟩
  · rw [first]
    show (if (!injection.target.isStatic) = true then _ else _) = _
    cases injection.target.isStatic <;> rfl
  · intro position param role held plays
    obtain ⟨old, there, rfl⟩ := Option.map_eq_some_iff.mp ((List.getElem?_map ..).symm.trans held)
    have among : injection.site.params[position]? = some role := plays
    have loaded := congrArg (·[position]?) others
    simp only [List.getElem?_map, CallbackSite.getElem?_paramSources among, Option.map_some] at loaded
    obtain ⟨load, placed, same⟩ := Option.map_eq_some_iff.mp loaded
    exact ⟨load, _, placed, same, Injection.receives targets params patch roles legible addressed there plays⟩

end Weaver

namespace Tally

/-- A method that keeps its argument in a local. -/
def code : Body :=
  ⟨8, true, #[.primitive .int32], #[⟨0, .ldarg1, .none⟩, ⟨1, .stloc0, .none⟩, ⟨2, .ldloc0, .none⟩,
    ⟨3, .ret, .none⟩], 0⟩

def test : MethodDef := { Leak.test with flags := ⟨0⟩, body := some code }

def type : TypeDef := { TypeDef.empty "" "T" ⟨0⟩ none with methods := [test] }

def target : Module := ⟨"Game", [], [type]⟩

def total : ParamDef :=
  ⟨"total", .byRef (.primitive .int32), [Leak.marked .storeLocal [.int32 0, .type (some "System.Int32")]]⟩

def seen : ParamDef := ⟨"seen", .primitive .int32, [Leak.marked .captureLocal [.int32 0, .type (some "System.Int32")]]⟩

/-- A callback that is given the local twice, the argument, and a carrier. -/
def count : MethodDef :=
  ⟨"count", ⟨0⟩, .void, [total, Leak.number, seen, Leak.carrier], some Deeper.nothing,
    [Leak.marked .inject [.string (some "System.Int32 T::Test(System.Int32)"), .string (some "HEAD"), .bool true]]⟩

def mixinType : TypeDef :=
  { TypeDef.empty "" "M" ⟨0⟩ none with methods := [count], attributes := [Leak.marked .mixin [.type (some "T")]] }

def weaver : Weaver := .new .standard target ⟨"Mods", [], [mixinType]⟩ ⟨[]⟩

def descriptor : InjectDescriptor :=
  ⟨0, "count", "System.Int32 T::Test(System.Int32)", .head, true, .return, 1,
    [.storeLocal 0 (.primitive .int32), .argument, .captureLocal 0 (.primitive .int32),
      .carrier (.typed (.primitive .int32))]⟩

def mixin : MixinDescriptor := ⟨"M", .type "T", 0, [], [.inject descriptor]⟩

theorem read : weaver.descriptors = .ok [mixin] := ok_of_toOption (by decide +kernel)

def context : MixinContext :=
  ⟨mixin, mixinType, "T", type.sig, ⟨.standard, "Mods", "Game", "M", Weaver.targets [mixin], .empty⟩⟩

def before : PatchState := ⟨type, ⟨"M", "T", 0, 0, 0, 0, []⟩, []⟩

def after : PatchState := (context.applyInject descriptor before).toOption.getD before

theorem applied : context.applyInject descriptor before = .ok after := ok_of_isOk before (by decide +kernel)

def injection : Injection :=
  .of applied 0 count test code (some (.typed (.primitive .int32), context.home.sig Leak.carrier.type)) (.return true)
    rfl rfl rfl rfl rfl rfl

theorem injects : weaver.Injects [mixin] injection :=
  ⟨[], mixin, [], [], target, .empty, rfl, rfl, 0, type, mixinType, before, .empty, [], [], rfl, rfl, rfl, rfl⟩

theorem plainly : weaver.PlainlyNamed [mixin] := by
  refine ⟨by decide +kernel, ?_, ?_⟩ <;> unfold Module.EachMethod <;> decide +kernel

/-- The local's address, the argument, the local's value and the carrier are what the callback is given. -/
theorem callback_bound_count :
    weaver.apply.1.isOk = true ∧ weaver.descriptors = .ok [mixin] ∧ weaver.Injects [mixin] injection ∧
      weaver.PlainlyNamed [mixin] ∧ injection.Legible ∧ injection.target.argumentCount ≤ UInt16.size ∧
      injection.site.sources = [.argument 0, .slotAddress 0, .argument 1, .slot 0, .slot 1] ∧
      (ParamRole.plain injection.descriptor.params).length = 1 ∧
      ∃ code, injection.Inserts code ∧ ∃ setup this loads call rest,
        injection.Binds code.toList setup this loads call rest := by
  have legible : injection.Legible := by decide +kernel
  have addressed : injection.target.argumentCount ≤ UInt16.size := by decide +kernel
  obtain ⟨-, plain, bound⟩ := Weaver.callback_bound read (by decide +kernel) plainly injects legible addressed
  have inserts : injection.Inserts (injection.site.codeBy injection.cancel injection.original.upcoming).toArray :=
    ⟨[], 0, [], injection.original, _, by decide +kernel, rfl, injection.site.build_ok _ _⟩
  exact ⟨by decide +kernel, read, injects, plainly, legible, addressed, by decide +kernel, plain, _, inserts, bound _ inserts⟩

end Tally

namespace Absent

/-- A name in the text that stands for a local that is not there. -/
def nowhere : ParamDef :=
  ⟨"x", .classType ⟨none, "", "<absent>"⟩, [Leak.marked .captureLocal [.int32 0, .type (some "<absent>")]]⟩

def carrier : ParamDef := ⟨"info", .classType ⟨some "DotMixin", "DotMixin", Marker.plainCarrier⟩, []⟩

def peek : MethodDef :=
  ⟨"peek", ⟨MethodFlags.isStatic⟩, .void, [nowhere, carrier], some Deeper.nothing,
    [Leak.marked .inject [.string (some "System.Void T::Reset()"), .string (some "HEAD"), .bool true]]⟩

def mixinType : TypeDef :=
  { TypeDef.empty "" "M" ⟨0⟩ none with methods := [peek], attributes := [Leak.marked .mixin [.type (some "T")]] }

def target : Module := ⟨"Game", [], [{ TypeDef.empty "" "T" ⟨0⟩ none with methods := [Deeper.reset] }]⟩

def weaver : Weaver := .new .standard target ⟨"Mods", [], [mixinType]⟩ ⟨[]⟩

/-- What the code of each body loads, and the locals it has. -/
def loads (module : Module) : List (List Source × List String) :=
  module.types.flatMap fun type => type.methods.filterMap fun method => method.body.map fun body =>
    (body.instructions.toList.filterMap Instruction.source?, body.locals.toList.map TypeSig.fullName)

/-- A callback captures a local of a body that has none, and is given the local that was added for the carrier. -/
theorem absent_captured :
    (weaver.descriptors.toOption.getD []).map (fun mixin => mixin.ops) =
        [[.inject ⟨0, "peek", "System.Void T::Reset()", .head, true, .return, 1,
          [.captureLocal 0 (.classType ⟨none, "", "<absent>"⟩), .carrier .plain]⟩]] ∧
      loads target = [([], [])] ∧ weaver.apply.1.isOk = true ∧
      loads weaver.apply.2.target = [([.slot 0, .slot 0, .slot 0], ["DotMixin.CallbackInfo"]), ([], [])] :=
  ⟨by decide +kernel, by decide +kernel, by decide +kernel, by decide +kernel⟩

end Absent

end CilWeave
