import CilWeave.Proofs.Mixin.Calls

/-!
Injections that are made once more, by a mixin among others, into bodies that more code has been woven into. What goes by
names and signatures is as it was, so only what the bodies hold may stand in their way.
-/

namespace CilWeave

open Stateful

mutual

theorem TypeSig.mapRefs_congr {rename other : TypeRef → TypeRef} (sig : TypeSig)
    (agree : ∀ reference ∈ sig.refs, rename reference = other reference) : sig.mapRefs rename = sig.mapRefs other := by
  cases sig with
  | classType reference | valueType reference => rw [mapRefs, mapRefs, agree reference (by simp [refs])]
  | generic reference arguments =>
      rw [mapRefs, mapRefs, agree reference (by simp [refs]),
        mapRefsAll_congr arguments fun reference member => agree reference (by simp [refs, member])]
  | byRef target => rw [mapRefs, mapRefs, mapRefs_congr target agree]
  | array element => rw [mapRefs, mapRefs, mapRefs_congr element agree]
  | primitive | typeParam | methodParam => rfl

theorem TypeSig.mapRefsAll_congr {rename other : TypeRef → TypeRef} (sigs : List TypeSig)
    (agree : ∀ reference ∈ refsAll sigs, rename reference = other reference) :
    mapRefsAll rename sigs = mapRefsAll other sigs := by
  cases sigs with
  | nil => rfl
  | cons sig rest =>
      rw [mapRefsAll, mapRefsAll, mapRefs_congr sig fun reference member => agree reference (by simp [refsAll, member]),
        mapRefsAll_congr rest fun reference member => agree reference (by simp [refsAll, member])]

end

/-- The types that a role states. -/
def ParamRole.sigs : ParamRole → List TypeSig
  | .captureLocal _ type | .storeLocal _ type => [type]
  | .carrier (.typed value) => [value]
  | _ => []

/-- The types that an injection's callback names in its signature and its roles. -/
def InjectDescriptor.sigs (descriptor : InjectDescriptor) (patch : MethodDef) : List TypeSig :=
  patch.returns :: patch.paramTypes ++ descriptor.params.flatMap ParamRole.sigs

/-- The same settings with the types of other mixins. -/
def Rehoming.among (home : Rehoming) (types : Table String) : Rehoming := { home with types }

/-- A reference that is not local to the mixins, or names a type with the same target, is moved alike. -/
theorem Rehoming.sig_among {home : Rehoming} {types : Table String} {sig : TypeSig}
    (same : ∀ reference ∈ sig.refs, home.isMixinLocal reference.scope = true →
      types.get? reference.fullName = home.types.get? reference.fullName) : (home.among types).sig sig = home.sig sig := by
  refine TypeSig.mapRefs_congr sig fun reference member => ?_
  unfold typeRef
  by_cases local_ : home.isMixinLocal reference.scope = true
  · have kept : (home.among types).isMixinLocal reference.scope = true := local_
    rw [if_pos kept, if_pos local_, ← same reference member local_]
    rfl
  · have kept : ¬(home.among types).isMixinLocal reference.scope = true := local_
    rw [if_neg kept, if_neg local_]
    rfl

namespace MixinContext

/-- The same mixin among others. -/
def among (context : MixinContext) (types : Table String) : MixinContext := { context with home := context.home.among types }

variable {context : MixinContext} {types : Table String} {descriptor : InjectDescriptor} {state : PatchState}
  {patch target : MethodDef} {carrier : Option (CarrierKind × TypeSig)} {index : Nat} {body : Body}

theorem checkLocals_among {name : String} {roles : List ParamRole}
    (agree : ∀ sig ∈ roles.flatMap ParamRole.sigs, (context.home.among types).sig sig = context.home.sig sig) :
    (context.among types).checkLocals patch name body roles = context.checkLocals patch name body roles := by
  induction roles with
  | nil => rfl
  | cons role rest ih =>
      have later := ih fun sig member => agree sig (by simp [member])
      cases role with
      | argument | carrier => exact later
      | captureLocal slot type | storeLocal slot type =>
          have moved : (context.among types).home.sig type = context.home.sig type := agree type (by simp [ParamRole.sigs])
          simp only [checkLocals, later, moved]
          rfl

end MixinContext

/-- An injection of a mixin is refused for what the body holds: the places, the cancel target and the locals are looked for
there, and there may be no room for another local. -/
inductive WeaveFault.Unfit (mixin : String) : WeaveFault → Prop
  | locals (index : UInt16) (expected found method patch : String) :
      Unfit mixin (.localTypeMismatch index expected found method patch mixin)
  | count (expected found : Nat) (method patch : String) : Unfit mixin (.injectionCount expected found method patch mixin)
  | cancel (line method patch : String) : Unfit mixin (.cancelTargetNotFound line method patch mixin)
  | room : Unfit mixin (.body .tooManyLocals)

namespace MixinContext

variable {context : MixinContext} {types : Table String} {descriptor : InjectDescriptor} {state : PatchState}
  {patch target : MethodDef} {carrier : Option (CarrierKind × TypeSig)} {index : Nat} {body : Body}

/-- What an injection has passed before the body of its target is looked at. -/
structure Admits (context : MixinContext) (descriptor : InjectDescriptor) (state : PatchState)
    (index : Nat) (patch target : MethodDef)
    (carrier : Option (CarrierKind × TypeSig)) : Prop where
  patched : context.mixinDef.methods[descriptor.methodIndex]? = some patch
  named : state.type.methodIndex? descriptor.targetMethod = some index
  held : state.type.methods[index]? = some target
  static : target.isStatic = patch.isStatic
  count : patch.params.length = descriptor.params.length
  names : TypeSig.joinNames target.paramTypes =
    TypeSig.joinNames (plainTypes (patch.paramTypes.map context.home.sig) descriptor.params)
  chosen : context.carrier? patch (patch.paramTypes.map context.home.sig) descriptor = .ok carrier
  fits : ∀ kind type, carrier = some (kind, type) → context.carrierFits kind target.returns = true

/-- What is left to be checked of an injection. -/
def planBody (context : MixinContext) (descriptor : InjectDescriptor) (index : Nat) (patch target : MethodDef)
    (carrier : Option (CarrierKind × TypeSig)) (body : Body) : Except WeaveFault InjectPlan := do
  context.checkLocals patch descriptor.targetMethod body descriptor.params
  let points := body.locate descriptor.location
  if points.length ≠ descriptor.expected then
    throw (.injectionCount descriptor.expected points.length descriptor.targetMethod patch.name context.mixin.mixinType)
  let cancel ← context.cancelAction patch descriptor.targetMethod body target.returns carrier.isSome descriptor.cancelTarget
  return ⟨patch, index, !target.isStatic, body, carrier.map (·.2), points, cancel,
    checkedRefs patch carrier target.returns descriptor.params⟩

theorem Admits.planInject (admits : context.Admits descriptor state index patch target carrier)
    (defined : target.body = some body) :
    context.planInject descriptor state = context.planBody descriptor index patch target carrier body := by
  obtain ⟨patched, named, held, static, count, names, chosen, fits⟩ := admits
  have found : context.patchMethod descriptor.methodIndex = .ok patch := by rw [patchMethod, patched]
  have same : (target.isStatic != patch.isStatic) = false := by rw [static, bne_self_eq_false]
  unfold MixinContext.planInject planBody
  simp only [found, named, held, defined, same, count, names, chosen, bind, Except.bind, ne_eq, not_true_eq_false, if_false,
    Bool.false_eq_true]
  cases carrier with
  | none => rfl
  | some carrier =>
      have fit := fits carrier.1 carrier.2 rfl
      simp only [fit, Bool.not_true, Bool.false_eq_true, if_false]

/-- What was passed by names and signatures is passed again by the same method with any body. -/
theorem Admits.among (admits : context.Admits descriptor state index patch target carrier)
    (agree : ∀ sig ∈ descriptor.sigs patch, (context.home.among types).sig sig = context.home.sig sig) {other : PatchState}
    {position : Nat} {twin : MethodDef} (named : other.type.methodIndex? descriptor.targetMethod = some position)
    (held : other.type.methods[position]? = some twin) (alike : target.Alike twin) :
    (context.among types).Admits descriptor other position patch twin carrier := by
  obtain ⟨_, rfl⟩ := alike
  have moved : patch.paramTypes.map (context.home.among types).sig = patch.paramTypes.map context.home.sig :=
    List.map_congr_left fun sig member => agree sig (by simp [InjectDescriptor.sigs, member])
  refine ⟨admits.patched, named, held, admits.static, admits.count, ?_, ?_, fun kind type is => ?_⟩
  · exact admits.names.trans (by rw [← moved]; rfl)
  · exact (congrArg (fun sigs => context.carrier? patch sigs descriptor) moved).trans admits.chosen
  · subst is
    have fits := admits.fits kind type rfl
    obtain ⟨earlier, params, -⟩ := carrier?_last admits.chosen
    cases kind with
    | plain => exact fits
    | typed value =>
        have own : (context.home.among types).sig value = context.home.sig value :=
          agree value (by simp [InjectDescriptor.sigs, params, ParamRole.sigs])
        show (_ && ((context.home.among types).sig value).fullName == _) = true
        rw [own]
        exact fits

/-- Locals are the types that are stated, or the injection is refused. -/
theorem checkLocals_outcome (context : MixinContext) (patch : MethodDef) (name : String) (body : Body)
    (roles : List ParamRole) :
    context.checkLocals patch name body roles = .ok () ∨
      ∃ fault, context.checkLocals patch name body roles = .error fault ∧ fault.Unfit context.mixin.mixinType := by
  induction roles with
  | nil => exact .inl rfl
  | cons role rest ih =>
      cases role with
      | argument | carrier => exact ih
      | captureLocal slot type | storeLocal slot type =>
          simp only [checkLocals]
          split
          · exact ih
          · exact .inr ⟨_, rfl, .locals ..⟩

theorem cancelAction_outcome (context : MixinContext) (patch : MethodDef) (name : String) (body : Body) (returns : TypeSig)
    (cancellable : Bool) (goal : CancelTarget) :
    (∃ cancel, context.cancelAction patch name body returns cancellable goal = .ok cancel) ∨
      ∃ fault, context.cancelAction patch name body returns cancellable goal = .error fault ∧
        fault.Unfit context.mixin.mixinType := by
  unfold cancelAction
  split
  · split
    · exact .inl ⟨_, rfl⟩
    · exact .inr ⟨_, rfl, .cancel ..⟩
  · exact .inl ⟨_, rfl⟩

/-- A body lets an injection be made or refuses it. -/
theorem planBody_outcome (context : MixinContext) (descriptor : InjectDescriptor) (index : Nat) (patch target : MethodDef)
    (carrier : Option (CarrierKind × TypeSig)) (body : Body) :
    (∃ plan, context.planBody descriptor index patch target carrier body = .ok plan ∧ plan.body = body ∧
        plan.points = body.locate descriptor.location) ∨
      ∃ fault, context.planBody descriptor index patch target carrier body = .error fault ∧
        fault.Unfit context.mixin.mixinType := by
  unfold planBody
  rcases context.checkLocals_outcome patch descriptor.targetMethod body descriptor.params with locals |
    ⟨fault, failed, unfit⟩
  · rw [locals]
    by_cases count : (body.locate descriptor.location).length = descriptor.expected
    · rcases context.cancelAction_outcome patch descriptor.targetMethod body target.returns carrier.isSome
        descriptor.cancelTarget with ⟨cancel, chosen⟩ | ⟨fault, failed, unfit⟩
      · refine .inl ⟨⟨patch, index, !target.isStatic, body, carrier.map (·.2), body.locate descriptor.location, cancel,
          checkedRefs patch carrier target.returns descriptor.params⟩, ?_, rfl, rfl⟩
        simp only [count, chosen, bind, Except.bind, ne_eq, not_true_eq_false, if_false]
        rfl
      · refine .inr ⟨fault, ?_, unfit⟩
        simp only [count, failed, bind, Except.bind, ne_eq, not_true_eq_false, if_false]
    · refine .inr ⟨_, ?_, .count descriptor.expected (body.locate descriptor.location).length
        descriptor.targetMethod patch.name⟩
      simp only [bind, Except.bind, ne_eq, count, not_false_eq_true, if_true]
      rfl
  · rw [failed]
    exact .inr ⟨fault, rfl, unfit⟩

end MixinContext

/-- The first methods of a type, as many as there are, are those of another one up to what may differ. -/
structure TypeDef.Matches (count : Nat) (kept : MethodDef → MethodDef → Prop) (type other : TypeDef) : Prop where
  fullName : other.fullName = type.fullName
  room : count ≤ type.methods.length
  methods : Persist kept (type.methods.take count) other.methods

namespace TypeDef.Matches

variable {count index : Nat} {kept : MethodDef → MethodDef → Prop} {type other : TypeDef} {name : String}
    {method : MethodDef}

theorem twin (matched : type.Matches count kept other) (inside : index < count) (held : type.methods[index]? = some method) :
    ∃ twin, other.methods[index]? = some twin ∧ kept method twin :=
  matched.methods index method (by rw [List.getElem?_take_of_lt inside, held])

/-- A name that finds one of the methods finds its like. -/
theorem methodIndex? (matched : type.Matches count kept other) (alike : ∀ method twin, kept method twin → method.Alike twin)
    (named : type.methodIndex? name = some index) (inside : index < count) : other.methodIndex? name = some index := by
  obtain ⟨within, found, before⟩ := List.findIdx?_eq_some_iff_getElem.mp named
  have same {position : Nat} (early : position < count) (less : position < type.methods.length) :
      ∃ late : position < other.methods.length, (other.methods[position].fullNameIn other.fullName == name) =
        (type.methods[position].fullNameIn type.fullName == name) := by
    obtain ⟨twin, there, own⟩ := matched.twin early (List.getElem?_eq_getElem less)
    obtain ⟨late, here⟩ := List.getElem?_eq_some_iff.mp there
    obtain ⟨body, rfl⟩ := alike _ _ own
    refine ⟨late, ?_⟩
    rw [here, matched.fullName]
    rfl
  obtain ⟨late, own⟩ := same inside within
  refine List.findIdx?_eq_some_iff_getElem.mpr ⟨late, own.trans found, fun earlier less => ?_⟩
  obtain ⟨_, own⟩ := same (Nat.lt_trans less inside) (Nat.lt_trans less within)
  rw [own]
  exact before earlier less

/-- Both types get a method at their end, and other bodies for methods in one place. -/
theorem modify (matched : type.Matches count kept other) (added more : MethodDef) {change alter : MethodDef → MethodDef}
    (keeps : ∀ method twin, kept method twin → kept (change method) (alter twin)) :
    TypeDef.Matches count kept { type with methods := (type.methods ++ [added]).modify index change }
      { other with methods := (other.methods ++ [more]).modify index alter } := by
  refine ⟨matched.fullName, ?_, fun position method held => ?_⟩
  · rw [List.length_modify, List.length_append]
    exact Nat.le_add_right_of_le matched.room
  · have inside : position < count := by
      have within := (List.getElem?_eq_some_iff.mp held).1
      exact Nat.lt_of_lt_of_le within (List.length_take_le _ _)
    rw [List.getElem?_take_of_lt inside, List.getElem?_modify,
      List.getElem?_append_left (Nat.lt_of_lt_of_le inside matched.room)] at held
    obtain ⟨old, own, rfl⟩ := Option.map_eq_some_iff.mp held
    obtain ⟨twin, there, like⟩ := matched.twin inside own
    rw [List.getElem?_modify, List.getElem?_append_left (List.getElem?_eq_some_iff.mp there).1, there]
    by_cases here : index = position
    · exact ⟨alter twin, by simp [here], by simpa [here] using keeps old twin like⟩
    · exact ⟨twin, by simp [here], by simpa [here] using like⟩

end TypeDef.Matches

namespace Injection

variable (injection : Injection)

theorem admits : injection.context.Admits injection.descriptor injection.before injection.index injection.patch injection.target
    injection.carrier := by
  obtain ⟨static, count, fits, -⟩ := injection.accepted
  exact ⟨injection.patched, injection.named, injection.held, static, count, injection.names, injection.carries,
    fun kind type is => (fits kind type is).1⟩

/-- What an injection makes of its type. -/
theorem after_type : injection.after.type =
    { injection.before.type with
      methods := (injection.before.type.methods ++ [injection.callback]).modify injection.index
        fun method => { method with body := some injection.woven } } := by
  obtain ⟨-, -, -, -, -, -, -, type⟩ := injection.accepted
  exact type

variable {injection} {types : Table String} {other : PatchState} {count : Nat}
  (agree : ∀ sig ∈ injection.descriptor.sigs injection.patch,
    (injection.context.home.among types).sig sig = injection.context.home.sig sig)
  (inside : injection.index < count)

include agree inside

/-- An injection that was accepted once is refused among other mixins only for what the body holds then. -/
theorem again (matched : injection.before.type.Matches count MethodDef.Keeps other.type) :
    (∃ after, (injection.context.among types).applyInject injection.descriptor other = .ok after ∧
        injection.after.type.Matches count MethodDef.Keeps after.type) ∨
      ∃ fault, (injection.context.among types).applyInject injection.descriptor other = .error fault ∧
        fault.Unfit injection.context.mixin.mixinType := by
  have named := matched.methodIndex? (fun _ _ kept => kept.1) injection.named inside
  obtain ⟨twin, held, alike, kept⟩ := matched.twin inside injection.held
  obtain ⟨body, code⟩ := Option.isSome_iff_exists.mp (kept (by rw [injection.defined]; rfl))
  have planned := (injection.admits.among agree named held alike).planInject code
  rcases (injection.context.among types).planBody_outcome injection.descriptor injection.index injection.patch twin
    injection.carrier body with ⟨plan, fits, same, points⟩ | ⟨fault, failed, unfit⟩
  · rcases MixinContext.applyInject_of_plan (planned.trans fits) (by rw [points, same]) with ⟨after, made⟩ | full
    · refine .inl ⟨after, made, ?_⟩
      obtain ⟨next, own, asked, before, rfl⟩ := Injection.of_applied made
      have place : next.index = injection.index := by
        have found := next.named
        rw [asked, before, named] at found
        exact (Option.some.inj found).symm
      rw [injection.after_type, next.after_type, place, before]
      refine matched.modify _ _ fun method twin keeps => ?_
      obtain ⟨⟨_, rfl⟩, -⟩ := keeps
      exact ⟨⟨some next.woven, rfl⟩, fun _ => rfl⟩
    · exact .inr ⟨_, full, .room⟩
  · refine .inr ⟨fault, ?_, unfit⟩
    rw [MixinContext.applyInject, planned, failed]
    rfl

omit inside in
/-- The same body lets the injection be planned among other mixins as it was planned alone. -/
theorem planBody_among : (injection.context.among types).planBody injection.descriptor injection.index injection.patch
    injection.target injection.carrier injection.body = injection.context.planBody injection.descriptor injection.index
      injection.patch injection.target injection.carrier injection.body := by
  unfold MixinContext.planBody
  rw [MixinContext.checkLocals_among fun sig member => agree sig (List.mem_append_right _ member)]
  rfl

omit inside in
/-- Among other mixins and with the same names of methods, the callback gets the same name and is referred to by the same
types. -/
theorem ported_ref_among (names : other.type.methods.map (·.name) = injection.before.type.methods.map (·.name)) :
    ((injection.context.among types).ported other injection.patch).ref injection.context.targetSig =
      (injection.context.ported injection.before injection.patch).ref injection.context.targetSig := by
  have returns : (injection.context.home.among types).sig injection.patch.returns =
      injection.context.home.sig injection.patch.returns :=
    agree _ (by simp [InjectDescriptor.sigs])
  have params : injection.patch.paramTypes.map (injection.context.home.among types).sig =
      injection.patch.paramTypes.map injection.context.home.sig :=
    List.map_congr_left fun sig member => agree sig (by simp [InjectDescriptor.sigs, member])
  have moved (home : Rehoming) (name : String) (flags : MethodFlags) :
      (home.method injection.patch name flags).paramTypes = injection.patch.paramTypes.map home.sig := by
    simp [MethodDef.paramTypes, Rehoming.method, Rehoming.param]
  rw [MethodDef.ref, MethodDef.ref, MixinContext.ported, MixinContext.ported, moved, moved, names]
  show MethodRef.mk _ _ ((injection.context.home.among types).sig injection.patch.returns)
    (injection.patch.paramTypes.map (injection.context.home.among types).sig) _ = _
  rw [returns, params]
  rfl

/-- An injection is made among other mixins as it was made once if the bodies are the same. -/
theorem echo (matched : injection.before.type.Matches count Eq other.type)
    (names : other.type.methods.map (·.name) = injection.before.type.methods.map (·.name)) :
    ∃ after, (injection.context.among types).applyInject injection.descriptor other = .ok after ∧
      injection.after.type.Matches count Eq after.type ∧
      after.type.methods.map (·.name) = injection.after.type.methods.map (·.name) := by
  have named := matched.methodIndex? (fun _ _ same => same ▸ .refl _) injection.named inside
  obtain ⟨twin, held, rfl⟩ := matched.twin inside injection.held
  have planned := (injection.admits.among agree named held (.refl _)).planInject injection.defined
  have once := injection.admits.planInject injection.defined
  obtain ⟨plan, slot, original, spliced, first, carried, ran, type⟩ := MixinContext.applyInject_ok injection.applied
  rw [planBody_among agree, ← once, first] at planned
  have patch : plan.patch = injection.patch := by
    obtain ⟨-, -, patched, -⟩ := MixinContext.planInject_ok first
    exact Option.some.inj (patched.symm.trans injection.patched)
  have called : ((injection.context.among types).ported other plan.patch).ref injection.context.targetSig =
      (injection.context.ported injection.before plan.patch).ref injection.context.targetSig :=
    patch ▸ ported_ref_among agree names
  obtain ⟨after, made⟩ := MixinContext.applyInject_made planned carried
    (by rw [show (injection.context.among types).targetSig = injection.context.targetSig from rfl, called]; exact ran)
  obtain ⟨plan', slot', original', spliced', first', carried', ran', type'⟩ := MixinContext.applyInject_ok made
  cases Except.ok.inj (first'.symm.trans planned)
  cases Except.ok.inj (carried'.symm.trans carried)
  rw [show (injection.context.among types).targetSig = injection.context.targetSig from rfl, called, ran] at ran'
  cases ran'
  refine ⟨after, made, ?_, ?_⟩
  · rw [type, type']
    exact matched.modify _ _ fun method twin same => same ▸ rfl
  · have blind (methods : List MethodDef) : (methods.modify plan.index fun method =>
        { method with body := some spliced.relax.2 }).map (·.name) = methods.map (·.name) :=
      map_modify_of_blind (·.name) (by intro; rfl) methods plan.index
    rw [type, type', blind, blind, List.map_append, List.map_append, names]
    congr 1
    have own := congrArg MethodRef.name called
    exact congrArg (fun name : String => [name]) own

end Injection

end CilWeave
