import CilWeave.Mixin.Weave
import CilWeave.Proofs.Stateful

/-!
What accepted operations of a mixin have checked and done, one after the other: fields that are mapped, methods that are
moved for an interface, bodies that are replaced, and callbacks that are injected.
-/

namespace CilWeave

open Stateful

/-- The later account of a mixin is for the same target, and these methods were touched since. -/
def AppliedMixin.Touches (applied : AppliedMixin) (names : List String) (later : AppliedMixin) : Prop :=
  later.targetType = applied.targetType ∧ later.touched = applied.touched ++ names

/-- The interfaces of a type with another one, unless one of its name is there. -/
def TypeDef.interfacesWith (type : TypeDef) (interface : TypeSig) : List TypeSig :=
  if type.implements interface then type.interfaces else type.interfaces ++ [interface]

theorem TypeDef.field?_name {type : TypeDef} {name : String} {field : FieldDef} (found : type.field? name = some field) :
    field.name = name := by
  have holds := List.find?_some found
  exact eq_of_beq holds

namespace MixinContext

variable {context : MixinContext} {state after : PatchState}

/-- A field of the mixin as the target gets it. -/
def newField (context : MixinContext) (own : FieldDef) : FieldDef :=
  ⟨own.name, own.flags, context.home.sig own.type, context.home.attributes own.attributes⟩

/-- The state after a field of the mixin is added. -/
def withField (context : MixinContext) (state : PatchState) (own : FieldDef) : PatchState :=
  PatchState.see
    { state with
      type := { state.type with fields := state.type.fields ++ [context.newField own] }
      applied := { state.applied with fieldsAdded := state.applied.fieldsAdded + 1 } }
    (own.type.refs ++ context.home.attributeRefs own.attributes)

/-- How a field of the mixin is mapped: it stands for a field of the type, or for one that is added. -/
inductive MapsField (context : MixinContext) (state : PatchState) :
    FieldDescriptor → PatchState → String → FieldRef → Prop
  | captured {own existing : FieldDef} (found : context.mixinDef.field? own.name = some own)
      (there : state.type.field? existing.name = some existing) :
      MapsField context state (.capture own.name existing.name) state own.name (existing.ref context.targetSig)
  | added {own : FieldDef} (found : context.mixinDef.field? own.name = some own)
      (free : ¬(state.type.field? own.name).isSome = true) :
      MapsField context state (.add own.name) (context.withField state own) own.name
        ((context.newField own).ref context.targetSig)

theorem mapField_iff {descriptor : FieldDescriptor} {name : String} {field : FieldRef} :
    context.mapField state descriptor = .ok (after, name, field) ↔ context.MapsField state descriptor after name field := by
  constructor
  · intro mapped
    unfold mapField at mapped
    split at mapped
    · rename_i own found
      have called : own.name = descriptor.field := TypeDef.field?_name found
      rw [← called] at found
      dsimp only at mapped
      split at mapped
      · split at mapped
        · rename_i existing there
          have same := TypeDef.field?_name there
          cases mapped
          cases called
          subst same
          exact .captured found there
        · cases mapped
      · obtain ⟨free, mapped⟩ := check_ok mapped
        cases mapped
        cases called
        exact .added found free
    · cases mapped
  · rintro (⟨found, there⟩ | ⟨found, free⟩)
    · simp only [mapField, FieldDescriptor.field, found, there]
      rfl
    · simp only [mapField, FieldDescriptor.field, found, if_neg free]
      rfl

/-- The mixin's method for a method of an interface: the first of its name and of parameters called as its own. -/
def answer? (context : MixinContext) (asked : MethodDef) : Option MethodDef :=
  context.mixinDef.methods.find? fun method =>
    method.name == asked.name && TypeSig.joinNames method.paramTypes == TypeSig.joinNames asked.paramTypes

/-- What moving methods for an interface does: each is made from the mixin's answer, and the answers were looked at. -/
structure Implemented (context : MixinContext) (state : PatchState) (asked : List MethodDef) (after : PatchState)
    (methods : List MethodDef) (answers : List (MethodDef × MethodDef)) : Prop where
  asked : answers.map Prod.fst = asked
  answered : ∀ answer ∈ answers, context.answer? answer.1 = some answer.2 ∧ answer.2.body.isSome = true
  made : methods = answers.map fun answer => context.home.method answer.2 answer.1.name .interfaceImplementation
  looked : after = state.see (answers.flatMap fun answer => context.home.methodRefs answer.2)

theorem portInterfaceMethod_ok {interface : TypeDef} {asked method : MethodDef}
    (ported : context.portInterfaceMethod interface asked state = .ok (after, method)) :
    ∃ patch, context.answer? asked = some patch ∧ patch.body.isSome = true ∧
      method = context.home.method patch asked.name .interfaceImplementation ∧
      after = state.see (context.home.methodRefs patch) := by
  unfold portInterfaceMethod at ported
  dsimp only at ported
  split at ported
  · rename_i patch found
    obtain ⟨-, ported⟩ := check_ok ported
    cases ported
    obtain ⟨found, defined⟩ := Option.filter_eq_some_iff.mp found
    exact ⟨patch, found, defined, rfl, rfl⟩
  · cases ported

theorem portInterfaceMethods_ok {interface : TypeDef} {asked methods : List MethodDef}
    (ported : context.portInterfaceMethods interface asked state = .ok (after, methods)) :
    ∃ answers, context.Implemented state asked after methods answers := by
  induction asked generalizing state methods with
  | nil =>
      cases ported
      exact ⟨[], rfl, nofun, rfl, by simp [PatchState.see]⟩
  | cons head rest ih =>
      obtain ⟨⟨middle, first⟩, one, ported⟩ := bind_ok ported
      obtain ⟨⟨last, others⟩, later, ported⟩ := bind_ok ported
      cases ported
      obtain ⟨patch, found, defined, rfl, rfl⟩ := portInterfaceMethod_ok one
      obtain ⟨answers, implemented⟩ := ih later
      refine ⟨(head, patch) :: answers, ?_, ?_, ?_, ?_⟩
      · rw [List.map_cons, implemented.asked]
      · exact List.forall_mem_cons.mpr ⟨⟨found, defined⟩, implemented.answered⟩
      · rw [List.map_cons, implemented.made]
      · rw [implemented.looked, List.flatMap_cons]
        simp only [PatchState.see, List.append_assoc]

theorem foldl_addTouched (methods : List MethodDef) (state : PatchState) :
    methods.foldl PatchState.addTouched state =
      { state with
        type := { state.type with methods := state.type.methods ++ methods }
        applied :=
          { state.applied with
            touched := state.applied.touched ++ methods.map fun method => method.fullNameIn state.type.fullName } } := by
  induction methods generalizing state with
  | nil => simp
  | cons method rest ih =>
      rw [List.foldl_cons, ih, List.map_cons]
      simp only [PatchState.addTouched, PatchState.addMethod, PatchState.touch, List.append_assoc, List.singleton_append]
      rfl

/-- What an accepted interface has done. -/
theorem applyImplements_ok {sig : TypeSig} {found : Option TypeDef}
    (applied : context.applyImplements sig found state = .ok after) :
    ∃ interface middle methods, found = some interface ∧
      context.portInterfaceMethods interface (interface.methods.filter fun method => !method.isStatic)
        (state.see sig.refs) = .ok (middle, methods) ∧
      after.type =
        { state.type with
          interfaces := state.type.interfacesWith (context.home.sig sig)
          methods := state.type.methods ++ methods } ∧
      state.applied.Touches (methods.map fun method => method.fullNameIn state.type.fullName) after.applied ∧
      after.seen = middle.seen := by
  unfold applyImplements at applied
  cases found with
  | none => cases applied
  | some interface =>
      obtain ⟨⟨middle, methods⟩, ported, applied⟩ := bind_ok applied
      obtain ⟨answers, implemented⟩ := portInterfaceMethods_ok ported
      cases applied
      refine ⟨interface, middle, methods, rfl, ported, ?_⟩
      dsimp only
      rw [foldl_addTouched, implemented.looked, TypeDef.interfacesWith]
      split
      · rename_i listed
        rw [if_pos (show state.type.implements (context.home.sig sig) = true from listed)]
        exact ⟨rfl, ⟨rfl, rfl⟩, rfl⟩
      · rename_i new
        rw [if_neg (show ¬state.type.implements (context.home.sig sig) = true from new)]
        exact ⟨rfl, ⟨rfl, rfl⟩, rfl⟩

theorem patchMethod_ok {index : Nat} {patch : MethodDef} (patched : context.patchMethod index = .ok patch) :
    context.mixinDef.methods[index]? = some patch := by
  unfold patchMethod at patched
  split at patched
  · cases patched
    assumption
  · cases patched

/-- The full name of the method that a patch overwrites. -/
def overwrittenName (context : MixinContext) (patch : MethodDef) : String :=
  memberName (context.home.sig patch.returns) context.targetName patch.name (patch.paramTypes.map context.home.sig)

/-- What an accepted overwrite has checked and done. -/
theorem applyOverwrite_ok {index : Nat} (applied : context.applyOverwrite index state = .ok after) :
    ∃ patch body position target, context.mixinDef.methods[index]? = some patch ∧ patch.body = some body ∧
      state.type.methodIndex? (context.overwrittenName patch) = some position ∧
      state.type.methods[position]? = some target ∧ target.isStatic = patch.isStatic ∧
      after.type =
        { state.type with
          methods := state.type.methods.modify position fun method =>
            { method with body := some (context.home.body body) } } ∧
      state.applied.Touches [context.overwrittenName patch] after.applied ∧
      after.seen = state.seen ++
        (patch.returns.refs ++ patch.paramTypes.flatMap TypeSig.refs ++ context.home.bodyRefs body) := by
  unfold applyOverwrite at applied
  obtain ⟨patch, patched, applied⟩ := bind_ok applied
  dsimp only at applied
  split at applied
  · rename_i position found
    obtain ⟨kind, applied⟩ := check_ok applied
    split at applied
    · rename_i body defined
      cases applied
      have inside := (List.findIdx?_eq_some_iff_getElem.mp found).1
      have held : state.type.methods[position]? = some state.type.methods[position] := List.getElem?_eq_getElem inside
      refine ⟨patch, body, position, _, patchMethod_ok patched, defined, found, held, ?_, rfl, ⟨rfl, rfl⟩, rfl⟩
      simpa [held] using kind
    · cases applied
  · cases applied

section Injections

variable {descriptor : InjectDescriptor} {plan : InjectPlan}

/-- The carrier of a callback: none where it does not cancel, and otherwise its last parameter, the only one of that role. -/
inductive Bears (types : List TypeSig) (descriptor : InjectDescriptor) : Option (CarrierKind × TypeSig) → Prop
  | none (plain : descriptor.cancellable = false) (free : ∀ role ∈ descriptor.params, role.isCarrier = false) :
      Bears types descriptor none
  | last {earlier : List ParamRole} {kind : CarrierKind} {type : TypeSig} (cancels : descriptor.cancellable = true)
      (params : descriptor.params = earlier ++ [.carrier kind]) (free : ∀ role ∈ earlier, role.isCarrier = false)
      (typed : types[earlier.length]? = some type) : Bears types descriptor (some (kind, type))

theorem carrier?_ok {patch : MethodDef} {types : List TypeSig} {carrier : Option (CarrierKind × TypeSig)}
    (chosen : context.carrier? patch types descriptor = .ok carrier) : Bears types descriptor carrier := by
  unfold carrier? at chosen
  split at chosen
  · rename_i plain free
    cases chosen
    exact .none plain fun role member => by simpa using List.findIdx?_eq_none_iff.mp free role member
  · cases chosen
  · cases chosen
  · rename_i position cancels found
    split at chosen
    · rename_i kind type role typed
      split at chosen
      · rename_i last
        cases chosen
        obtain ⟨inside, -, before⟩ := List.findIdx?_eq_some_iff_getElem.mp found
        have whole := List.take_append_drop position descriptor.params
        rw [List.drop_eq_getElem_cons inside, (List.getElem?_eq_some_iff.mp role).2, last, List.drop_length] at whole
        refine .last cancels whole.symm (fun other member => ?_) ?_
        · obtain ⟨place, less, rfl⟩ := List.mem_take_iff_getElem.mp member
          simpa using before place (by omega)
        · rw [List.length_take, Nat.min_eq_left (by omega)]
          exact typed
      · cases chosen
    · cases chosen

theorem carrier?_last {patch : MethodDef} {types : List TypeSig} {kind : CarrierKind} {type : TypeSig}
    (chosen : context.carrier? patch types descriptor = .ok (some (kind, type))) :
    ∃ earlier, descriptor.params = earlier ++ [.carrier kind] ∧ types[earlier.length]? = some type := by
  cases carrier?_ok chosen with
  | last _ params _ typed => exact ⟨_, params, typed⟩

/-- Where a callback's cancellation goes: to an instruction of the body, or back to the caller. -/
theorem cancelAction_ok {patch : MethodDef} {target : String} {body : Body} {returns : TypeSig} {cancellable : Bool}
    {cancelTarget : CancelTarget} {cancel : CancelAction}
    (cancels : context.cancelAction patch target body returns cancellable cancelTarget = .ok cancel) :
    (∃ line id, (body.find? line).bind body.spliceId? = some id ∧ cancel = .branch id) ∨
      cancel = .return (!returns.isVoid) := by
  unfold cancelAction at cancels
  split at cancels
  · rename_i line
    split at cancels
    · rename_i id found
      cases cancels
      exact .inl ⟨line, id, found, rfl⟩
    · cases cancels
  · cases cancels
    exact .inr rfl

/-- What an accepted injection has checked and planned. -/
theorem planInject_ok (planned : context.planInject descriptor state = .ok plan) :
    ∃ target carrier,
      context.mixinDef.methods[descriptor.methodIndex]? = some plan.patch ∧
      state.type.methodIndex? descriptor.targetMethod = some plan.index ∧
      state.type.methods[plan.index]? = some target ∧ target.body = some plan.body ∧
      target.isStatic = plan.patch.isStatic ∧ plan.patch.params.length = descriptor.params.length ∧
      TypeSig.joinNames target.paramTypes =
        TypeSig.joinNames (plainTypes (plan.patch.paramTypes.map context.home.sig) descriptor.params) ∧
      context.carrier? plan.patch (plan.patch.paramTypes.map context.home.sig) descriptor = .ok carrier ∧
      (∀ kind type, carrier = some (kind, type) → context.carrierFits kind target.returns = true) ∧
      context.checkLocals plan.patch descriptor.targetMethod plan.body descriptor.params = .ok () ∧
      plan.points = plan.body.locate descriptor.location ∧ plan.points.length = descriptor.expected ∧
      context.cancelAction plan.patch descriptor.targetMethod plan.body target.returns carrier.isSome
        descriptor.cancelTarget = .ok plan.cancel ∧
      plan.hasThis = !target.isStatic ∧ plan.carrier = carrier.map (·.2) := by
  unfold planInject at planned
  obtain ⟨patch, patched, planned⟩ := bind_ok planned
  dsimp only at planned
  split at planned
  · rename_i index found
    split at planned
    · rename_i target held
      split at planned
      · rename_i body defined
        obtain ⟨static, planned⟩ := check_ok planned
        obtain ⟨roles, planned⟩ := check_ok planned
        obtain ⟨same, planned⟩ := check_ok planned
        obtain ⟨carrier, chosen, planned⟩ := bind_ok planned
        have patchHeld := patchMethod_ok patched
        have sameKind : target.isStatic = patch.isStatic := by simpa using static
        have count : patch.params.length = descriptor.params.length := by simpa using roles
        have names := Decidable.not_not.mp same
        rcases carrier with _ | ⟨kind, type⟩
        · obtain ⟨⟨⟩, locals, planned⟩ := bind_ok planned
          obtain ⟨points, planned⟩ := check_ok planned
          obtain ⟨cancel, action, planned⟩ := bind_ok planned
          cases planned
          exact ⟨target, none, patchHeld, found, held, defined, sameKind, count, names, chosen, by simp, locals, rfl,
            by simpa using points, action, rfl, rfl⟩
        · obtain ⟨fits, planned⟩ := check_ok planned
          obtain ⟨⟨⟩, locals, planned⟩ := bind_ok planned
          obtain ⟨points, planned⟩ := check_ok planned
          obtain ⟨cancel, action, planned⟩ := bind_ok planned
          cases planned
          refine ⟨target, some (kind, type), patchHeld, found, held, defined, sameKind, count, names, chosen, ?_, locals, rfl,
            by simpa using points, action, rfl, rfl⟩
          intro kind type same
          cases same
          simpa using fits
      · cases planned
    · cases planned
  · cases planned

/-- The callback as it is moved onto a type. -/
def ported (context : MixinContext) (state : PatchState) (patch : MethodDef) : MethodDef :=
  context.home.method patch
    (uniqueName (context.mixin.simpleName ++ "_" ++ patch.name) (state.type.methods.map (·.name)))
    (.callback patch.isStatic)

/-- Methods are added behind the others, so that the target still has the body in which the places were found. -/
theorem target_kept (planned : context.planInject descriptor state = .ok plan) (references : List TypeRef)
    (callback : MethodDef) :
    (((state.see references).addTouched callback).type.methods[plan.index]?).bind (·.body) = some plan.body := by
  obtain ⟨target, _, -, -, held, defined, -⟩ := planInject_ok planned
  have kept : ((state.see references).addTouched callback).type.methods[plan.index]? = some target :=
    (List.getElem?_append_left (List.getElem?_eq_some_iff.mp held).1).trans held
  rw [kept]
  exact defined

/-- What is planned is done with the body that was planned for. -/
theorem applyInject_eq (planned : context.planInject descriptor state = .ok plan) :
    context.applyInject descriptor state =
      context.spliceCallback descriptor plan (context.ported state plan.patch) plan.body
        ((state.see (plan.refs ++ context.home.methodRefs plan.patch)).addTouched (context.ported state plan.patch)) := by
  have kept := target_kept planned (plan.refs ++ context.home.methodRefs plan.patch) (context.ported state plan.patch)
  unfold ported at kept
  rw [applyInject, planned]
  simp only [bind, Except.bind, kept]
  rfl

/-- What an accepted injection has done. -/
theorem applyInject_ok (applied : context.applyInject descriptor state = .ok after) :
    ∃ plan slot original spliced,
      context.planInject descriptor state = .ok plan ∧
      context.addCarrier plan.body plan.carrier = .ok (slot, original) ∧
      plan.points.foldlM
          (splice ⟨(context.ported state plan.patch).ref context.targetSig, plan.hasThis, descriptor.params, slot⟩
            plan.cancel plan.body.ids) original = .ok spliced ∧
      after.type =
        { state.type with
          methods := (state.type.methods ++ [context.ported state plan.patch]).modify plan.index
            fun method => { method with body := some spliced.relax.2 } } := by
  obtain ⟨plan, planned, -⟩ := bind_ok applied
  rw [applyInject_eq planned] at applied
  obtain ⟨⟨slot, original⟩, carried, applied⟩ := bind_ok applied
  obtain ⟨spliced, ran, applied⟩ := bind_ok applied
  cases applied
  exact ⟨plan, slot, original, spliced, planned, carried, ran, rfl⟩

end Injections

end MixinContext

end CilWeave
