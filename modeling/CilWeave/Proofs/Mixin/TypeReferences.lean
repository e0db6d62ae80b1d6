import CilWeave.Proofs.Mixin.Binding
import CilWeave.Proofs.Mixin.References

/-!
The types that definitions name. A member that is moved names what it named before, once this is moved as well, but for
the fields that stand for those of its mixin; whatever is moved has been looked at, so that its assembly can be listed.
-/

namespace CilWeave

open Stateful

def Body.refs (body : Body) : List TypeRef :=
  body.locals.toList.flatMap TypeSig.refs ++ body.operands.flatMap Operand.refs

def Attribute.refs (given : Attribute) : List TypeRef := given.constructor.refs

def FieldDef.refs (field : FieldDef) : List TypeRef := field.type.refs ++ field.attributes.flatMap Attribute.refs

def ParamDef.refs (param : ParamDef) : List TypeRef := param.type.refs ++ param.attributes.flatMap Attribute.refs

def MethodDef.refs (method : MethodDef) : List TypeRef :=
  method.returns.refs ++ method.params.flatMap ParamDef.refs ++ (method.body.map Body.refs).getD [] ++
    method.attributes.flatMap Attribute.refs

def TypeDef.refs (type : TypeDef) : List TypeRef :=
  (type.base.map TypeSig.refs).getD [] ++ type.interfaces.flatMap TypeSig.refs ++ type.fields.flatMap FieldDef.refs ++
    type.methods.flatMap MethodDef.refs ++ type.attributes.flatMap Attribute.refs

/-- All types that a module names. -/
def Module.refs (module : Module) : List TypeRef := module.types.flatMap TypeDef.refs

theorem MethodRef.refs_mapRefs (method : MethodRef) (rename : TypeRef → TypeRef) :
    (method.mapRefs rename).refs = method.refs.map rename := by
  simp only [mapRefs, refs, TypeSig.refs_mapRefs, TypeSig.refsAll_mapRefsAll, List.map_append]

theorem FieldRef.refs_mapRefs (field : FieldRef) (rename : TypeRef → TypeRef) :
    (field.mapRefs rename).refs = field.refs.map rename := by
  simp only [mapRefs, refs, TypeSig.refs_mapRefs, List.map_append]

namespace Rehoming

variable {home : Rehoming} {seen : List TypeRef} {reference : TypeRef}

/-- The reference is one that was looked at, once it is moved, or belongs to a field that stands for another. -/
inductive Brings (home : Rehoming) (seen : List TypeRef) : TypeRef → Prop
  | moved {reference : TypeRef} : reference ∈ seen → Brings home seen (home.typeRef reference)
  | mapped {reference : TypeRef} {key : String} {field : FieldRef} : home.fields.get? key = some field →
      reference ∈ field.refs → Brings home seen reference

theorem Brings.mono {more : List TypeRef} (brings : home.Brings seen reference) (within : seen ⊆ more) :
    home.Brings more reference := by
  cases brings with
  | moved member => exact .moved (within member)
  | mapped found member => exact .mapped found member

theorem brings_map {references : List TypeRef} (member : reference ∈ references.map home.typeRef) :
    home.Brings references reference := by
  obtain ⟨own, among, rfl⟩ := List.mem_map.mp member
  exact .moved among

theorem brings_append {first second : List TypeRef} {moved other : List TypeRef}
    (left : ∀ reference ∈ moved, home.Brings first reference)
    (right : ∀ reference ∈ other, home.Brings second reference) :
    ∀ reference ∈ moved ++ other, home.Brings (first ++ second) reference := by
  intro reference member
  rcases List.mem_append.mp member with front | back
  · exact (left reference front).mono (List.subset_append_left _ _)
  · exact (right reference back).mono (List.subset_append_right _ _)

theorem brings_flatMap {α : Type} {items : List α} {change : α → α} {refs looked : α → List TypeRef}
    (each : ∀ item, ∀ reference ∈ refs (change item), home.Brings (looked item) reference) :
    ∀ reference ∈ (items.map change).flatMap refs, home.Brings (items.flatMap looked) reference := by
  intro reference member
  rw [List.flatMap_map] at member
  obtain ⟨item, among, own⟩ := List.mem_flatMap.mp member
  exact (each item reference own).mono fun _ found => List.mem_flatMap.mpr ⟨item, among, found⟩

theorem brings_sig (sig : TypeSig) : ∀ reference ∈ (home.sig sig).refs, home.Brings sig.refs reference := by
  intro reference member
  rw [Rehoming.sig, TypeSig.refs_mapRefs] at member
  exact brings_map member

theorem brings_methodRef (method : MethodRef) :
    ∀ reference ∈ (home.methodRef method).refs, home.Brings method.refs reference := by
  intro reference member
  rw [methodRef, MethodRef.refs_mapRefs] at member
  exact brings_map member

theorem brings_operand (operand : Operand) :
    ∀ reference ∈ (home.operand operand).refs, home.Brings (home.operandRefs operand) reference := by
  cases operand with
  | method own => exact brings_methodRef own
  | field own =>
      intro reference member
      rw [Rehoming.operand, Rehoming.fieldRef] at member
      rw [operandRefs, fieldRefs]
      cases stands : home.mapped? own with
      | some field =>
          rw [stands] at member
          exact .mapped (mapped?_found stands) member
      | none =>
          rw [stands, Option.getD_none, Operand.refs, FieldRef.refs_mapRefs] at member
          exact brings_map member
  | type own => exact brings_sig own
  | _ => exact List.forall_mem_nil _

theorem brings_body (body : Body) : ∀ reference ∈ (home.body body).refs, home.Brings (home.bodyRefs body) reference := by
  have looked : home.bodyRefs body = body.locals.toList.flatMap TypeSig.refs ++ body.operands.flatMap home.operandRefs := by
    rw [bodyRefs, Body.operands, List.flatMap_map]
  rw [looked, Body.refs, operands_body, show (home.body body).locals = body.locals.map home.sig from rfl, Array.toList_map]
  exact brings_append (brings_flatMap brings_sig) (brings_flatMap brings_operand)

theorem brings_attributes (given : List Attribute) :
    ∀ reference ∈ (home.attributes given).flatMap Attribute.refs, home.Brings (home.attributeRefs given) reference :=
  brings_flatMap fun own => brings_methodRef own.constructor

theorem brings_param (param : ParamDef) :
    ∀ reference ∈ (home.param param).refs, home.Brings (home.paramRefs param) reference :=
  brings_append (brings_sig param.type) (brings_attributes param.attributes)

theorem brings_method (method : MethodDef) (name : String) (flags : MethodFlags) :
    ∀ reference ∈ (home.method method name flags).refs, home.Brings (home.methodRefs method) reference := by
  refine brings_append (brings_append (brings_append (brings_sig method.returns) (brings_flatMap brings_param)) ?_)
    (brings_attributes method.attributes)
  rw [Rehoming.method]
  cases method.body with
  | none => exact List.forall_mem_nil _
  | some body => exact brings_body body

theorem operandRefs_subset (operand : Operand) : home.operandRefs operand ⊆ operand.refs := by
  cases operand with
  | field own =>
      rw [operandRefs, fieldRefs]
      split
      · exact List.nil_subset _
      · exact List.Subset.refl _
  | _ => exact List.Subset.refl _

theorem flatMap_subset {α : Type} {items : List α} {looked refs : α → List TypeRef}
    (each : ∀ item, looked item ⊆ refs item) :
    items.flatMap looked ⊆ items.flatMap refs := by
  intro reference member
  obtain ⟨item, among, own⟩ := List.mem_flatMap.mp member
  exact List.mem_flatMap.mpr ⟨item, among, each item own⟩

theorem append_subset {first second moved other : List TypeRef} (left : first ⊆ moved) (right : second ⊆ other) :
    first ++ second ⊆ moved ++ other :=
  List.append_subset.mpr ⟨fun _ member => List.mem_append_left _ (left member),
    fun _ member => List.mem_append_right _ (right member)⟩

theorem bodyRefs_subset (body : Body) : home.bodyRefs body ⊆ body.refs := by
  rw [bodyRefs, Body.refs, Body.operands, List.flatMap_map]
  exact append_subset (List.Subset.refl _) (flatMap_subset fun instruction => operandRefs_subset instruction.operand)

theorem attributeRefs_subset (given : List Attribute) : home.attributeRefs given ⊆ given.flatMap Attribute.refs := by
  intro reference member
  obtain ⟨own, among, named⟩ := List.mem_flatMap.mp member
  exact List.mem_flatMap.mpr ⟨own, (List.mem_filter.mp among).1, named⟩

theorem paramRefs_subset (param : ParamDef) : home.paramRefs param ⊆ param.refs :=
  append_subset (List.Subset.refl _) (attributeRefs_subset param.attributes)

theorem methodRefs_subset (method : MethodDef) : home.methodRefs method ⊆ method.refs := by
  refine append_subset (append_subset (append_subset (List.Subset.refl _) (flatMap_subset paramRefs_subset)) ?_)
    (attributeRefs_subset method.attributes)
  cases method.body with
  | none => exact List.nil_subset _
  | some body => exact bodyRefs_subset body

/-- The types of a method's signature are looked at. -/
theorem sig_subset_methodRefs {method : MethodDef} {sig : TypeSig} (member : sig ∈ method.returns :: method.paramTypes) :
    sig.refs ⊆ home.methodRefs method := by
  intro reference named
  refine List.mem_append_left _ (List.mem_append_left _ (List.mem_append.mpr ?_))
  rcases List.mem_cons.mp member with rfl | among
  · exact .inl named
  · obtain ⟨param, listed, rfl⟩ := List.mem_map.mp among
    exact .inr (List.mem_flatMap.mpr ⟨param, listed, List.mem_append_left _ named⟩)

end Rehoming

namespace TypeDef

variable {type : TypeDef} {reference : TypeRef}

theorem refs_of_method {method : MethodDef} (among : method ∈ type.methods) : method.refs ⊆ type.refs :=
  fun _ member => List.mem_append_left _ (List.mem_append_right _ (List.mem_flatMap.mpr ⟨method, among, member⟩))

theorem refs_of_field {field : FieldDef} (among : field ∈ type.fields) : field.refs ⊆ type.refs :=
  fun _ member => List.mem_append_left _ (List.mem_append_left _ (List.mem_append_right _
    (List.mem_flatMap.mpr ⟨field, among, member⟩)))

theorem refs_of_interface {interface : TypeSig} (among : interface ∈ type.interfaces) : interface.refs ⊆ type.refs :=
  fun _ member => List.mem_append_left _ (List.mem_append_left _ (List.mem_append_left _ (List.mem_append_right _
    (List.mem_flatMap.mpr ⟨interface, among, member⟩))))

theorem refs_with_fields {fields : List FieldDef} (more : type.fields ⊆ fields) :
    type.refs ⊆ { type with fields }.refs := by
  intro reference member
  simp only [refs, List.mem_append, List.mem_flatMap] at member ⊢
  rcases member with (((base | interface) | ⟨field, among, named⟩) | method) | given
  · exact .inl (.inl (.inl (.inl base)))
  · exact .inl (.inl (.inl (.inr interface)))
  · exact .inl (.inl (.inr ⟨field, more among, named⟩))
  · exact .inl (.inr method)
  · exact .inr given

/-- What a type names when its fields, interfaces or methods are others. -/
theorem mem_refs_with {interfaces : List TypeSig} {fields : List FieldDef} {methods : List MethodDef}
    (member : reference ∈ { type with interfaces, fields, methods }.refs) : reference ∈ type.refs ∨
      (∃ interface ∈ interfaces, reference ∈ interface.refs) ∨ (∃ field ∈ fields, reference ∈ field.refs) ∨
      ∃ method ∈ methods, reference ∈ method.refs := by
  simp only [refs, List.mem_append, List.mem_flatMap] at member ⊢
  rcases member with (((base | interface) | field) | method) | given
  · exact .inl (.inl (.inl (.inl (.inl base))))
  · exact .inr (.inl interface)
  · exact .inr (.inr (.inl field))
  · exact .inr (.inr (.inr method))
  · exact .inl (.inr given)

end TypeDef

theorem MethodDef.refs_of_body {method : MethodDef} {body : Body} (defined : method.body = some body) :
    body.refs ⊆ method.refs := by
  rw [refs, defined]
  exact fun _ member => List.mem_append_left _ (List.mem_append_right _ member)

/-- What a method names when it has another body. -/
theorem MethodDef.mem_refs_with {method : MethodDef} {body : Body} {reference : TypeRef}
    (member : reference ∈ { method with body := some body }.refs) :
    reference ∈ method.refs ∨ reference ∈ body.refs := by
  simp only [refs, List.mem_append] at member ⊢
  rcases member with ((returns | params) | body) | given
  · exact .inl (.inl (.inl (.inl returns)))
  · exact .inl (.inl (.inl (.inr params)))
  · exact .inr body
  · exact .inl (.inr given)

theorem MethodDef.refs_ref (method : MethodDef) (declaring : TypeSig) :
    (method.ref declaring).refs ⊆ declaring.refs ++ method.refs := by
  intro reference member
  simp only [ref, MethodRef.refs, TypeSig.refsAll_eq_flatMap, List.mem_append, List.mem_flatMap] at member
  rcases member with (declared | returned) | ⟨sig, among, named⟩
  · exact List.mem_append_left _ declared
  · exact List.mem_append_right _ (List.mem_append_left _ (List.mem_append_left _ (List.mem_append_left _ returned)))
  · obtain ⟨param, listed, rfl⟩ := List.mem_map.mp among
    exact List.mem_append_right _ (List.mem_append_left _ (List.mem_append_left _ (List.mem_append_right _
      (List.mem_flatMap.mpr ⟨param, listed, List.mem_append_left _ named⟩))))

theorem FieldDef.refs_ref (field : FieldDef) (declaring : TypeSig) :
    (field.ref declaring).refs ⊆ declaring.refs ++ field.refs :=
  Rehoming.append_subset (List.Subset.refl _) (List.subset_append_left _ _)

theorem TypeDef.refs_sig (type : TypeDef) : type.sig.refs = [type.ref] := by
  unfold sig
  dsimp only
  split <;> rfl

/-- A callback that an operation of a mixin calls takes a carrier of the type. -/
def TypeDef.Takes (mixinDef : TypeDef) (carrier : TypeSig) : MixinOp → Prop
  | .inject descriptor => ∃ (patch : MethodDef) (position : Nat) (kind : CarrierKind),
      mixinDef.methods[descriptor.methodIndex]? = some patch ∧ descriptor.params[position]? = some (.carrier kind) ∧
      patch.paramTypes[position]? = some carrier
  | _ => False

namespace MixinContext

variable {context : MixinContext} {state after : PatchState} {reference : TypeRef}

/-- The reference is brought by a part of the mixin that was looked at. -/
def Brought (context : MixinContext) (seen : List TypeRef) (reference : TypeRef) : Prop :=
  ∃ looked, looked ⊆ context.mixinDef.refs ∧ looked ⊆ seen ∧ context.home.Brings looked reference

theorem Brought.mono {seen more : List TypeRef} (brought : context.Brought seen reference) (within : seen ⊆ more) :
    context.Brought more reference := by
  obtain ⟨looked, own, among, brings⟩ := brought
  exact ⟨looked, own, List.Subset.trans among within, brings⟩

/-- A part of one of the mixin's methods brings what it names, if the method was looked at. -/
theorem Brought.patch {seen part : List TypeRef} {patch : MethodDef} (among : patch ∈ context.mixinDef.methods)
    (looked : context.home.methodRefs patch ⊆ seen) (within : part ⊆ context.home.methodRefs patch)
    (brings : context.home.Brings part reference) : context.Brought seen reference := by
  have own : part ⊆ patch.refs := List.Subset.trans within (Rehoming.methodRefs_subset patch)
  exact ⟨part, List.Subset.trans own (TypeDef.refs_of_method among), List.Subset.trans within looked, brings⟩

/-- How a reference of the type after an operation comes about. -/
inductive Cites (context : MixinContext) (op : MixinOp) (state after : PatchState) : TypeRef → Prop
  | kept {reference : TypeRef} : reference ∈ state.type.refs → Cites context op state after reference
  | brought {reference : TypeRef} : context.Brought after.seen reference → Cites context op state after reference
  | interface {reference : TypeRef} {interface : TypeSig} : op = .implements interface → interface.refs ⊆ after.seen →
      context.home.Brings interface.refs reference → Cites context op state after reference
  | host {reference : TypeRef} : reference ∈ context.targetSig.refs → Cites context op state after reference
  | question {carrier : TypeSig} : context.mixinDef.Takes carrier op → carrier.refs ⊆ after.seen →
      Cites context op state after
        (.ofFullName ((context.home.sig carrier).reference?.bind (·.scope))
          (context.home.config.attributeName Marker.plainCarrier))

/-- The mixin's methods for an interface are looked at when they are moved. -/
theorem portInterfaceMethods_seen {interface : TypeDef} {expected methods : List MethodDef}
    (ported : context.portInterfaceMethods interface expected state = .ok (after, methods)) :
    state.seen ⊆ after.seen ∧ ∀ method ∈ methods, ∃ patch ∈ context.mixinDef.methods,
      context.home.methodRefs patch ⊆ after.seen ∧ ∃ name flags, method = context.home.method patch name flags := by
  obtain ⟨answers, implemented⟩ := portInterfaceMethods_ok ported
  rw [implemented.looked]
  refine ⟨List.subset_append_left _ _, fun method member => ?_⟩
  rw [implemented.made] at member
  obtain ⟨⟨asked, patch⟩, among, rfl⟩ := List.mem_map.mp member
  refine ⟨patch, List.mem_of_find?_eq_some (implemented.answered _ among).1, fun _ named => ?_, _, _, rfl⟩
  exact List.mem_append_right _ (List.mem_flatMap_of_mem among named)

theorem applyImplements_cites {sig : TypeSig} {found : Option TypeDef}
    (applied : context.applyImplements sig found state = .ok after) :
    state.seen ⊆ after.seen ∧ ∀ reference ∈ after.type.refs, context.Cites (.implements sig) state after reference := by
  obtain ⟨interface, middle, methods, -, ported, type, -, seen⟩ := applyImplements_ok applied
  obtain ⟨more, each⟩ := portInterfaceMethods_seen ported
  rw [← seen] at more each
  refine ⟨fun _ member => more (List.mem_append_left _ member), fun reference member => ?_⟩
  rw [type] at member
  rcases TypeDef.mem_refs_with member with kept | ⟨listed, among, named⟩ | ⟨field, among, named⟩ |
    ⟨method, among, named⟩
  · exact .kept kept
  · unfold TypeDef.interfacesWith at among
    split at among
    · exact .kept (TypeDef.refs_of_interface among named)
    · rcases List.mem_append.mp among with old | new
      · exact .kept (TypeDef.refs_of_interface old named)
      · rw [List.mem_singleton.mp new] at named
        exact .interface rfl (fun _ member => more (List.mem_append_right _ member)) (Rehoming.brings_sig sig _ named)
  · exact .kept (TypeDef.refs_of_field among named)
  · rcases List.mem_append.mp among with old | new
    · exact .kept (TypeDef.refs_of_method old named)
    · obtain ⟨patch, own, looked, name, flags, rfl⟩ := each method new
      exact .brought (.patch own looked (List.Subset.refl _) (Rehoming.brings_method patch name flags _ named))

theorem applyOverwrite_cites {index : Nat} {name : String} (applied : context.applyOverwrite index state = .ok after) :
    state.seen ⊆ after.seen ∧ ∀ reference ∈ after.type.refs,
      context.Cites (.overwrite index name) state after reference := by
  obtain ⟨patch, body, position, target, patched, defined, -, held, -, type, -, seen⟩ := applyOverwrite_ok applied
  refine ⟨seen ▸ List.subset_append_left _ _, fun reference member => ?_⟩
  rw [type] at member
  rcases TypeDef.mem_refs_with member with kept | ⟨listed, among, named⟩ | ⟨field, among, named⟩ |
    ⟨method, among, named⟩
  · exact .kept kept
  · exact .kept (TypeDef.refs_of_interface among named)
  · exact .kept (TypeDef.refs_of_field among named)
  · rcases mem_modify among with old | ⟨same, there, rfl⟩
    · exact .kept (TypeDef.refs_of_method old named)
    · rcases MethodDef.mem_refs_with named with before | code
      · exact .kept (TypeDef.refs_of_method (List.mem_of_getElem? there) before)
      · have own : patch ∈ context.mixinDef.methods := List.mem_of_getElem? patched
        have part : context.home.bodyRefs body ⊆ patch.refs :=
          List.Subset.trans (Rehoming.bodyRefs_subset body) (MethodDef.refs_of_body defined)
        have looked : context.home.bodyRefs body ⊆ after.seen :=
          fun _ member => seen ▸ List.mem_append_right _ (List.mem_append_right _ member)
        exact .brought ⟨_, List.Subset.trans part (TypeDef.refs_of_method own), looked, Rehoming.brings_body body _ code⟩

end MixinContext

namespace Injection

variable {injection : Injection}

/-- What an injection looks at is, besides the types that it compares, what its callback names. -/
theorem seen (injection : Injection) : injection.before.seen ⊆ injection.after.seen ∧
    injection.context.home.methodRefs injection.patch ⊆ injection.after.seen := by
  obtain ⟨plan, body, same⟩ := injection.done
  rw [same]
  exact ⟨List.subset_append_left _ _, fun _ member => List.mem_append_right _ (List.mem_append_right _ member)⟩

/-- The carrier is one of the callback's parameters, moved. -/
theorem carrier_taken {kind : CarrierKind} {type : TypeSig} (held : injection.carrier = some (kind, type)) :
    ∃ carrier ∈ injection.patch.paramTypes, type = injection.context.home.sig carrier ∧
      injection.context.mixinDef.Takes carrier (.inject injection.descriptor) := by
  obtain ⟨earlier, params, moved⟩ := MixinContext.carrier?_last (injection.carries.trans (congrArg Except.ok held))
  rw [List.getElem?_map] at moved
  obtain ⟨carrier, listed, rfl⟩ := Option.map_eq_some_iff.mp moved
  have role : injection.descriptor.params[earlier.length]? = some (.carrier kind) := by simp [params]
  exact ⟨carrier, List.mem_of_getElem? listed, rfl, injection.patch, _, kind, injection.patched, role, listed⟩

theorem members_taken {slot : UInt16} {members : CarrierMembers} (held : injection.site.carrier = some (slot, members)) :
    ∃ carrier ∈ injection.patch.paramTypes, injection.context.mixinDef.Takes carrier (.inject injection.descriptor) ∧
      members = .of (injection.context.home.sig carrier) (injection.context.home.config.attributeName Marker.plainCarrier) := by
  obtain ⟨⟨kind, type⟩, carried, same⟩ := Option.map_eq_some_iff.mp held
  obtain ⟨-, rfl⟩ := Prod.mk.inj same
  obtain ⟨carrier, among, rfl, taken⟩ := carrier_taken carried
  exact ⟨carrier, among, taken, rfl⟩

theorem looked_param {sig : TypeSig} (among : sig ∈ injection.patch.paramTypes) :
    sig.refs ⊆ injection.context.home.methodRefs injection.patch :=
  Rehoming.sig_subset_methodRefs (List.mem_cons_of_mem _ among)

/-- What the callback's parameters name, once they are moved. -/
theorem param_cites {sig : TypeSig} (among : sig ∈ injection.patch.paramTypes) :
    ∀ reference ∈ (injection.context.home.sig sig).refs,
      injection.context.Cites (.inject injection.descriptor) injection.before injection.after reference := by
  intro reference member
  exact .brought (.patch (List.mem_of_getElem? injection.patched) injection.seen.2 (looked_param among)
    (Rehoming.brings_sig sig _ member))

theorem callback_cites : ∀ reference ∈ injection.callback.refs,
    injection.context.Cites (.inject injection.descriptor) injection.before injection.after reference :=
  fun _ member => .brought (.patch (List.mem_of_getElem? injection.patched) injection.seen.2 (List.Subset.refl _)
    (Rehoming.brings_method _ _ _ _ member))

/-- What injected code names is the callback's, or the carrier's. -/
theorem injected_cites {operand : Operand} (named : injection.site.Names operand) : ∀ reference ∈ operand.refs,
    injection.context.Cites (.inject injection.descriptor) injection.before injection.after reference := by
  intro reference member
  cases named with
  | callback =>
      rcases List.mem_append.mp (MethodDef.refs_ref _ _ member) with host | callback
      · exact .host host
      · exact callback_cites reference callback
  | constructor held =>
      obtain ⟨carrier, among, -, rfl⟩ := members_taken held
      refine param_cites among reference ?_
      simpa [Operand.refs, MethodRef.refs, CarrierMembers.of, MethodRef.onInstance, TypeSig.refs, TypeSig.refsAll] using member
  | question held =>
      obtain ⟨carrier, among, taken, rfl⟩ := members_taken held
      have same : reference = .ofFullName ((injection.context.home.sig carrier).reference?.bind (·.scope))
          (injection.context.home.config.attributeName Marker.plainCarrier) := by
        simpa [Operand.refs, MethodRef.refs, CarrierMembers.of, MethodRef.onInstance, TypeSig.refs,
          TypeSig.refsAll] using member
      rw [same]
      exact .question taken (List.Subset.trans (looked_param among) injection.seen.2)
  | @value slot members getter held returns =>
      obtain ⟨carrier, among, -, rfl⟩ := members_taken held
      refine param_cites among reference ?_
      cases moved : injection.context.home.sig carrier <;> rw [moved] at returns <;> cases returns
      simpa [Operand.refs, MethodRef.refs, MethodRef.onInstance, TypeSig.refs, TypeSig.refsAll] using member

/-- What the spliced body names is what the body named before, or what is injected and the carrier. -/
theorem woven_cites (injection : Injection) : ∀ reference ∈ injection.woven.refs,
    injection.context.Cites (.inject injection.descriptor) injection.before injection.after reference := by
  have body : injection.body.refs ⊆ injection.before.type.refs :=
    List.Subset.trans (MethodDef.refs_of_body injection.defined) (TypeDef.refs_of_method (List.mem_of_getElem? injection.held))
  have operands : ∀ operand ∈ injection.woven.operands, ∀ reference ∈ operand.refs,
      injection.context.Cites (.inject injection.descriptor) injection.before injection.after reference := by
    refine injection.woven_operands (fun operand nameless => ?_) (fun operand => injected_cites) ?_
    · rw [nameless]
      exact List.forall_mem_nil _
    · exact fun operand among reference member =>
        .kept (body (List.mem_append_right _ (List.mem_flatMap.mpr ⟨operand, among, member⟩)))
  intro reference member
  rw [Body.refs, injection.woven_locals] at member
  rcases List.mem_append.mp member with slot | operand
  · obtain ⟨sig, listed, named⟩ := List.mem_flatMap.mp slot
    rw [Injection.original, Array.toList_append] at listed
    rcases List.mem_append.mp listed with old | new
    · exact .kept (body (List.mem_append_left _ (List.mem_flatMap.mpr ⟨sig, old, named⟩)))
    · have carried : injection.carrier.map (·.2) = some sig := by simpa using new
      obtain ⟨⟨kind, type⟩, held, rfl⟩ := Option.map_eq_some_iff.mp carried
      obtain ⟨carrier, among, rfl, -⟩ := Injection.carrier_taken held
      exact injection.param_cites among reference named
  · obtain ⟨operand, listed, named⟩ := List.mem_flatMap.mp operand
    exact operands operand listed reference named

end Injection

namespace MixinContext

variable {context : MixinContext} {state after : PatchState}

theorem applyInject_cites {descriptor : InjectDescriptor} (applied : context.applyInject descriptor state = .ok after) :
    state.seen ⊆ after.seen ∧ ∀ reference ∈ after.type.refs,
      context.Cites (.inject descriptor) state after reference := by
  obtain ⟨injection, rfl, rfl, rfl, rfl⟩ := Injection.of_applied applied
  obtain ⟨-, -, -, -, -, -, -, type⟩ := injection.accepted
  have added {method : MethodDef} (member : method ∈ injection.before.type.methods ++ [injection.callback]) :
      ∀ reference ∈ method.refs,
        injection.context.Cites (.inject injection.descriptor) injection.before injection.after reference := by
    intro reference named
    rcases List.mem_append.mp member with old | new
    · exact .kept (TypeDef.refs_of_method old named)
    · rw [List.mem_singleton.mp new] at named
      exact injection.callback_cites reference named
  refine ⟨injection.seen.1, fun reference member => ?_⟩
  rw [type] at member
  rcases TypeDef.mem_refs_with member with kept | ⟨listed, among, named⟩ | ⟨field, among, named⟩ |
    ⟨method, among, named⟩
  · exact .kept kept
  · exact .kept (TypeDef.refs_of_interface among named)
  · exact .kept (TypeDef.refs_of_field among named)
  · rcases mem_modify among with old | ⟨same, there, rfl⟩
    · exact added old reference named
    · rcases MethodDef.mem_refs_with named with before | code
      · exact added (List.mem_of_getElem? there) reference before
      · exact injection.woven_cites reference code

end MixinContext

/-- An operation looks at more, and what the type names afterwards comes about as one of the ways says. -/
theorem MixinEngine.applyOp_cites {engine : MixinEngine} {context : MixinContext} {target : Module}
    {assemblies known : Assemblies}
    {state after : PatchState} {op : MixinOp}
    (applied : engine.applyOp context target assemblies state op = (.ok after, known)) :
    state.seen ⊆ after.seen ∧ ∀ reference ∈ after.type.refs, context.Cites op state after reference := by
  cases op with
  | implements interface => exact MixinContext.applyImplements_cites (congrArg Prod.fst applied)
  | overwrite index name => exact MixinContext.applyOverwrite_cites (congrArg Prod.fst applied)
  | inject descriptor => exact MixinContext.applyInject_cites (congrArg Prod.fst applied)

namespace MixinContext

variable {context : MixinContext} {state after : PatchState}

/-- A field that is added brings what it names, and what a mixin's field stands for is a field of the type. -/
theorem mapField_cites {descriptor : FieldDescriptor} {name : String} {field : FieldRef}
    (mapped : context.mapField state descriptor = .ok (after, name, field)) :
    state.seen ⊆ after.seen ∧ state.type.refs ⊆ after.type.refs ∧
    field.refs ⊆ context.targetSig.refs ++ after.type.refs ∧
      ∀ reference ∈ after.type.refs, reference ∈ state.type.refs ∨ context.Brought after.seen reference := by
  have typed {field : FieldDef} {type : TypeDef} (among : field ∈ type.fields) :
      (field.ref context.targetSig).refs ⊆ context.targetSig.refs ++ type.refs :=
    List.Subset.trans (field.refs_ref _) (Rehoming.append_subset (List.Subset.refl _) (TypeDef.refs_of_field among))
  cases mapField_iff.mp mapped with
  | captured found there =>
      exact ⟨List.Subset.refl _, List.Subset.refl _, typed (List.mem_of_find?_eq_some there), fun _ => .inl⟩
  | @added own found free =>
      have among : own ∈ context.mixinDef.fields := List.mem_of_find?_eq_some found
      have looked : own.type.refs ++ context.home.attributeRefs own.attributes ⊆ context.mixinDef.refs :=
        List.Subset.trans (Rehoming.append_subset (List.Subset.refl _) (Rehoming.attributeRefs_subset own.attributes))
          (TypeDef.refs_of_field among)
      refine ⟨List.subset_append_left _ _, TypeDef.refs_with_fields (List.subset_append_left _ _),
        typed (List.mem_append_right _ (List.mem_singleton_self _)), fun reference member => ?_⟩
      rcases TypeDef.mem_refs_with member with kept | ⟨listed, among, named⟩ | ⟨field, among, named⟩ |
        ⟨method, among, named⟩
      · exact .inl kept
      · exact .inl (TypeDef.refs_of_interface among named)
      · rcases List.mem_append.mp among with old | new
        · exact .inl (TypeDef.refs_of_field old named)
        · rw [List.mem_singleton.mp new] at named
          refine .inr ⟨_, looked, List.subset_append_right _ _, ?_⟩
          exact Rehoming.brings_append (Rehoming.brings_sig own.type)
            (Rehoming.brings_attributes own.attributes) reference named
      · exact .inl (TypeDef.refs_of_method among named)

theorem mapFields_cites {descriptors : List FieldDescriptor} {fields mapped : Table FieldRef}
    (ran : context.mapFields descriptors state fields = .ok (after, mapped))
    (before : ∀ key field, fields.get? key = some field → field.refs ⊆ context.targetSig.refs ++ state.type.refs) :
    state.seen ⊆ after.seen ∧
      (∀ key field, mapped.get? key = some field → field.refs ⊆ context.targetSig.refs ++ after.type.refs) ∧
      ∀ reference ∈ after.type.refs, reference ∈ state.type.refs ∨ context.Brought after.seen reference := by
  induction descriptors generalizing state fields with
  | nil =>
      cases ran
      exact ⟨List.Subset.refl _, before, fun _ => .inl⟩
  | cons descriptor rest ih =>
      obtain ⟨⟨middle, name, field⟩, first, ran⟩ := bind_ok ran
      obtain ⟨seen, kept, own, cited⟩ := mapField_cites first
      have inserted : ∀ key field', (fields.insert name field).get? key = some field' →
          field'.refs ⊆ context.targetSig.refs ++ middle.type.refs := by
        intro key other found
        rw [Table.get?_insert] at found
        split at found
        · cases found
          exact own
        · exact List.Subset.trans (before key other found) (Rehoming.append_subset (List.Subset.refl _) kept)
      obtain ⟨more, table, later⟩ := ih ran inserted
      refine ⟨List.Subset.trans seen more, table, fun reference member => ?_⟩
      rcases later reference member with held | brought
      · exact (cited reference held).imp_right (·.mono more)
      · exact .inr brought

end MixinContext

end CilWeave
