import CilWeave.Proofs.Mixin.Failures
import CilWeave.Proofs.Mixin.Touched
import CilWeave.Proofs.Mixin.WovenDepth

/-!
Weaving keeps methods verifiable. Moved bodies do to the stack what they did, in a method that takes and
returns as many values because the names are the same; injected calls keep depths consistent; and what was
touched is found again by its name, with a body.
-/

namespace CilWeave

open Stateful

namespace Rehoming

variable (home : Rehoming)

theorem instruction_resembles (instruction : Instruction) : instruction.Resembles (home.instruction instruction) := by
  obtain ⟨id, opcode, operand⟩ := instruction
  cases operand with
  | method reference =>
      have count : (reference.mapRefs home.typeRef).params.length = reference.params.length := by
        rw [MethodRef.mapRefs, TypeSig.mapRefsAll_eq_map, List.length_map]
      have void : (reference.mapRefs home.typeRef).returns.isVoid = reference.returns.isVoid :=
        TypeSig.isVoid_mapRefs home.typeRef reference.returns
      refine ⟨.rfl, rfl, rfl, rfl, ?_, ?_⟩
      · simp only [Rehoming.instruction, Rehoming.operand, methodRef, Instruction.pops, Instruction.method?,
          Operand.method?, count]
        rfl
      · simp only [Rehoming.instruction, Rehoming.operand, methodRef, Instruction.pushes, Instruction.pushesValue,
          Instruction.method?, Operand.method?, Option.any_some, void]
  | _ => exact ⟨.rfl, rfl, rfl, rfl, rfl, rfl⟩

/-- A moved body does to the stack what it did. -/
theorem body_resembles {body : Body} {argumentCount : Nat} {returnsValue : Bool} :
    StackContext.Resembles ⟨body, argumentCount, returnsValue⟩ ⟨home.body body, argumentCount, returnsValue⟩ := by
  refine ⟨⟨rfl, rfl, by simp [Rehoming.body]⟩, home.body_ids body, fun position instruction found => ?_⟩
  rw [← Array.getElem?_toList, body_instructions, List.getElem?_map] at found
  obtain ⟨own, held, rfl⟩ := Option.map_eq_some_iff.mp found
  exact ⟨own, by rwa [Array.getElem?_toList] at held, home.instruction_resembles own, home.operand_targets own.operand⟩

end Rehoming

theorem StackContext.Consistent.withMaxStack {body : Body} {argumentCount : Nat} {returnsValue : Bool}
    (consistent : StackContext.Consistent ⟨body, argumentCount, returnsValue⟩) (depth : UInt16) :
    StackContext.Consistent ⟨{ body with maxStack := depth }, argumentCount, returnsValue⟩ := by
  have resembles : StackContext.Resembles ⟨body, argumentCount, returnsValue⟩
      ⟨{ body with maxStack := depth }, argumentCount, returnsValue⟩ :=
    ⟨⟨rfl, rfl, rfl⟩, rfl, fun _ instruction found => ⟨instruction, found, ⟨.rfl, rfl, rfl, rfl, rfl, rfl⟩,
      rfl⟩⟩
  exact resembles.consistent consistent

/-- A method whose types are plainly named. -/
structure MethodDef.Plain (method : MethodDef) : Prop where
  returns : method.returns.Plain
  params : ∀ sig ∈ method.paramTypes, sig.Plain

instance (method : MethodDef) : Decidable method.Plain :=
  decidable_of_iff (method.returns.Plain ∧ ∀ sig ∈ method.paramTypes, sig.Plain)
    ⟨fun ⟨returns, params⟩ => ⟨returns, params⟩, fun ⟨returns, params⟩ => ⟨returns, params⟩⟩

/-- Of two methods on one type the full names tell the simple ones. -/
theorem MethodDef.Plain.name_eq {method other : MethodDef} {declaring : String} (plain : method.Plain) (plain' : other.Plain)
    (same : method.fullNameIn declaring = other.fullNameIn declaring) : method.name = other.name :=
  (memberName_inj plain.returns.separable plain'.returns.separable (TypeSig.separable_of_plain plain.params)
    (TypeSig.separable_of_plain plain'.params) same).2.1

theorem Rehoming.method_plain {home : Rehoming} (targets : home.PlainTargets) {method : MethodDef} (plain : method.Plain)
    (name : String) (flags : MethodFlags) : (home.method method name flags).Plain := by
  refine ⟨sig_plain targets plain.returns, fun sig among => ?_⟩
  obtain ⟨param, own, rfl⟩ := List.mem_map.mp among
  obtain ⟨old, listed, rfl⟩ := List.mem_map.mp own
  exact sig_plain targets (plain.params _ (List.mem_map_of_mem listed))

/-- A plainly named method whose body, if it has one that counts, holds together and has consistent stack depths. -/
structure MethodDef.Steady (counts : Body → Prop) (method : MethodDef) : Prop extends method.Plain where
  coherent : ∀ body, method.body = some body → counts body → body.Coherent
  fresh : ∀ body, method.body = some body → counts body → body.Fresh
  consistent : ∀ body, method.body = some body → counts body →
    StackContext.Consistent ⟨body, method.argumentCount, !method.returns.isVoid⟩

namespace MethodDef

variable {method : MethodDef} {counts : Body → Prop}

theorem Steady.withMaxStack (steady : method.Steady counts) (depth : UInt16)
    (sized : ∀ body, counts { body with maxStack := depth } → counts body) : (method.withMaxStack depth).Steady counts := by
  obtain ⟨⟨returns, params⟩, coherent, fresh, consistent⟩ := steady
  refine ⟨⟨returns, params⟩, fun body defined counted => ?_, fun body defined counted => ?_,
    fun body defined counted => ?_⟩ <;>
    obtain ⟨old, held, rfl⟩ := Option.map_eq_some_iff.mp defined
  · have kept := coherent old held (sized old counted)
    exact ⟨kept.distinct, kept.operands, kept.targets⟩
  · exact (fresh old held (sized old counted)).congr rfl rfl
  · exact (consistent old held (sized old counted)).withMaxStack depth

/-- A steady method whose body counts has a depth, unless it is too great. -/
theorem Steady.maxDepth (steady : method.Steady counts) {body : Body} (defined : method.body = some body)
    (counted : counts body)
    {cause : StackFault} (failed : method.maxDepth = .error cause) : ∃ depth, cause = .tooDeep depth ∧ 65535 < depth := by
  rw [maxDepth_of_body defined] at failed
  exact (steady.consistent body defined counted).tooDeep failed

/-- Methods of one full name on a type take and return as many values. -/
theorem same_room {declaring : String} {returns : TypeSig} {params : List TypeSig} {name : String}
    (plain : method.Plain) (plainReturns : returns.Plain) (plainParams : ∀ sig ∈ params, sig.Plain)
    (same : method.fullNameIn declaring = memberName returns declaring name params) :
    method.returns.isVoid = returns.isVoid ∧ method.params.length = params.length := by
  obtain ⟨first, -, last⟩ := memberName_inj plain.returns.separable plainReturns.separable
    (TypeSig.separable_of_plain plain.params) (TypeSig.separable_of_plain plainParams) same
  refine ⟨?_, ?_⟩
  · rw [Bool.eq_iff_iff, TypeSig.isVoid_iff plain.returns, TypeSig.isVoid_iff plainReturns, first]
  · rw [← TypeSig.length_of_joinNames (TypeSig.separable_of_plain plain.params)
      (TypeSig.separable_of_plain plainParams) last, paramTypes, List.length_map]

end MethodDef

/-- The body passes validation, has handed out no identity above its own, and the method verifies. -/
def MethodDef.Verified (method : MethodDef) (body : Body) : Prop :=
  body.validate = .ok () ∧ body.Fresh ∧ ∃ greatest, method.maxDepth = .ok greatest

theorem MethodDef.Plain.steady {method : MethodDef} (plain : method.Plain)
    (verified : ∀ body, method.body = some body → method.Verified body) (counts : Body → Prop) :
    method.Steady counts := by
  refine ⟨plain, fun body defined _ => ?_, fun body defined _ => ?_, fun body defined _ => ?_⟩ <;>
    obtain ⟨valid, fresh, greatest, depth⟩ := verified body defined
  · exact Body.validate_iff.mp valid
  · exact fresh
  · rw [maxDepth_of_body defined] at depth
    exact (StackContext.consistent_of_maxDepth depth).1

/-- The operation overwrites, or calls back without cancelling. -/
def MixinOp.IsPlain : MixinOp → Prop
  | .implements _ => False
  | .overwrite _ _ => True
  | .inject descriptor => descriptor.cancellable = false

/-- A weave of verified methods with plainly named types, by mixins that only overwrite and call back without
cancelling. -/
structure Weaver.Verifiable (weaver : Weaver) (mixins : List MixinDescriptor) : Prop where
  read : weaver.descriptors = .ok mixins
  ops : ∀ mixin ∈ mixins, ∀ op ∈ mixin.ops, op.IsPlain
  names : ∀ mixin ∈ mixins, (TypeRef.ofFullName none mixin.target.fullName).Plain
  target : weaver.target.EachMethod fun method =>
    method.Plain ∧ ∀ body, method.body = some body → method.Verified body
  patches : weaver.mixins.EachMethod fun method =>
    method.Plain ∧ ∃ body, method.body = some body ∧ method.Verified body

theorem Table.mem_of_get?_ofList {α : Type} {entries : List (String × α)} {key : String} {value : α}
    (found : (ofList entries).get? key = some value) : (key, value) ∈ entries := by
  have among (entries : List (String × α)) (table : Table α)
      (found : (entries.foldl (fun table entry => table.insert entry.1 entry.2) table).get? key = some value) :
      (key, value) ∈ entries ∨ table.get? key = some value := by
    induction entries generalizing table with
    | nil => exact .inr found
    | cons entry rest ih =>
        rcases ih (table.insert entry.1 entry.2) found with later | here
        · exact .inl (List.mem_cons_of_mem _ later)
        · rw [get?_insert] at here
          split at here
          · rename_i same
            cases here
            subst same
            exact .inl List.mem_cons_self
          · exact .inr here
  rcases among entries empty found with member | none
  · exact member
  · cases none

/-- The roles of plainly typed parameters state no type that is absent. -/
theorem WeaveConfig.roles_stated {config : WeaveConfig} {owner : String} {method : MethodDef} {roles : List ParamRole}
    (read : method.params.mapM (config.paramRole owner) = .ok roles) (plain : ∀ sig ∈ method.paramTypes, sig.Plain) :
    ∀ role ∈ roles, ∀ index type, role.slot? = some (index, type) → ¬TypeSig.opens type.fullName := by
  intro role member index type slot opened
  obtain ⟨param, own, read⟩ := mapM_mem read member
  have starts := TypeSig.fullName_starts param.type (plain _ (List.mem_map_of_mem own)).separable
  rcases paramRole_slot read slot with same | same
  · exact starts.2 (same ▸ opened)
  · refine starts.2 (same ▸ (TypeSig.opens_append fun empty => ?_).mpr opened)
    rw [empty] at opened
    exact absurd opened (by decide)

namespace Weaver

/-- The last identity is not in use in the body, or in what any injection of the weave leaves. -/
def Spares (weaver : Weaver) (mixins : List MixinDescriptor) (body : Body) : Prop := body.Spare ∨ ¬weaver.Exhausts mixins

variable {weaver : Weaver} {mixins : List MixinDescriptor} {context : MixinContext} {op : MixinOp}
  {state after : PatchState}

/-- What an operation of a weave works with. -/
theorem Works.subject (works : weaver.Works mixins context op state after) :
    ∃ mixin ∈ mixins, op ∈ mixin.ops ∧ context.home.types = targets mixins ∧
      context.targetName = state.type.fullName := by
  obtain ⟨earlier, mixin, later, -, middle, between, split, -, index, type, mixinDef, mapped, done, rest, reached, known,
    subjects, begun, ops, ran, -⟩ := works
  obtain ⟨fields, rfl, fieldsMapped⟩ := MixinEngine.begin_mapped begun
  refine ⟨mixin, split ▸ List.mem_append_right earlier List.mem_cons_self,
    ops ▸ List.mem_append_right done List.mem_cons_self, rfl, ?_⟩
  have worked := MixinEngine.applyOps_grows ran
  have grown := TypeDef.Grows.trans _ _ _ (MixinContext.mapFields_grows fieldsMapped) worked
  exact (MixinEngine.subjects_fullName subjects).symm.trans grown.fullName.symm

/-- References move to plain names if the targets of the mixins have such names. -/
theorem Works.plainTargets (works : weaver.Works mixins context op state after)
    (names : ∀ mixin ∈ mixins, (TypeRef.ofFullName none mixin.target.fullName).Plain) : context.home.PlainTargets := by
  obtain ⟨-, -, -, types, -⟩ := works.subject
  intro name target found
  rw [types] at found
  obtain ⟨mixin, member, same⟩ := List.mem_map.mp (Table.mem_of_get?_ofList found)
  cases same
  exact names mixin member

/-- An injection of a weave is one of its operations. -/
theorem Injects.works {injection : Injection} (injects : weaver.Injects mixins injection) :
    weaver.Works mixins injection.context (.inject injection.descriptor) injection.before injection.after := by
  obtain ⟨earlier, mixin, later, applied, middle, between, split, before, index, type, mixinDef, mapped, reached, done, rest,
    subjects, begun, ops, ran⟩ := injects
  refine ⟨earlier, mixin, later, applied, middle, between, split, before, index, type, mixinDef, mapped, done, rest, reached,
    reached, subjects, begun, ops, ran, ?_⟩
  rw [MixinEngine.applyOp, injection.applied]

theorem Spares.woven {injection : Injection} (spares : weaver.Spares mixins injection.woven)
    (injects : weaver.Injects mixins injection) : injection.woven.Spare := spares.elim id injects.spare

theorem Spares.body {injection : Injection} (spares : weaver.Spares mixins injection.woven) :
    weaver.Spares mixins injection.body := spares.imp_left Injection.body_spare

namespace Verifiable

variable (verifiable : weaver.Verifiable mixins)

include verifiable

theorem isPlain (works : weaver.Works mixins context op state after) : op.IsPlain := by
  obtain ⟨mixin, member, listed, -⟩ := works.subject
  exact verifiable.ops mixin member op listed

theorem patch_steady (works : weaver.Works mixins context op state after) {patch : MethodDef}
    (member : patch ∈ context.mixinDef.methods) : patch.Steady fun _ => True := by
  obtain ⟨plain, own, defined, verified⟩ := verifiable.patches _ works.mixinDef patch member
  refine plain.steady (fun body held => ?_) _
  cases defined.symm.trans held
  exact verified

/-- The roles of a weave's injections state no type that is absent. -/
theorem roles {descriptor : InjectDescriptor} (works : weaver.Works mixins context (.inject descriptor) state after) :
    ∀ role ∈ descriptor.params, ∀ index type, role.slot? = some (index, type) → ¬TypeSig.opens type.fullName := by
  obtain ⟨mixin, among, listed, -⟩ := works.subject
  obtain ⟨definition, there, -, -, methods⟩ := descriptors_ok verifiable.read among
  obtain ⟨method, held, roles⟩ := methods descriptor listed
  have plain := (verifiable.patches definition there method (List.mem_of_getElem? held)).1
  exact WeaveConfig.roles_stated roles plain.params

theorem simple {injection : Injection}
    (works : weaver.Works mixins injection.context (.inject injection.descriptor) injection.before injection.after)
    (plain : ∀ earlier ∈ injection.before.type.methods, earlier.Plain) : injection.Simple :=
  ⟨verifiable.isPlain works, works.plainTargets verifiable.names, (plain _ (List.mem_of_getElem? injection.held)).params,
    (verifiable.patch_steady works (List.mem_of_getElem? injection.patched)).params, verifiable.roles works⟩

/-- A patch that is moved onto the type stays steady. -/
theorem ported_steady (works : weaver.Works mixins context op state after) {patch : MethodDef}
    (member : patch ∈ context.mixinDef.methods) {name : String} {flags : MethodFlags}
    (static : (context.home.method patch name flags).isStatic = patch.isStatic) (counts : Body → Prop) :
    (context.home.method patch name flags).Steady counts := by
  have steady := verifiable.patch_steady works member
  have plain := Rehoming.method_plain (works.plainTargets verifiable.names) steady.toPlain name flags
  have count : (context.home.method patch name flags).argumentCount = patch.argumentCount := by
    rw [MethodDef.argumentCount, static]
    show (patch.params.map context.home.param).length + _ = _
    rw [List.length_map]
    rfl
  have void : (context.home.method patch name flags).returns.isVoid = patch.returns.isVoid :=
    TypeSig.isVoid_mapRefs context.home.typeRef patch.returns
  refine ⟨plain, fun body defined _ => ?_, fun body defined _ => ?_, fun body defined _ => ?_⟩
  all_goals
    obtain ⟨old, held, rfl⟩ := Option.map_eq_some_iff.mp defined
  · exact context.home.body_coherent (steady.coherent old held trivial)
  · exact context.home.body_fresh (steady.fresh old held trivial)
  · rw [count, void]
    exact context.home.body_resembles.consistent (steady.consistent old held trivial)

/-- A method that a patch overwrites takes and returns as many values as the patch. -/
theorem overwritten_steady (works : weaver.Works mixins context op state after) {target patch : MethodDef} {body : Body}
    {position : Nat} (member : patch ∈ context.mixinDef.methods) (defined : patch.body = some body)
    (named : state.type.methodIndex? (context.overwrittenName patch) = some position)
    (held : state.type.methods[position]? = some target) (static : target.isStatic = patch.isStatic)
    (plain : target.Plain) (counts : Body → Prop) :
    ({ target with body := some (context.home.body body) } : MethodDef).Steady counts := by
  have targets := works.plainTargets verifiable.names
  have own := verifiable.patch_steady works member
  have same : target.fullNameIn state.type.fullName = context.overwrittenName patch := by
    obtain ⟨inside, found, -⟩ := List.findIdx?_eq_some_iff_getElem.mp named
    rw [(List.getElem?_eq_some_iff.mp held).2, beq_iff_eq] at found
    exact found
  obtain ⟨-, -, -, -, declaring⟩ := works.subject
  rw [MixinContext.overwrittenName, declaring] at same
  obtain ⟨void, count⟩ := MethodDef.same_room plain (Rehoming.sig_plain targets own.returns)
    (fun sig among => by
      obtain ⟨old, listed, rfl⟩ := List.mem_map.mp among
      exact Rehoming.sig_plain targets (own.params old listed)) same
  have arguments : target.argumentCount = patch.argumentCount := by
    rw [MethodDef.argumentCount, MethodDef.argumentCount, count, static, List.length_map, MethodDef.paramTypes,
      List.length_map]
  refine ⟨⟨plain.returns, plain.params⟩, fun other given _ => ?_, fun other given _ => ?_,
    fun other given _ => ?_⟩ <;> cases given
  · exact context.home.body_coherent (own.coherent body defined trivial)
  · exact context.home.body_fresh (own.fresh body defined trivial)
  · show StackContext.Consistent ⟨context.home.body body, target.argumentCount, !target.returns.isVoid⟩
    have moved : (context.home.sig patch.returns).isVoid = patch.returns.isVoid :=
      TypeSig.isVoid_mapRefs context.home.typeRef patch.returns
    rw [arguments, void, moved]
    exact context.home.body_resembles.consistent (own.consistent body defined trivial)

/-- Each operation keeps the methods of the target steady, as long as the last identity is not in use. -/
theorem step (context : MixinContext) (op : MixinOp) (state after : PatchState) (method : MethodDef)
    (works : weaver.Works mixins context op state after) (makes : context.Makes op state after method)
    (steady : ∀ earlier ∈ state.type.methods, earlier.Steady (weaver.Spares mixins)) :
    method.Steady (weaver.Spares mixins) := by
  cases makes with
  | kept member => exact steady method member
  | implementation own _ _ =>
      subst own
      exact (verifiable.isPlain works).elim
  | overwritten _ member defined named held static =>
      exact verifiable.overwritten_steady works member defined named held static
        (steady _ (List.mem_of_getElem? held)).toPlain _
  | callback injection _ own _ _ =>
      subst own
      exact verifiable.ported_steady works (List.mem_of_getElem? injection.patched)
        (injection.callback_isStatic.trans injection.accepted.1) _
  | injected injection own same before later =>
      subst own same before later
      have target := steady _ (List.mem_of_getElem? injection.held)
      have intact (spares : weaver.Spares mixins injection.woven) : injection.woven.Intact :=
        injection.woven_intact (target.coherent _ injection.defined spares.body) (target.fresh _ injection.defined spares.body)
          (spares.woven works.injects)
      refine ⟨⟨target.returns, target.params⟩, fun body given spares => ?_, fun body given spares => ?_,
        fun body given spares => ?_⟩ <;> cases given
      · exact (intact spares).sound.toCoherent
      · exact (intact spares).fresh
      · have simple := verifiable.simple works fun earlier member => (steady earlier member).toPlain
        have supplies := injection.supplies (target.fresh _ injection.defined spares.body) (spares.woven works.injects)
        exact simple.consistent (target.coherent _ injection.defined spares.body).distinct supplies
          (target.consistent _ injection.defined spares.body)

theorem target_steady (counts : Body → Prop) : weaver.target.EachMethod (MethodDef.Steady counts) :=
  fun type listed method member =>
    let ⟨plain, verified⟩ := verifiable.target type listed method member
    plain.steady verified counts

/-- Each operation leaves what was touched where it is found by its name. -/
theorem finds (works : weaver.Works mixins context op state after) (finds : state.Finds) : after.Finds := by
  have steady := works.reaches_methods verifiable.step (verifiable.target_steady _)
  have plain := verifiable.isPlain works
  obtain ⟨earlier, mixin, later, applied, middle, between, split, before, worked⟩ := id works
  cases op with
  | implements interface => exact plain.elim
  | overwrite index name => exact worked.finds_overwrite finds
  | inject descriptor =>
      obtain ⟨_, _, _, _, _, _, reached, known, -, -, -, -, one⟩ := id worked
      have made (method : MethodDef) (member : method ∈ after.type.methods) : method.Steady (weaver.Spares mixins) :=
        verifiable.step context _ state after method works (MixinEngine.applyOp_makes one method member) steady
      obtain ⟨injection, rfl, rfl, rfl, rfl⟩ := Injection.of_applied (congrArg Prod.fst one)
      have callback := made injection.callback (List.mem_of_getElem? injection.after_methods.1)
      refine worked.finds_inject (fun method member other same => other ?_) ?_ finds
      · exact (made method member).toPlain.name_eq callback.toPlain same
      · obtain ⟨-, body, defined, -⟩ := verifiable.patches _ works.mixinDef _ (List.mem_of_getElem? injection.patched)
        show (injection.patch.body.map injection.context.home.body).isSome = true
        rw [defined]
        rfl

/-- A weave of verified methods fails for want of stack depths only where a depth is too great, or where an injection has come
to the last identity. A call makes the method it goes into as deep as the deepest place that control reaches with the values of
the call on top, unless it was deeper. -/
theorem keeps_depths :
    (∀ name cause, weaver.apply.1 = .error (.invalidStack name cause) →
      (∃ depth, cause = .tooDeep depth ∧ 65535 < depth) ∨ weaver.Exhausts mixins) ∧
    ∀ injection greatest, weaver.Injects mixins injection → injection.woven.Spare →
      injection.target.maxDepth = .ok greatest →
      ({ injection.target with body := some injection.woven } : MethodDef).maxDepth =
        if injection.wovenDepth greatest.toNat ≤ 65535 then .ok (injection.wovenDepth greatest.toNat).toUInt16
        else .error (.tooDeep (injection.wovenDepth greatest.toNat)) := by
  refine ⟨fun name cause failed => ?_, fun injection greatest injects spare verified => ?_⟩
  · obtain ⟨again, applied, woven, known, read, ran, failed⟩ := apply_ofStack failed rfl
    cases Except.ok.inj (verifiable.read.symm.trans read)
    have steady := applyAll_preserves_methods verifiable.step (verifiable.target_steady _) ran
    obtain ⟨found, method, fault, same, own, some, depth⟩ :=
      Verification.run_error (fun _ depth steady => steady.withMaxStack depth fun _ => id) steady
        (applyAll_finds (fun _ _ _ _ works => verifiable.finds works) ran) failed
    cases same
    obtain ⟨body, defined⟩ := Option.isSome_iff_exists.mp some
    exact Classical.or_iff_not_imp_right.mpr fun within => own.maxDepth defined (.inr within) depth
  · have works := injects.works
    have steady := works.reaches_methods verifiable.step (verifiable.target_steady _)
    have own := steady _ (List.mem_of_getElem? injection.held)
    have body : weaver.Spares mixins injection.body := .inl (Injection.body_spare spare)
    exact (verifiable.simple works fun earlier member => (steady earlier member).toPlain).maxDepth_woven
      (own.coherent _ injection.defined body).distinct
      (injection.supplies (own.fresh _ injection.defined body) spare) verified

end Verifiable

end Weaver

namespace Deeper

def number (name : String) : ParamDef := ⟨name, .primitive .int32, []⟩

/-- A method that keeps the value it returns on the stack while it stores another one. -/
def code : Body :=
  ⟨8, true, #[.primitive .int32], #[⟨0, .ldarg0, .none⟩, ⟨1, .ldarg1, .none⟩, ⟨2, .stloc0, .none⟩,
    ⟨3, .ret, .none⟩], 0⟩

def keep : MethodDef := ⟨"Keep", ⟨MethodFlags.isStatic⟩, .primitive .int32, [number "x", number "y"], some code, []⟩

def nothing : Body := ⟨8, true, #[], #[⟨0, .ret, .none⟩], 0⟩

def reset : MethodDef := ⟨"Reset", ⟨MethodFlags.isStatic⟩, .void, [], some nothing, []⟩

def type : TypeDef := { TypeDef.empty "" "T" ⟨0⟩ none with methods := [keep, reset] }

def target : Module := ⟨"Game", [], [type]⟩

def marked (marker : Marker) (arguments : List Argument) : Attribute :=
  ⟨.onInstance (.classType ⟨some "DotMixin", "DotMixin", marker.name⟩) ".ctor" .void [], .decoded ⟨arguments, []⟩⟩

def notice : MethodDef :=
  ⟨"notice", ⟨MethodFlags.isStatic⟩, .void, [number "x", number "y"], some nothing,
    [marked .inject [.string "System.Int32 T::Keep(System.Int32,System.Int32)", .string "RETURN"]]⟩

def mixinType : TypeDef :=
  { TypeDef.empty "" "M" ⟨0⟩ none with methods := [notice], attributes := [marked .mixin [.type "T"]] }

def patch : MethodDef := { reset with attributes := [marked .overwrite []] }

def otherType : TypeDef :=
  { TypeDef.empty "" "N" ⟨0⟩ none with methods := [patch], attributes := [marked .mixin [.type "T"]] }

def weaver : Weaver := .new .standard target ⟨"Mods", [], [mixinType, otherType]⟩ ⟨[]⟩

def descriptor : InjectDescriptor :=
  ⟨0, "notice", "System.Int32 T::Keep(System.Int32,System.Int32)", .return, false, .return, 1, [.argument, .argument]⟩

def mixin : MixinDescriptor := ⟨"M", .type "T", 0, [], [.inject descriptor]⟩

def mixins : List MixinDescriptor := [mixin, ⟨"N", .type "T", 0, [], [.overwrite 0 "Reset"]⟩]

theorem read : weaver.descriptors = .ok mixins := by
  have succeeds : (weaver.config.mixinDescriptors weaver.mixins).isOk = true := by decide +kernel
  have same : (weaver.config.mixinDescriptors weaver.mixins).toOption.getD [] = mixins := by decide +kernel
  have sorted : MixinDescriptor.sortByPriority mixins = mixins := List.mergeSort_of_pairwise (by decide)
  rw [Weaver.descriptors, ok_of_isOk [] succeeds, same]
  exact congrArg Except.ok sorted

theorem verified {method : MethodDef} (valid : (method.body.getD default).validate.isOk = true)
    (unused : (method.body.getD default).nextId = 0) (depth : method.maxDepth.isOk = true) :
    ∀ body, method.body = some body → method.Verified body := by
  intro body defined
  rw [defined] at valid unused
  exact ⟨ok_of_isOk () valid, .inl unused, _, ok_of_isOk 0 depth⟩

theorem verifiable : weaver.Verifiable mixins where
  read := read
  ops := by simp [mixins, mixin, descriptor, MixinOp.IsPlain]
  names := by decide +kernel
  target := by
    intro type listed method member
    cases List.mem_singleton.mp listed
    obtain rfl | rfl := List.mem_pair.mp member
    · exact ⟨by decide +kernel, verified (by decide +kernel) rfl (by decide +kernel)⟩
    · exact ⟨by decide +kernel, verified (by decide +kernel) rfl (by decide +kernel)⟩
  patches := by
    intro type listed method member
    obtain rfl | rfl := List.mem_pair.mp listed
    · cases List.mem_singleton.mp member
      exact ⟨by decide +kernel, nothing, rfl, verified (by decide +kernel) rfl (by decide +kernel) nothing rfl⟩
    · cases List.mem_singleton.mp member
      exact ⟨by decide +kernel, nothing, rfl, verified (by decide +kernel) rfl (by decide +kernel) nothing rfl⟩

def context : MixinContext :=
  ⟨mixin, mixinType, "T", type.sig, ⟨.standard, "Mods", "Game", "M", Weaver.targets mixins, .empty⟩⟩

def before : PatchState := ⟨type, ⟨"M", "T", 0, 0, 0, 0, []⟩, []⟩

def after : PatchState := (context.applyInject descriptor before).toOption.getD before

theorem applied : context.applyInject descriptor before = .ok after := ok_of_isOk before (by decide +kernel)

def injection : Injection := .of applied 0 notice keep code none (.return true) rfl rfl rfl rfl rfl rfl

theorem injects : weaver.Injects mixins injection :=
  ⟨[], mixin, mixins.tail, [], target, .empty, rfl, rfl, 0, type, mixinType, before, .empty, [], [], rfl, rfl, rfl, rfl⟩

/-- Two values are loaded on top of the one that is kept. -/
theorem keeps_depths_three :
    weaver.Verifiable mixins ∧ weaver.Injects mixins injection ∧ injection.woven.Spare ∧
    injection.target.maxDepth = .ok 2 ∧
      (∀ name cause, weaver.apply.1 = .error (.invalidStack name cause) →
        (∃ depth, cause = .tooDeep depth ∧ 65535 < depth) ∨ weaver.Exhausts mixins) ∧
      ({ injection.target with body := some injection.woven } : MethodDef).maxDepth = .ok 3 := by
  have depth : injection.target.maxDepth = .ok 2 := rfl
  have spare : injection.woven.Spare := by decide +kernel
  obtain ⟨fails, grows⟩ := verifiable.keeps_depths
  refine ⟨verifiable, injects, spare, depth, fails, ?_⟩
  have three : injection.wovenDepth 2 = 3 := by decide +kernel
  have woven := grows injection 2 injects spare depth
  rw [show (2 : UInt16).toNat = 2 from rfl, three] at woven
  exact woven

/-- A branch to the value that is returned. One identity is left above that of the value. -/
def crowded : MethodDef :=
  { keep with
    body := some ⟨8, true, #[],
      #[⟨0, .brS, .target 4294967294⟩, ⟨4294967294, .ldarg0, .none⟩, ⟨1, .ret, .none⟩], 0⟩ }

def underflows (weaver : Weaver) : Bool :=
  match weaver.apply.1 with
  | .error (.invalidStack _ (.underflow ..)) => true
  | _ => false

-- All of the injected code has the last identity then, and the branch goes to the call instead of the loads in front of it.
example : underflows
    (.new .standard ⟨"Game", [], [{ type with methods := [crowded] }]⟩ ⟨"Mods", [], [mixinType]⟩ ⟨[]⟩) = true := by
  decide +kernel

end Deeper

namespace Misread

/-- A name that ends like one with a bracket and a parameter. -/
def short : MethodDef := { Deeper.reset with name := "f(A" }

def target : Module := ⟨"Game", [], [{ TypeDef.empty "" "T" ⟨0⟩ none with methods := [short] }]⟩

def reference : TypeRef := ⟨some "Game", "", "A("⟩

/-- A method that takes a value of a type with a bracket in its name. -/
def patch : MethodDef :=
  ⟨"f", ⟨MethodFlags.isStatic⟩, .void, [⟨"x", .classType reference, []⟩],
    some ⟨8, true, #[], #[⟨0, .ldarg0, .none⟩, ⟨1, .pop, .none⟩, ⟨2, .ret, .none⟩], 0⟩,
      [Deeper.marked .overwrite []]⟩

def mods : Module :=
  ⟨"Mods", [],
    [{ TypeDef.empty "" "M" ⟨0⟩ none with methods := [patch], attributes := [Deeper.marked .mixin [.type "T"]] }]⟩

def weaver : Weaver := .new .standard target mods ⟨[]⟩

def mixins : List MixinDescriptor := [⟨"M", .type "T", 0, [], [.overwrite 0 "f"]⟩]

/-- Whether a weave fails because a method takes no arguments. -/
def takesNone : Except WeaveFault WeaveReport → Bool
  | .error (.invalidStack _ (.noArgument _ _ taken)) => taken = 0
  | _ => false

/-- The patch for a method that takes a value goes where none is taken, and verification fails. -/
theorem patch_misread :
    weaver.descriptors = .ok mixins ∧ (∀ mixin ∈ mixins, ∀ op ∈ mixin.ops, op.IsPlain) ∧
      (target.EachMethod fun method => ∀ body, method.body = some body → method.Verified body) ∧
      (mods.EachMethod fun method => ∃ body, method.body = some body ∧ method.Verified body) ∧
      (∀ module ∈ [target, mods], ∀ type ∈ module.types, ∀ method ∈ type.methods,
        ∀ reference ∈ type.ref :: (method.returns :: method.paramTypes).flatMap TypeSig.refs,
          reference.name ≠ "" ∧ Lacks reference.fullName [',', '<', '>'] ∧ reference.fullName ≠ Primitive.void.name) ∧
      ∃ name label index, weaver.apply.1 = .error (.invalidStack name (.noArgument label index 0)) := by
  have read : weaver.descriptors = .ok mixins := by
    have succeeds : weaver.descriptors.isOk = true := by decide +kernel
    have same : weaver.descriptors.toOption.getD [] = mixins := by decide +kernel
    rw [ok_of_isOk [] succeeds, same]
  have failed : takesNone weaver.apply.1 = true := by decide +kernel
  refine ⟨read, by simp [mixins, MixinOp.IsPlain], fun type listed method member => ?_,
    fun type listed method member => ?_, by decide +kernel, ?_⟩
  · cases List.mem_singleton.mp listed
    cases List.mem_singleton.mp member
    exact Deeper.verified (by decide +kernel) rfl (by decide +kernel)
  · cases List.mem_singleton.mp listed
    cases List.mem_singleton.mp member
    exact ⟨_, rfl, Deeper.verified (by decide +kernel) rfl (by decide +kernel) _ rfl⟩
  · unfold takesNone at failed
    split at failed
    · rename_i name label index taken same
      cases of_decide_eq_true failed
      exact ⟨name, label, index, same⟩
    · cases failed

end Misread

end CilWeave
