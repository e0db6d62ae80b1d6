import CilWeave.Proofs.Mixin.Frame

/-!
Calls that a weave leaves in the bodies of its target. Whatever is spliced in or widened, no call goes; only an overwrite
that comes later takes the calls of a body with it.
-/

namespace CilWeave

open Stateful

/-- The method that an instruction calls by its reference. -/
def Instruction.callee? (instruction : Instruction) : Option MethodRef :=
  if instruction.opcode = .call then instruction.operand.method? else none

/-- How many instructions of a body call a method. -/
def Body.calls (body : Body) (method : MethodRef) : Nat :=
  body.instructions.toList.countP fun instruction => instruction.callee? == some method

theorem Instruction.Widens.callee? {narrow wide : Instruction} (widens : narrow.Widens wide) :
    wide.callee? = narrow.callee? := by
  rw [Instruction.callee?, Instruction.callee?, widens.operand]
  rcases widens.opcode with same | long
  · rw [same]
  · have short : narrow.opcode ≠ .call := by
      rintro called
      rw [called] at long
      cases long
    have other : wide.opcode ≠ .call := by
      intro called
      rw [called] at long
      revert long
      cases narrow.opcode <;> simp [Opcode.longForm?]
    rw [if_neg short, if_neg other]

namespace Body

variable {body wide next : Body} (method : MethodRef)

theorem Widens.calls (widens : body.Widens wide) : wide.calls method = body.calls method := by
  have callees : wide.instructions.toList.map Instruction.callee? = body.instructions.toList.map Instruction.callee? := by
    refine List.ext_getElem? fun position => ?_
    rw [List.getElem?_map, List.getElem?_map, Array.getElem?_toList, Array.getElem?_toList]
    cases found : body.instructions[position]? with
    | some instruction =>
        obtain ⟨widened, same, changed⟩ := widens.instructions position instruction found
        rw [same, Option.map_some, Option.map_some, changed.callee?]
    | none =>
        have outside := Array.getElem?_eq_none_iff.mp found
        rw [Array.getElem?_eq_none (widens.size ▸ outside)]
  have counted := congrArg (List.countP (· == some method)) callees
  rwa [List.countP_map, List.countP_map] at counted

/-- Branches that go elsewhere call nothing. -/
theorem calls_retargetWhere (source destination : InstrId) (chosen : InstrId → Bool) :
    (body.retargetWhere source destination chosen).2.calls method = body.calls method := by
  rw [Body.calls, retargetWhere, Array.toList_map, List.countP_map, Body.calls]
  refine List.countP_congr fun instruction _ => ?_
  rw [Function.comp_apply]
  split
  · rw [Instruction.callee?, Machine.Action.method?_mapTargets, Instruction.callee?]
  · rfl

/-- A sequence that is put in front of an instruction brings its own calls. -/
theorem calls_insertBefore {id : InstrId} {sequence : Array Instruction} (inserted : body.insertBefore id sequence = .ok next) :
    next.calls method =
      body.calls method + sequence.toList.countP fun instruction => instruction.callee? == some method := by
  unfold insertBefore at inserted
  split at inserted
  · rename_i position found
    cases inserted
    have whole := congrArg (List.countP fun instruction : Instruction => instruction.callee? == some method)
      (List.take_append_drop position body.instructions.toList)
    rw [List.countP_append] at whole
    have front : (body.instructions.take position).toList = body.instructions.toList.take position := by simp
    have back : (body.instructions.drop position).toList = body.instructions.toList.drop position := by
      simp [List.take_of_length_le]
    simp only [Body.calls, insertAt, Array.toList_append, front, back, List.countP_append]
    omega
  · cases inserted

end Body

theorem mapError_ok {ε ζ α : Type} {result : Except ε α} {change : ε → ζ} {value : α}
    (mapped : result.mapError change = .ok value) : result = .ok value := by
  cases result with
  | error fault => cases mapped
  | ok value => exact congrArg Except.ok (Except.ok.inj mapped)

/-- The code of a place calls its callback. -/
theorem CallbackSite.callee_codeBy (site : CallbackSite) (cancel : CancelAction) (ids : Nat → InstrId) :
    0 < (site.codeBy cancel ids).countP fun instruction => instruction.callee? == some site.callback := by
  obtain ⟨offset, called⟩ : ∃ offset : Nat, (site.drafts (ids (site.length cancel - 1)) cancel)[offset]? =
      some ⟨.call, .method site.callback⟩ := by
    refine List.getElem?_of_mem ?_
    simp [drafts, callDrafts]
  refine List.countP_pos_iff.mpr ⟨⟨ids offset, .call, .method site.callback⟩,
    ?_, by simp [Instruction.callee?, Operand.method?]⟩
  refine List.mem_of_getElem? (i := offset) ?_
  rw [codeBy, getElem?_numbered, called]
  rfl

namespace MixinContext

variable {site : CallbackSite} {cancel : CancelAction} {own points : List InstrId} {body next : Body} {point : InstrId}

/-- A splice adds a call of its callback, and takes none away. -/
theorem splice_calls (method : MethodRef) (spliced : splice site cancel own body point = .ok next) :
    body.calls method + (if method = site.callback then 1 else 0) ≤ next.calls method := by
  unfold splice at spliced
  rw [CallbackSite.build_ok] at spliced
  obtain ⟨⟨code, handed⟩, built, spliced⟩ := bind_ok spliced
  cases built
  have counter : (body.handOut (site.length cancel)).calls method = body.calls method := by
    rw [Body.calls, Body.instructions_handOut, Body.calls]
  have own : (if method = site.callback then 1 else 0) ≤
      (site.codeBy cancel body.upcoming).countP fun instruction => instruction.callee? == some method := by
    split
    · rename_i called
      exact called ▸ site.callee_codeBy cancel body.upcoming
    · exact Nat.zero_le _
  dsimp only at spliced
  split at spliced
  · rename_i none
    have head := site.codeBy_head cancel body.upcoming
    simp_all
  · have inserted := Body.calls_insertBefore method (mapError_ok spliced)
    rw [Body.calls_retargetWhere, counter, List.toList_toArray] at inserted
    omega

theorem spliceAll_calls (method : MethodRef) (spliced : points.foldlM (splice site cancel own) body = .ok next) :
    body.calls method + (if method = site.callback then points.length else 0) ≤ next.calls method := by
  induction points generalizing body with
  | nil =>
      cases spliced
      simp
  | cons point rest ih =>
      obtain ⟨middle, one, spliced⟩ := bind_ok spliced
      have first := splice_calls method one
      have others := ih spliced
      by_cases called : method = site.callback
      · rw [if_pos called] at first others ⊢
        rw [List.length_cons]
        omega
      · rw [if_neg called] at first others ⊢
        omega

end MixinContext

/-- An injection leaves the calls of the body it is for, and adds one of the callback for each place. -/
theorem Injection.calls (injection : Injection) (method : MethodRef) :
    injection.body.calls method + (if method = injection.site.callback then injection.splice.points.length else 0) ≤
      injection.woven.calls method := by
  obtain ⟨-, -, -, -, spliced, ran, woven, -⟩ := injection.accepted
  rw [woven, spliced.relax_widens.calls]
  have counted := MixinContext.spliceAll_calls method ran
  exact counted

/-- The method that a full name finds has a body, which calls another method at least so often. -/
def TypeDef.Calls (type : TypeDef) (name : String) (method : MethodRef) (count : Nat) : Prop :=
  ∃ caller body, type.method? name = some caller ∧ caller.body = some body ∧ count ≤ body.calls method

/-- The later method is the same up to its body, which has the calls that there were. -/
def MethodDef.KeepsCalls (called : MethodRef) (method later : MethodDef) : Prop :=
  ∀ body, method.body = some body → ∃ other, later.body = some other ∧ body.calls called ≤ other.calls called

theorem MethodDef.KeepsCalls.refl (called : MethodRef) (method : MethodDef) : method.KeepsCalls called method :=
  fun body defined => ⟨body, defined, Nat.le_refl _⟩

/-- The type may have gained members and other bodies, but the methods of a full name have the calls that they had. -/
structure TypeDef.KeepsCalls (name : String) (called : MethodRef) (type later : TypeDef) : Prop where
  fullName : later.fullName = type.fullName
  methods : Persist (fun method other => method.Alike other ∧
    (method.fullNameIn type.fullName = name → method.KeepsCalls called other)) type.methods later.methods

namespace TypeDef.KeepsCalls

variable {name : String} {called : MethodRef} {type later : TypeDef}

theorem calls (keeps : type.KeepsCalls name called later) {count : Nat} (calls : type.Calls name called count) :
    later.Calls name called count := by
  obtain ⟨caller, body, found, defined, enough⟩ := calls
  have named : caller.fullNameIn type.fullName = name := by simpa using List.find?_some found
  have blind (method other : MethodDef) (kept : method.Alike other ∧
      (method.fullNameIn type.fullName = name → method.KeepsCalls called other)) :
      (other.fullNameIn type.fullName == name) = (method.fullNameIn type.fullName == name) := by
    obtain ⟨⟨body, rfl⟩, -⟩ := kept
    rfl
  obtain ⟨other, there, -, kept⟩ := Persist.find? keeps.methods blind found
  rw [← keeps.fullName] at there
  obtain ⟨more, also, retained⟩ := kept named body defined
  exact ⟨other, more, there, also, Nat.le_trans enough retained⟩

theorem addMethods (name : String) (called : MethodRef) (type : TypeDef) (added : List MethodDef) :
    type.KeepsCalls name called { type with methods := type.methods ++ added } :=
  ⟨rfl, .append (fun method => ⟨.refl method, fun _ => .refl called method⟩) _ _⟩

theorem modify {index : Nat} {method : MethodDef} (held : type.methods[index]? = some method) {change : MethodDef → MethodDef}
    (alike : method.Alike (change method))
    (keeps : method.fullNameIn type.fullName = name → method.KeepsCalls called (change method)) :
    type.KeepsCalls name called { type with methods := type.methods.modify index change } := by
  refine ⟨rfl, fun position other there => ?_⟩
  rw [List.getElem?_modify, there]
  by_cases here : index = position
  · subst here
    cases held.symm.trans there
    exact ⟨change method, by simp, alike, keeps⟩
  · exact ⟨other, by simp [here], .refl other, fun _ => .refl called other⟩

end TypeDef.KeepsCalls

/-- The method that an injection is for calls the callback, once for each place. -/
theorem Injection.after_calls (injection : Injection) :
    injection.after.type.Calls injection.descriptor.targetMethod injection.site.callback injection.splice.points.length := by
  refine ⟨_, injection.woven, injection.keeps.method?_of_index injection.named injection.wove, rfl, ?_⟩
  have counted := injection.calls injection.site.callback
  rw [if_pos rfl] at counted
  exact Nat.le_trans (Nat.le_add_left _ _) counted

/-- An operation is not the overwrite of the method of a full name. -/
def MixinContext.Spares (context : MixinContext) (name : String) (op : MixinOp) : Prop :=
  ∀ index method patch, op = .overwrite index method → context.mixinDef.methods[index]? = some patch →
    context.overwrittenName patch ≠ name

namespace MixinEngine

variable {engine : MixinEngine} {context : MixinContext} {target woven : Module} {assemblies known : Assemblies}
  {state after : PatchState} {mixin : MixinDescriptor} {applied : AppliedMixin} {name : String}
  {called : MethodRef} {count : Nat}

/-- What is called by a method that is not overwritten, is called by it after an operation. -/
theorem applyOp_calls {op : MixinOp} (applied : engine.applyOp context target assemblies state op = (.ok after, known))
    (spares : context.Spares name op) (calls : state.type.Calls name called count) : after.type.Calls name called count := by
  cases op with
  | implements interface =>
      obtain ⟨_, _, methods, -, -, type, -⟩ := MixinContext.applyImplements_ok (congrArg Prod.fst applied)
      rw [type]
      have keeps : state.type.KeepsCalls name called { state.type with
          interfaces := state.type.interfacesWith (context.home.sig interface)
          methods := state.type.methods ++ methods } :=
        ⟨rfl, (TypeDef.KeepsCalls.addMethods name called state.type methods).methods⟩
      exact keeps.calls calls
  | overwrite index method =>
      obtain ⟨patch, _, position, old, patched, -, named, held, -, type, -⟩ :=
        MixinContext.applyOverwrite_ok (congrArg Prod.fst applied)
      rw [type]
      obtain ⟨own, there, called'⟩ := TypeDef.methodIndex?_mem named
      cases held.symm.trans there
      refine (TypeDef.KeepsCalls.modify held ⟨_, rfl⟩ fun same => ?_).calls calls
      exact absurd (called'.symm.trans same) (spares index method patch rfl patched)
  | inject descriptor =>
      obtain ⟨injection, rfl, rfl, rfl, rfl⟩ := Injection.of_applied (congrArg Prod.fst applied)
      obtain ⟨-, -, -, -, -, -, -, type⟩ := injection.accepted
      rw [type]
      have held : (injection.before.type.methods ++ [injection.callback])[injection.index]? = some injection.target := by
        rw [List.getElem?_append_left (List.getElem?_eq_some_iff.mp injection.held).1, injection.held]
      have added := (TypeDef.KeepsCalls.addMethods name called injection.before.type [injection.callback]).calls calls
      refine (TypeDef.KeepsCalls.modify held ⟨_, rfl⟩ fun _ body defined => ?_).calls added
      cases injection.defined.symm.trans defined
      exact ⟨injection.woven, rfl, Nat.le_trans (Nat.le_add_right _ _) (injection.calls called)⟩

theorem applyOps_calls {ops : List MixinOp} (spares : ∀ op ∈ ops, context.Spares name op)
    (ran : engine.applyOps context target ops assemblies state = (.ok after, known))
    (calls : state.type.Calls name called count) : after.type.Calls name called count := by
  refine applyOps_preserves (motive := fun state => state.type.Calls name called count) ?_ calls ran
  intro earlier op later before next between reached split _ one calls
  exact applyOp_calls one (spares op (split ▸ List.mem_append_right earlier List.mem_cons_self)) calls

end MixinEngine

/-- How often a method of a type, both found by their full names, calls another method at least. -/
def Module.Calls (module : Module) (typeName name : String) (method : MethodRef) (count : Nat) : Prop :=
  ∃ type, module.type? typeName = some type ∧ type.Calls name method count

/-- What holds of the type of some name holds when another type takes the place of one, if it holds of that type then. -/
theorem Module.found_of_placed {target woven : Module} {index : Nat} {type final : TypeDef} {typeName : String}
    {holds : TypeDef → Prop} (held : target.types[index]? = some type) (placed : woven.types = target.types.set index final)
    (same : final.fullName = type.fullName) (keeps : type.fullName = typeName → holds type → holds final)
    (found : ∃ type, target.type? typeName = some type ∧ holds type) :
    ∃ type, woven.type? typeName = some type ∧ holds type := by
  obtain ⟨own, found, holding⟩ := found
  have persist : Persist (fun type later => later.fullName = type.fullName ∧
      (type.fullName = typeName → holds type → holds later)) target.types woven.types :=
    placed ▸ .set (fun _ => ⟨rfl, fun _ holding => holding⟩) held ⟨same, keeps⟩
  obtain ⟨other, there, -, keeps⟩ := Persist.find? persist (fun _ _ kept => by rw [kept.1]) found
  exact ⟨other, there, keeps (Module.type?_fullName found) holding⟩

theorem Module.calls_iff {module : Module} {typeName name : String} {method : MethodRef} {count : Nat} :
    (((module.type? typeName).bind (·.method? name)).bind (·.body)).any (fun body => count ≤ body.calls method) = true ↔
      module.Calls typeName name method count := by
  simp only [Option.any_eq_true, Option.bind_eq_some_iff, decide_eq_true_eq]
  constructor
  · rintro ⟨body, ⟨caller, ⟨type, found, own⟩, defined⟩, enough⟩
    exact ⟨type, found, caller, body, own, defined, enough⟩
  · rintro ⟨type, found, caller, body, own, defined, enough⟩
    exact ⟨body, ⟨caller, ⟨type, found, own⟩, defined⟩, enough⟩

instance (module : Module) (typeName name : String) (method : MethodRef) (count : Nat) :
    Decidable (module.Calls typeName name method count) := decidable_of_iff _ Module.calls_iff

namespace MixinEngine

/-- A mixin has an overwrite for the method of a full name. -/
def Overwrites (engine : MixinEngine) (target : Module) (mixin : MixinDescriptor) (name : String) : Prop :=
  let home : Rehoming := ⟨engine.config, engine.mixinModule.name, target.name, mixin.mixinType, engine.types, .empty⟩
  ∃ index method mixinDef patch, .overwrite index method ∈ mixin.ops ∧
    engine.mixinModule.type? mixin.mixinType = some mixinDef ∧
    mixinDef.methods[index]? = some patch ∧
    memberName (home.sig patch.returns) mixin.target.fullName patch.name (patch.paramTypes.map home.sig) = name

/-- An injection that follows some of a mixin's operations. -/
def InjectsAfter (engine : MixinEngine) (target : Module) (mixin : MixinDescriptor) (done : List MixinOp)
    (assemblies : Assemblies) (injection : Injection) : Prop :=
  ∃ index type mixinDef mapped between, engine.subjects target mixin = .ok (index, type, mixinDef) ∧
    engine.begin target mixin type mixinDef = .ok (mapped, injection.context) ∧
    engine.applyOps injection.context target done assemblies { mapped with seen := [] } = (.ok injection.before, between)

variable {engine : MixinEngine} {context : MixinContext} {target woven : Module} {assemblies known : Assemblies}
  {mixin : MixinDescriptor} {applied : AppliedMixin} {typeName name : String} {called : MethodRef} {count : Nat}

theorem spares_of_overwrites {type mixinDef : TypeDef} {index : Nat} {mapped : PatchState}
    (subjects : engine.subjects target mixin = .ok (index, type, mixinDef))
    (begun : engine.begin target mixin type mixinDef = .ok (mapped, context)) (spared : ¬engine.Overwrites target mixin name) :
    ∀ op ∈ mixin.ops, context.Spares name op := by
  rintro op listed index method patch rfl patched named
  obtain ⟨fields, rfl, -⟩ := begin_mapped begun
  exact spared ⟨index, method, mixinDef, patch, listed, (subjects_ok subjects).2.2, patched, named⟩

/-- A mixin takes no calls from a method that it does not overwrite. -/
theorem apply_calls (accepted : engine.apply target mixin assemblies = (.ok (applied, woven), known))
    (spared : mixin.target.fullName = typeName → ¬engine.Overwrites target mixin name)
    (calls : target.Calls typeName name called count) : woven.Calls typeName name called count := by
  obtain ⟨index, type, mixinDef, mapped, context, final, subjects, begun, ran, -, rfl⟩ := apply_ok accepted
  obtain ⟨-, held, -⟩ := subjects_ok subjects
  have worked := applyOps_grows ran
  have grows := TypeDef.Grows.trans _ _ _ (begin_ok begun).1 worked
  refine Module.found_of_placed held (finish_types ..) grows.fullName (fun here calls => ?_) calls
  have own := spared ((subjects_fullName subjects).symm.trans here)
  refine applyOps_calls (spares_of_overwrites subjects begun own) ran ?_
  obtain ⟨fields, -, fieldsMapped⟩ := begin_mapped begun
  have methods : mapped.type.methods = type.methods := (MixinContext.mapFields_methods fieldsMapped).1
  have named : mapped.type.fullName = type.fullName := (MixinContext.mapFields_grows fieldsMapped).fullName
  rwa [TypeDef.Calls, TypeDef.method?, methods, named]

/-- The callback of an injection is called from its target once for each place when the mixin is done, if no overwrite
follows. -/
theorem apply_injects {descriptor : InjectDescriptor} {done rest : List MixinOp}
    (accepted : engine.apply target mixin assemblies = (.ok (applied, woven), known))
    (listed : mixin.ops = done ++ .inject descriptor :: rest) (follow : ∀ op ∈ rest, ∃ other, op = .inject other) :
    ∃ injection, engine.InjectsAfter target mixin done assemblies injection ∧ injection.descriptor = descriptor ∧
      woven.Calls mixin.target.fullName descriptor.targetMethod injection.site.callback injection.splice.points.length := by
  obtain ⟨index, type, mixinDef, mapped, context, final, subjects, begun, ran, -, rfl⟩ := apply_ok accepted
  obtain ⟨named, held, -⟩ := subjects_ok subjects
  have worked := applyOps_grows ran
  have grows := TypeDef.Grows.trans _ _ _ (begin_ok begun).1 worked
  rw [listed] at ran
  obtain ⟨before, between, first, ran⟩ := applyOps_append ran
  obtain ⟨after, next, one, ran⟩ := applyOps_cons ran
  obtain ⟨injection, rfl, rfl, rfl, rfl⟩ := Injection.of_applied (congrArg Prod.fst one)
  refine ⟨injection, ⟨index, type, mixinDef, mapped, between, subjects, begun, first⟩, rfl, final.type, ?_, ?_⟩
  · rw [Module.type?, finish_types]
    exact find?_set named (by rw [grows.fullName, subjects_fullName subjects, beq_self_eq_true])
  · refine applyOps_calls (fun op member => ?_) ran injection.after_calls
    obtain ⟨other, rfl⟩ := follow op member
    exact fun _ _ _ overwrites => MixinOp.noConfusion overwrites

end MixinEngine

/-- The operations of a mixin come in the order of their phases. -/
theorem WeaveConfig.mixinDescriptor?_phases {config : WeaveConfig} {type : TypeDef} {mixin : MixinDescriptor}
    (read : config.mixinDescriptor? type = .ok (some mixin)) :
    mixin.ops.Pairwise fun first second => first.phase ≤ second.phase := by
  obtain ⟨interfaces, injections, -, -, first, last, ops⟩ := mixinDescriptor?_read read
  have one : ∀ op ∈ interfaces, op.phase = 0 := by
    intro op member
    obtain ⟨_, rfl⟩ := interfaceOps_ok first member
    rfl
  have two : ∀ op ∈ config.overwriteOps type, op.phase = 1 := by
    intro op member
    obtain ⟨_, _, rfl⟩ := overwriteOps_mem member
    rfl
  have three : ∀ op ∈ injections, op.phase = 2 := by
    intro op member
    obtain ⟨_, rfl⟩ := injectOps_mem last member
    rfl
  rw [ops]
  refine List.pairwise_append.mpr ⟨List.pairwise_append.mpr ⟨?_, ?_, ?_⟩, ?_, ?_⟩
  · exact List.pairwise_of_forall_mem_list fun op own other member => by rw [one op own, one other member]
  · exact List.pairwise_of_forall_mem_list fun op own other member => by rw [two op own, two other member]
  · exact fun op own other member => by simp [one op own]
  · exact List.pairwise_of_forall_mem_list fun op own other member => by rw [three op own, three other member]
  · intro op own other member
    rw [three other member]
    rcases List.mem_append.mp own with own | own
    · simp [one op own]
    · simp [two op own]

/-- Nothing but injections follows an injection of a mixin. -/
theorem Weaver.descriptors_follow {weaver : Weaver} {mixins : List MixinDescriptor} (read : weaver.descriptors = .ok mixins)
    {mixin : MixinDescriptor} (member : mixin ∈ mixins) {descriptor : InjectDescriptor} {done rest : List MixinOp}
    (listed : mixin.ops = done ++ .inject descriptor :: rest) : ∀ op ∈ rest, ∃ other, op = .inject other := by
  obtain ⟨_, annotated, sorted⟩ := bind_ok read
  cases sorted
  obtain ⟨type, -, described⟩ := WeaveConfig.mixinDescriptors_ok annotated (List.mem_mergeSort.mp member)
  have ordered := WeaveConfig.mixinDescriptor?_phases described
  rw [listed] at ordered
  have after := (List.pairwise_cons.mp (List.pairwise_append.mp ordered).2.1).1
  intro op among
  have late : 2 ≤ op.phase := after op among
  cases op with
  | inject other => exact ⟨other, rfl⟩
  | implements _ | overwrite _ _ => simp [MixinOp.phase] at late

/-- Writing down a depth changes no calls. -/
theorem Verification.run_calls {config : WeaveConfig} {module : Module} {applied : List AppliedMixin} {outcome : Verification}
    {typeName name : String} {called : MethodRef} {count : Nat} (ran : run config module applied = .ok outcome)
    (calls : module.Calls typeName name called count) : outcome.module.Calls typeName name called count := by
  refine run_keeps (motive := fun state => state.module.Calls typeName name called count)
    (fun mixin _ touched _ before after kept verified => ?_) calls ran
  rcases method_resizes verified with same | ⟨place, index, depth, found, same⟩
  · exact same ▸ kept
  · obtain ⟨type, -, held, -, method⟩ := Module.place?_ok found
    obtain ⟨own, there, -⟩ := TypeDef.methodIndex?_mem method
    have resized : type.KeepsCalls name called
        { type with methods := type.methods.modify index fun method => method.withMaxStack depth } := by
      refine .modify there ⟨_, rfl⟩ fun _ body defined => ?_
      exact ⟨{ body with maxStack := depth }, by rw [MethodDef.withMaxStack, defined]; rfl, Nat.le_refl _⟩
    have placed : after.module.types = before.module.types.set place
        { type with methods := type.methods.modify index fun method => method.withMaxStack depth } := by
      rw [same, Module.resize, List.modify_eq_set, held]
      rfl
    exact Module.found_of_placed held placed rfl (fun _ => resized.calls) kept

namespace Weaver

variable {weaver after : Weaver} {earlier later mixins : List MixinDescriptor} {mixin : MixinDescriptor} {report : WeaveReport}

theorem applyAll_calls {engine : MixinEngine} {target woven : Module} {assemblies known : Assemblies}
    {applied : List AppliedMixin}
    {typeName name : String} {called : MethodRef} {count : Nat}
    (ran : applyAll engine mixins target assemblies = (.ok (applied, woven), known))
    (spared : ∀ mixin ∈ mixins, mixin.target.fullName = typeName → ¬engine.Overwrites target mixin name)
    (calls : target.Calls typeName name called count) : woven.Calls typeName name called count := by
  induction mixins generalizing target assemblies applied with
  | nil =>
      cases ran
      exact calls
  | cons mixin rest ih =>
      obtain ⟨one, others, middle, between, rfl, first, ran⟩ := applyAll_cons ran
      have same : middle.name = target.name := (MixinEngine.apply_continues first).adds.name
      refine ih ran (fun other member => ?_) (MixinEngine.apply_calls first (spared mixin List.mem_cons_self) calls)
      rw [MixinEngine.Overwrites, same]
      exact spared other (List.mem_cons_of_mem _ member)

/-- No injection is lost but to a later overwrite: what a mixin injected into a method is called from it in the end, once for
each place, unless a mixin that comes later overwrites that method. -/
theorem keeps_calls (accepted : weaver.apply = (.ok report, after))
    (read : weaver.descriptors = .ok (earlier ++ mixin :: later))
    {descriptor : InjectDescriptor} {done rest : List MixinOp} (listed : mixin.ops = done ++ .inject descriptor :: rest)
    (spared : ∀ other ∈ later, other.target.fullName = mixin.target.fullName →
      ¬(weaver.engine (earlier ++ mixin :: later)).Overwrites weaver.target other descriptor.targetMethod) :
    ∃ applied middle between injection,
      applyAll (weaver.engine (earlier ++ mixin :: later)) earlier weaver.target weaver.assemblies =
        (.ok (applied, middle), between) ∧
      (weaver.engine (earlier ++ mixin :: later)).InjectsAfter middle mixin done between injection ∧
      injection.descriptor = descriptor ∧
      after.target.Calls mixin.target.fullName descriptor.targetMethod injection.site.callback
        injection.splice.points.length := by
  obtain ⟨mixins, all, woven, known, outcome, again, ran, verified, rfl, rfl⟩ := apply_reports accepted
  cases Except.ok.inj (read.symm.trans again)
  obtain ⟨applied, others, middle, between, -, before, ran⟩ := applyAll_append ran
  obtain ⟨one, more, next, reached, -, first, ran⟩ := applyAll_cons ran
  have member : mixin ∈ earlier ++ mixin :: later := List.mem_append_right earlier List.mem_cons_self
  obtain ⟨injection, injects, same, calls⟩ := MixinEngine.apply_injects first listed (descriptors_follow read member listed)
  refine ⟨applied, middle, between, injection, before, injects, same, Verification.run_calls verified ?_⟩
  have called : next.name = weaver.target.name :=
    (MixinEngine.apply_continues first).adds.name.trans (applyAll_continues before).adds.name
  refine applyAll_calls ran (fun other member => ?_) calls
  rw [MixinEngine.Overwrites, called]
  exact spared other member

end Weaver

namespace Deeper

def other : MixinDescriptor := ⟨"N", .type "T", 0, [], [.overwrite 0 "Reset"]⟩

/-- The other mixin overwrites a method that has no injection. -/
theorem keep_spared :
    ¬(weaver.engine (mixin :: [other])).Overwrites weaver.target other "System.Int32 T::Keep(System.Int32,System.Int32)" := by
  rintro ⟨index, method, mixinDef, patch, listed, found, patched, named⟩
  obtain ⟨rfl, rfl⟩ := MixinOp.overwrite.inj (List.mem_singleton.mp listed)
  cases found
  cases patched
  exact absurd named (by decide +kernel)

def run : Except WeaveFault (List AppliedMixin × Module) × Assemblies :=
  Weaver.applyAll (weaver.engine (mixin :: [other])) (mixin :: [other]) target .empty

def woven : List AppliedMixin × Module := run.1.toOption.getD default

theorem ran : Weaver.applyAll (weaver.engine (mixin :: [other])) (mixin :: [other]) target .empty = (.ok woven, run.2) :=
  Prod.ext (ok_of_isOk default (by decide +kernel)) rfl

theorem keeps_calls_notice : ∃ report after applied middle between injection, weaver.apply = (.ok report, after) ∧
    Weaver.applyAll (weaver.engine (mixin :: [other])) [] target .empty = (.ok (applied, middle), between) ∧
    (weaver.engine (mixin :: [other])).InjectsAfter middle mixin [] between injection ∧ injection.descriptor = descriptor ∧
    after.target.Calls "T" descriptor.targetMethod injection.site.callback injection.splice.points.length := by
  obtain ⟨outcome, verified⟩ : ∃ outcome, Verification.run .standard woven.2 woven.1 = .ok outcome :=
    ⟨_, ok_of_isOk ⟨default, [], 0, []⟩ (by decide +kernel)⟩
  have read : weaver.descriptors = .ok ([] ++ mixin :: [other]) := read
  have accepted := Weaver.apply_accepts read ran verified
  have spared : ∀ one ∈ [other], one.target.fullName = mixin.target.fullName →
      ¬(weaver.engine (mixin :: [other])).Overwrites weaver.target one descriptor.targetMethod := by
    intro one member _
    rw [List.mem_singleton.mp member]
    exact keep_spared
  obtain ⟨applied, middle, between, injection, before, injects, same, calls⟩ :=
    Weaver.keeps_calls accepted read (show mixin.ops = [] ++ .inject descriptor :: [] from rfl) spared
  exact ⟨_, _, applied, middle, between, injection, accepted, before, injects, same, calls⟩

end Deeper

namespace Replaced

open Deeper (marked)

def watch : MethodDef :=
  ⟨"watch", ⟨MethodFlags.isStatic⟩, .void, [], some Deeper.nothing,
    [marked .inject [.string "System.Void T::Reset()", .string "HEAD"]]⟩

def mixinType : TypeDef :=
  { TypeDef.empty "" "M" ⟨0⟩ none with methods := [watch], attributes := [marked .mixin [.type "T"]] }

def weaver : Weaver := .new .standard Deeper.target ⟨"Mods", [], [mixinType, Deeper.otherType]⟩ ⟨[]⟩

def descriptor : InjectDescriptor := ⟨0, "watch", "System.Void T::Reset()", .head, false, .return, 1, []⟩

def mixin : MixinDescriptor := ⟨"M", .type "T", 0, [], [.inject descriptor]⟩

theorem read : weaver.descriptors = .ok (mixin :: [Deeper.other]) :=
  Weaver.descriptors_of_sorted (by decide +kernel) (by decide)

def engine : MixinEngine := weaver.engine (mixin :: [Deeper.other])

def context : MixinContext :=
  ⟨mixin, mixinType, "T", Deeper.type.sig, ⟨.standard, "Mods", "Game", "M", engine.types, .empty⟩⟩

def before : PatchState := ⟨Deeper.type, ⟨"M", "T", 0, 0, 0, 0, []⟩, []⟩

def after : PatchState := (context.applyInject descriptor before).toOption.getD before

theorem injected : context.applyInject descriptor before = .ok after := ok_of_isOk before (by decide +kernel)

def injection : Injection := .of injected 1 watch Deeper.reset Deeper.nothing none (.return false) rfl rfl rfl rfl rfl rfl

def run : Except WeaveFault (List AppliedMixin × Module) × Assemblies :=
  Weaver.applyAll engine (mixin :: [Deeper.other]) Deeper.target .empty

def woven : List AppliedMixin × Module := run.1.toOption.getD default

theorem ran : Weaver.applyAll engine (mixin :: [Deeper.other]) Deeper.target .empty = (.ok woven, run.2) :=
  Prod.ext (ok_of_isOk default (by decide +kernel)) rfl

def outcome : Verification := (Verification.run .standard woven.2 woven.1).toOption.getD ⟨default, [], 0, []⟩

theorem verified : Verification.run .standard woven.2 woven.1 = .ok outcome :=
  ok_of_isOk (⟨default, [], 0, []⟩ : Verification) (by decide +kernel)

/-- A callback was injected in one place, and is called no more when the next mixin has overwritten its target. -/
theorem calls_overwritten : ∃ report after, weaver.apply = (.ok report, after) ∧
    weaver.descriptors = .ok (mixin :: [Deeper.other]) ∧
    engine.InjectsAfter Deeper.target mixin [] .empty injection ∧ injection.descriptor = descriptor ∧
    injection.splice.points.length = 1 ∧ report.injections = 1 ∧
    ¬after.target.Calls "T" descriptor.targetMethod injection.site.callback injection.splice.points.length := by
  refine ⟨_, _, Weaver.apply_accepts read ran verified, read, ?_, rfl, rfl, ?_, ?_⟩
  · exact ⟨0, Deeper.type, mixinType, before, .empty, rfl, rfl, rfl⟩
  · decide +kernel
  · decide +kernel

end Replaced

end CilWeave
