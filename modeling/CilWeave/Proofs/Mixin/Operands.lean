import CilWeave.Proofs.Mixin.Cancellation
import CilWeave.Proofs.Mixin.WovenBodies

/-!
The types and members that code names: those of the operands of a body, and what splicing adds to them. Besides the operands
of the body it goes into, injected code names the callback and the members of its carrier.
-/

namespace CilWeave

open Stateful

/-- The type on which an operand looks for a member. -/
def Operand.owner? : Operand → Option TypeRef
  | .method reference => reference.declaring.reference?
  | .field reference => reference.declaring.reference?
  | _ => .none

/-- The types that an operand names. -/
def Operand.refs : Operand → List TypeRef
  | .method reference => reference.refs
  | .field reference => reference.refs
  | .type sig => sig.refs
  | _ => []

theorem TypeSig.reference?_mem {sig : TypeSig} {reference : TypeRef} (named : sig.reference? = some reference) :
    reference ∈ sig.refs := by
  cases sig <;> cases named <;> simp [refs]

theorem Operand.owner?_of_refs {operand : Operand} (nameless : operand.refs = []) : operand.owner? = .none := by
  refine Option.eq_none_iff_forall_ne_some.mpr fun owner owned => ?_
  have among : owner ∈ operand.refs := by
    cases operand with
    | method reference => exact List.mem_append_left _ (List.mem_append_left _ (TypeSig.reference?_mem owned))
    | field reference => exact List.mem_append_left _ (TypeSig.reference?_mem owned)
    | _ => cases owned
  rw [nameless] at among
  cases among

def Body.operands (body : Body) : List Operand := body.instructions.toList.map (·.operand)

def MethodDef.operands (method : MethodDef) : List Operand := (method.body.map Body.operands).getD []

def TypeDef.operands (type : TypeDef) : List Operand := type.methods.flatMap MethodDef.operands

def Module.operands (module : Module) : List Operand := module.types.flatMap TypeDef.operands

theorem Operand.mapTargets_or (operand : Operand) (rename : InstrId → InstrId) :
    operand.mapTargets rename = operand ∨ (operand.mapTargets rename).refs = [] := by
  cases operand with
  | target id => exact .inr rfl
  | «switch» ids => exact .inr rfl
  | _ => exact .inl rfl

theorem Module.eachMethod_operands {module : Module} {holds : Operand → Prop} :
    (∀ operand ∈ module.operands, holds operand) ↔ module.EachMethod fun method => ∀ operand ∈ method.operands,
      holds operand := by
  simp only [operands, TypeDef.operands, EachMethod, List.forall_mem_flatMap]

theorem MethodDef.mem_operands {method : MethodDef} {operand : Operand} :
    operand ∈ method.operands ↔ ∃ body, method.body = some body ∧ operand ∈ body.operands := by
  cases body : method.body <;> simp [operands, body]

theorem Rehoming.operands_body (home : Rehoming) (body : Body) :
    (home.body body).operands = body.operands.map home.operand := by
  simp [Rehoming.body, Body.operands, Function.comp_def]

theorem MethodDef.operands_withMaxStack (method : MethodDef) (depth : UInt16) :
    (method.withMaxStack depth).operands = method.operands := by
  simp only [operands, withMaxStack, Option.map_map]
  rfl

theorem Body.Widens.operands {body wide : Body} (widens : body.Widens wide) : wide.operands = body.operands := by
  refine List.ext_getElem? fun position => ?_
  simp only [Body.operands, List.getElem?_map, Array.getElem?_toList]
  cases found : body.instructions[position]? with
  | some instruction =>
      obtain ⟨widened, same, changed⟩ := widens.instructions position instruction found
      simp [same, changed.operand]
  | none =>
      have outside := Array.getElem?_eq_none_iff.mp found
      rw [Array.getElem?_eq_none (widens.size ▸ outside)]

namespace CallbackSite

variable {site : CallbackSite} {resume : InstrId} {cancel : CancelAction} {draft : Draft}

/-- The members that the code of a callback names. -/
inductive Names (site : CallbackSite) : Operand → Prop
  | callback : site.Names (.method site.callback)
  | constructor {slot : UInt16} {members : CarrierMembers} : site.carrier = some (slot, members) →
      site.Names (.method members.constructor)
  | question {slot : UInt16} {members : CarrierMembers} : site.carrier = some (slot, members) →
      site.Names (.method members.isCancelled)
  | value {slot : UInt16} {members : CarrierMembers} {getter : MethodRef} : site.carrier = some (slot, members) →
      members.returnValue = some getter → site.Names (.method getter)

theorem refs_indexed {own : List Opcode} {short long : Opcode} {operand : UInt16 → Operand} {index : UInt16}
    (nameless : (operand index).refs = []) : (Draft.indexed own short long operand index).operand.refs = [] := by
  unfold Draft.indexed
  split
  · rfl
  · exact nameless

theorem draft_refs (source : Source) : source.draft.operand.refs = [] := by
  cases source with
  | argument index | slot index | slotAddress index => exact refs_indexed rfl
  | nothing => rfl

theorem codeBy_names {ids : Nat → InstrId} {instruction : Instruction} (member : instruction ∈ site.codeBy cancel ids) :
    instruction.operand.refs = [] ∨ site.Names instruction.operand := by
  obtain ⟨offset, found⟩ := List.getElem?_of_mem member
  rw [codeBy, getElem?_numbered] at found
  obtain ⟨draft, drafted, rfl⟩ := Option.map_eq_some_iff.mp found
  cases part_of_mem (List.mem_of_getElem? drafted) with
  | load _ => exact .inl (draft_refs _)
  | keep _ | carrier _ => exact .inl (refs_indexed rfl)
  | call => exact .inr .callback
  | make held => exact .inr (.constructor held)
  | question held => exact .inr (.question held)
  | value held returns => exact .inr (.value held returns)
  | drop | branch | skip | ret | nop => exact .inl rfl

end CallbackSite

theorem Body.insertBefore_operands {body after : Body} {id : InstrId} {sequence : Array Instruction}
    (inserted : body.insertBefore id sequence = .ok after) :
    ∀ operand ∈ after.operands, operand ∈ body.operands ∨ ∃ instruction ∈ sequence.toList,
      instruction.operand = operand := by
  unfold insertBefore at inserted
  split at inserted
  · cases inserted
    intro operand member
    obtain ⟨instruction, listed, rfl⟩ := List.mem_map.mp member
    simp only [insertAt, Array.toList_append, List.mem_append, Array.take_eq_extract, Array.drop_eq_extract,
      Array.toList_extract,
      List.extract_eq_take_drop] at listed
    rcases listed with (front | new) | back
    · exact .inl (List.mem_map_of_mem (List.mem_of_mem_drop (List.mem_of_mem_take front)))
    · exact .inr ⟨instruction, new, rfl⟩
    · exact .inl (List.mem_map_of_mem (List.mem_of_mem_drop (List.mem_of_mem_take back)))
  · cases inserted

section

variable {holds : Operand → Prop} (nameless : ∀ operand : Operand, operand.refs = [] → holds operand)

include nameless

theorem Body.retargetWhere_operands {body : Body} (each : ∀ operand ∈ body.operands, holds operand)
    (source destination : InstrId) (chosen : InstrId → Bool) :
    ∀ operand ∈ (body.retargetWhere source destination chosen).2.operands, holds operand := by
  intro operand member
  obtain ⟨instruction, listed, rfl⟩ := List.mem_map.mp member
  rw [retargetWhere, Array.toList_map] at listed
  obtain ⟨old, among, rfl⟩ := List.mem_map.mp listed
  have held : holds old.operand := each _ (List.mem_map_of_mem among)
  by_cases own : chosen old.id = true
  · rw [if_pos own]
    rcases old.operand.mapTargets_or fun target => if target = source then destination else target with same | none
    · exact same.symm ▸ held
    · exact nameless _ none
  · rw [if_neg own]
    exact held

/-- What is true of a body's operands and of those of the code remains true when the code is put in. -/
theorem MixinContext.splice_operands {site : CallbackSite} {cancel : CancelAction} {own : List InstrId} {body after : Body}
    {point : InstrId} (named : ∀ operand, site.Names operand → holds operand)
    (each : ∀ operand ∈ body.operands, holds operand)
    (spliced : splice site cancel own body point = .ok after) : ∀ operand ∈ after.operands, holds operand := by
  have handed : ∀ operand ∈ (body.handOut (site.length cancel)).operands, holds operand := by
    rw [Body.operands, Body.instructions_handOut]
    exact each
  simp only [splice, CallbackSite.build_ok, Except.mapError, bind, Except.bind] at spliced
  split at spliced
  · cases spliced
    exact handed
  · rename_i first _
    have moved := Body.retargetWhere_operands nameless handed point first.id own.contains
    split at spliced
    · cases spliced
    · rename_i inserted
      cases spliced
      intro operand member
      rcases Body.insertBefore_operands inserted operand member with old | ⟨instruction, new, rfl⟩
      · exact moved operand old
      · rcases CallbackSite.codeBy_names new with none | names
        · exact nameless _ none
        · exact named _ names

/-- What is true of the target's operands and of the members that injected code names is true of the woven body's. -/
theorem Injection.woven_operands (injection : Injection) (named : ∀ operand, injection.site.Names operand → holds operand)
    (each : ∀ operand ∈ injection.body.operands, holds operand) :
    ∀ operand ∈ injection.woven.operands, holds operand := by
  obtain ⟨-, -, -, -, spliced, ran, woven, -⟩ := injection.accepted
  rw [woven, (Body.relax_widens spliced).operands]
  have begins : ∀ operand ∈ injection.original.operands, holds operand := each
  refine foldlM_ok (motive := fun body : Body => ∀ operand ∈ body.operands, holds operand) ?_ begins ran
  exact fun point _ body after each one => MixinContext.splice_operands nameless named each one

end

end CilWeave
