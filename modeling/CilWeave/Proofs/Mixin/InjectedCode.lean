import CilWeave.Mixin.Callback
import CilWeave.Proofs.Assembler.Writing

/-!
The code that a callback's site writes, as a list: what each parameter is loaded from, the call, and what
follows a cancellation. Writing never fails, and the code takes the identities that the body hands out, which
are consecutive while there is room.
-/

open CilWeave.Stateful

namespace CilWeave

/-- What a value for a callback is loaded from. -/
inductive Source where
  | argument (index : UInt16)
  | slot (index : UInt16)
  | slotAddress (index : UInt16)
  | nothing
deriving DecidableEq

/-- The instruction that loads from a source. -/
def Source.draft : Source → Draft
  | .argument index => .loadArgument index
  | .slot index => .loadLocal index
  | .slotAddress index => .loadLocalAddress index
  | .nothing => ⟨.ldnull, .none⟩

namespace CallbackSite

variable (site : CallbackSite)

/-- What the callback's parameters are loaded from, the plain ones from consecutive arguments. -/
def paramSources (next : UInt16) : List ParamRole → List Source
  | [] => []
  | .argument :: roles => .argument next :: paramSources (next + 1) roles
  | .captureLocal index _ :: roles => .slot index :: paramSources next roles
  | .storeLocal index _ :: roles => .slotAddress index :: paramSources next roles
  | .carrier _ :: roles =>
    (match site.carrier with
      | some (slot, _) => Source.slot slot
      | none => .nothing) :: paramSources next roles

/-- What all values for the callback are loaded from: first the instance, if there is one. -/
def sources : List Source :=
  if site.hasThis then .argument 0 :: site.paramSources 1 site.params else site.paramSources 0 site.params

/-- The values are loaded, the callback is called, and its result is dropped. -/
def callDrafts : List Draft :=
  site.sources.map Source.draft ++ [⟨.call, .method site.callback⟩] ++
    if site.callback.returns.isVoid then [] else [⟨.pop, .none⟩]

/-- A fresh carrier is put into its local. -/
def carrierDrafts : List Draft :=
  match site.carrier with
  | none => []
  | some (slot, members) => [⟨.newobj, .method members.constructor⟩, .storeLocal slot]

/-- The carrier's value is loaded for the return. -/
def valueDrafts (slot : UInt16) (members : CarrierMembers) (withValue : Bool) : List Draft :=
  match withValue, members.returnValue with
  | true, some getter => [.loadLocal slot, ⟨.callvirt, .method getter⟩]
  | _, _ => []

/-- What follows the question whether the carrier is cancelled; the branch over a return goes to the
given identity. -/
def cancelDrafts (slot : UInt16) (members : CarrierMembers) (resume : InstrId) : CancelAction → List Draft
  | .return withValue =>
    ⟨.brfalseS, .target resume⟩ :: valueDrafts slot members withValue ++ [⟨.ret, .none⟩, ⟨.nop, .none⟩]
  | .branch target => [⟨.brtrueS, .target target⟩]

/-- The carrier is asked whether it is cancelled. -/
def questionDrafts (slot : UInt16) (members : CarrierMembers) : List Draft :=
  [.loadLocal slot, ⟨.callvirt, .method members.isCancelled⟩]

/-- The carrier is asked and the target goes on accordingly. -/
def askDrafts (resume : InstrId) (cancel : CancelAction) : List Draft :=
  match site.carrier with
  | none => []
  | some (slot, members) =>
    questionDrafts slot members ++ cancelDrafts slot members resume cancel

def drafts (resume : InstrId) (cancel : CancelAction) : List Draft :=
  site.carrierDrafts ++ site.callDrafts ++ site.askDrafts resume cancel

/-- How many instructions are written for one place. -/
def length (cancel : CancelAction) : Nat := (site.drafts 0 cancel).length

/-- The code for one place, with the given identities. A branch over a return goes to the last instruction. -/
def codeBy (cancel : CancelAction) (ids : Nat → InstrId) : List Instruction :=
  numbered ids (site.drafts (ids (site.length cancel - 1)) cancel)

/-- The code for one place, from the given identity on. -/
def codeAt (cancel : CancelAction) (first : InstrId) : List Instruction := site.codeBy cancel (counting first)

/-- A draft of a site's code, by what it is there for. -/
inductive Part (resume : InstrId) (cancel : CancelAction) : Draft → Prop
  | load {source : Source} : source ∈ site.sources → Part resume cancel source.draft
  | call : Part resume cancel ⟨.call, .method site.callback⟩
  | drop : Part resume cancel ⟨.pop, .none⟩
  | make {slot : UInt16} {members : CarrierMembers} : site.carrier = some (slot, members) →
      Part resume cancel ⟨.newobj, .method members.constructor⟩
  | keep {slot : UInt16} {members : CarrierMembers} : site.carrier = some (slot, members) →
      Part resume cancel (.storeLocal slot)
  | carrier {slot : UInt16} {members : CarrierMembers} : site.carrier = some (slot, members) →
      Part resume cancel (.loadLocal slot)
  | question {slot : UInt16} {members : CarrierMembers} : site.carrier = some (slot, members) →
      Part resume cancel ⟨.callvirt, .method members.isCancelled⟩
  | value {slot : UInt16} {members : CarrierMembers} {getter : MethodRef} : site.carrier = some (slot, members) →
      members.returnValue = some getter → Part resume cancel ⟨.callvirt, .method getter⟩
  | branch {target : InstrId} : cancel = .branch target → Part resume cancel ⟨.brtrueS, .target target⟩
  | skip : Part resume cancel ⟨.brfalseS, .target resume⟩
  | ret : Part resume cancel ⟨.ret, .none⟩
  | nop : Part resume cancel ⟨.nop, .none⟩

section Parts

variable {site} {resume : InstrId} {cancel : CancelAction} {draft : Draft}

theorem part_of_callDrafts (member : draft ∈ site.callDrafts) : site.Part resume cancel draft := by
  simp only [callDrafts, List.mem_append, List.mem_map, List.mem_singleton] at member
  rcases member with (⟨source, listed, rfl⟩ | rfl) | drops
  · exact .load listed
  · exact .call
  · split at drops
    · cases drops
    · cases List.mem_singleton.mp drops
      exact .drop

theorem part_of_askDrafts (member : draft ∈ site.askDrafts resume cancel) : site.Part resume cancel draft := by
  unfold askDrafts at member
  split at member
  · cases member
  · rename_i slot members held
    rcases List.mem_append.mp member with question | answer
    · obtain rfl | rfl := List.mem_pair.mp question
      · exact .carrier held
      · exact .question held
    · cases cancel with
      | branch target =>
          cases List.mem_singleton.mp answer
          exact .branch rfl
      | «return» withValue =>
          rcases List.mem_append.mp answer with front | back
          · rcases List.mem_cons.mp front with rfl | value
            · exact .skip
            · unfold valueDrafts at value
              split at value
              · rename_i getter
                obtain rfl | rfl := List.mem_pair.mp value
                · exact .carrier held
                · exact .value held getter
              · cases value
          · obtain rfl | rfl := List.mem_pair.mp back
            · exact .ret
            · exact .nop

theorem part_of_mem (member : draft ∈ site.drafts resume cancel) : site.Part resume cancel draft := by
  simp only [drafts, List.mem_append] at member
  rcases member with (creates | calls) | asks
  · unfold carrierDrafts at creates
    split at creates
    · cases creates
    · rename_i slot members held
      obtain rfl | rfl := List.mem_pair.mp creates
      · exact .make held
      · exact .keep held
  · exact part_of_callDrafts calls
  · exact part_of_askDrafts asks

end Parts

end CallbackSite

namespace CallbackSite

open Assembler

variable (site : CallbackSite)

theorem writes_loadParams (next : UInt16) (roles : List ParamRole) :
    Writes (site.loadParams next roles) ((site.paramSources next roles).map Source.draft) := by
  induction roles generalizing next with
  | nil => exact writes_pure ()
  | cons role rest ih =>
      cases role with
      | argument =>
          exact (writes_loadArgument next).bind fun _ => ih (next + 1)
      | captureLocal index type =>
          exact (writes_loadLocal index).bind fun _ => ih next
      | storeLocal index type =>
          exact (writes_loadLocalAddress index).bind fun _ => ih next
      | carrier kind =>
          unfold loadParams paramSources
          cases held : site.carrier with
          | none => exact (writes_emit ⟨.ldnull, .none⟩ rfl).bind fun _ => ih next
          | some carrier => exact (writes_loadLocal carrier.1).bind fun _ => ih next

theorem writes_emitCall : Writes site.emitCall site.callDrafts := by
  have dropped : Writes (if !site.callback.returns.isVoid then (do let _ ← emit .pop .none) else pure ())
      (if site.callback.returns.isVoid then [] else [⟨.pop, .none⟩]) := by
    cases site.callback.returns.isVoid with
    | true => exact writes_pure ()
    | false => exact (writes_emit ⟨.pop, .none⟩ rfl).bind fun _ => writes_pure ()
  have called : Writes (do
      let _ ← emit .call (.method site.callback)
      if !site.callback.returns.isVoid then
        let _ ← emit .pop .none)
      ([⟨.call, .method site.callback⟩] ++ if site.callback.returns.isVoid then [] else [⟨.pop, .none⟩]) :=
    (writes_emit ⟨.call, .method site.callback⟩ rfl).bind fun _ => dropped
  unfold emitCall callDrafts sources
  cases site.hasThis with
  | true =>
      rw [List.append_assoc]
      exact (writes_loadArgument 0).bind fun _ =>
        (site.writes_loadParams 1 site.params).bind fun _ => called
  | false =>
      rw [List.append_assoc]
      exact (site.writes_loadParams 0 site.params).bind fun _ => called

theorem length_cancelDrafts (slot : UInt16) (members : CarrierMembers) (resume other : InstrId) (cancel : CancelAction) :
    (cancelDrafts slot members resume cancel).length = (cancelDrafts slot members other cancel).length := by
  cases cancel <;> rfl

theorem length_drafts (resume : InstrId) (cancel : CancelAction) :
    (site.drafts resume cancel).length = site.length cancel := by
  unfold length drafts askDrafts
  cases site.carrier with
  | none => rfl
  | some carrier => simp [length_cancelDrafts carrier.1 carrier.2 resume 0 cancel]

theorem length_pos (cancel : CancelAction) : 0 < site.length cancel := by
  simp only [length, drafts, callDrafts, List.length_append, List.length_singleton]
  omega

@[simp] theorem length_codeBy (cancel : CancelAction) (ids : Nat → InstrId) :
    (site.codeBy cancel ids).length = site.length cancel := by
  rw [codeBy, length_numbered, length_drafts]

@[simp] theorem length_codeAt (cancel : CancelAction) (first : InstrId) :
    (site.codeAt cancel first).length = site.length cancel := site.length_codeBy cancel _

theorem ids_codeBy (cancel : CancelAction) (ids : Nat → InstrId) :
    (site.codeBy cancel ids).map (·.id) = (List.range (site.length cancel)).map ids := by
  rw [codeBy, ids_numbered, length_drafts]

theorem ids_codeAt (cancel : CancelAction) (first : InstrId) :
    (site.codeAt cancel first).map (·.id) = (List.range (site.length cancel)).map (counting first) :=
  site.ids_codeBy cancel _

theorem codeBy_head (cancel : CancelAction) (ids : Nat → InstrId) :
    ∃ instruction, (site.codeBy cancel ids)[0]? = some instruction ∧ instruction.id = ids 0 := by
  have heads := congrArg (·[0]?) (site.ids_codeBy cancel ids)
  simpa [site.length_pos cancel] using heads

theorem codeAt_head (cancel : CancelAction) (first : InstrId) :
    ∃ instruction, (site.codeAt cancel first)[0]? = some instruction ∧ instruction.id = first := by
  have head := site.codeBy_head cancel (counting first)
  rwa [counting_zero] at head

/-- While there is room, the identities handed out are consecutive. -/
theorem codeBy_upcoming {body : Body} {cancel : CancelAction}
    (room : body.nextFresh.toNat + site.length cancel < UInt32.size) :
    site.codeBy cancel body.upcoming = site.codeAt cancel body.nextFresh := by
  have same (position : Nat) (within : position ≤ site.length cancel) :
      body.upcoming position = counting body.nextFresh position :=
    Body.upcoming_eq (Nat.lt_of_le_of_lt (Nat.add_le_add_left within _) room)
  rw [codeAt, codeBy, codeBy, same _ (Nat.sub_le _ _)]
  refine numbered_congr fun position within => same position (Nat.le_of_lt ?_)
  rwa [length_drafts] at within

theorem writes_asking {slot : UInt16} {members : CarrierMembers} (held : site.carrier = some (slot, members)) :
    Writes (do
      let _ ← emit .newobj (.method members.constructor)
      let _ ← storeLocal slot
      site.emitCall
      let _ ← loadLocal slot
      emit .callvirt (.method members.isCancelled))
      (site.carrierDrafts ++ site.callDrafts ++ questionDrafts slot members) := by
  have asks := (writes_loadLocal slot).bind fun _ =>
    writes_emit ⟨.callvirt, .method members.isCancelled⟩ rfl
  have calls := site.writes_emitCall.bind fun _ => asks
  have stores := (writes_storeLocal slot).bind fun _ => calls
  have creates := (writes_emit ⟨.newobj, .method members.constructor⟩ rfl).bind fun _ => stores
  simp only [carrierDrafts, held, List.cons_append, List.nil_append]
  exact creates

end CallbackSite

namespace CallbackSite

open Assembler

variable (site : CallbackSite) (body : Body) (before : List Draft) (slot : UInt16) (members : CarrierMembers)

theorem writes_value (withValue : Bool) :
    Writes (do
      if withValue then
        if let some getter := members.returnValue then
          let _ ← loadLocal slot
          let _ ← emit .callvirt (.method getter)
      emit .ret .none) (valueDrafts slot members withValue ++ [⟨.ret, .none⟩]) := by
  have returns := writes_emit ⟨.ret, .none⟩ rfl
  cases withValue with
  | false => exact returns
  | true =>
      cases held : members.returnValue with
      | none => simpa [valueDrafts, held] using returns
      | some getter =>
          have gets := (writes_loadLocal slot).bind fun _ =>
            (writes_emit ⟨.callvirt, .method getter⟩ rfl).bind fun _ => returns
          simpa [valueDrafts, held] using gets

theorem emitCancel_branch (target : InstrId) :
    (emitCancel slot members (.branch target)).run.run (written body before []) =
      (.ok (), { written body (before ++ [⟨.brtrueS, .target unresolved⟩]) [⟨before.length, [cancelLabel]⟩] with
        labels := Table.empty.insert cancelLabel target }) := by
  have named : Opcode.ofMnemonic? "brtrue.s" = some .brtrueS := by decide
  have bound : (bindLabel cancelLabel target).run.run (written body before []) =
      (.ok (), { written body before [] with labels := Table.empty.insert cancelLabel target }) :=
    bindLabel_run _ target rfl
  rw [emitCancel, run_bind, bound]
  simp only [run_bind]
  rw [emitBranch_run _ _ named rfl rfl]
  simp only [run_pure]
  have added := writeAll_written body before [⟨.brtrueS, .target unresolved⟩] []
  simp only [List.foldl_cons, List.foldl_nil, write, written, Assembler.mk.injEq] at added
  simp only [write, written, added, List.foldl_nil, List.nil_append, length_numbered, List.size_toArray]

theorem emitCancel_return (withValue : Bool) :
    (emitCancel slot members (.return withValue)).run.run (written body before []) =
      (.ok (),
        { written body (before ++ ⟨.brfalseS, .target unresolved⟩ ::
            (valueDrafts slot members withValue ++ [⟨.ret, .none⟩, ⟨.nop, .none⟩]))
            [⟨before.length, [continueLabel]⟩] with
          labels := Table.empty.insert continueLabel
            (body.upcoming (before.length + (cancelDrafts slot members 0 (.return withValue)).length - 1)) }) := by
  have named : Opcode.ofMnemonic? "brfalse.s" = some .brfalseS := by decide
  have parts : emitCancel slot members (.return withValue) = (do
      let _ ← emitBranch "brfalse.s" continueLabel
      let _ ← (do
        if withValue then
          if let some getter := members.returnValue then
            let _ ← loadLocal slot
            let _ ← emit .callvirt (.method getter)
        emit .ret .none)
      define continueLabel
      let _ ← emit .nop .none) := by
    cases withValue with
    | false => rfl
    | true => cases held : members.returnValue <;> simp [emitCancel, held]
  have branched : (emitBranch "brfalse.s" continueLabel).run.run (written body before []) =
      (.ok (written body before []).body.nextFresh,
        written body (before ++ [⟨.brfalseS, .target unresolved⟩]) [⟨before.length, [continueLabel]⟩]) := by
    rw [emitBranch_run _ _ named rfl rfl]
    have added := writeAll_written body before [⟨.brfalseS, .target unresolved⟩] []
    simp only [List.foldl_cons, List.foldl_nil] at added
    rw [added]
    simp [written]
  obtain ⟨id, returned⟩ := writes_value slot members withValue
    (written body (before ++ [⟨.brfalseS, .target unresolved⟩]) [⟨before.length, [continueLabel]⟩])
  rw [writeAll_written] at returned
  rw [parts, run_bind, branched]
  simp only [run_bind]
  rw [returned]
  simp only
  rw [define_run _ rfl]
  simp only
  rw [emit_run _ (show Draft.wellFormed ⟨.nop, .none⟩ = true from rfl)]
  simp only [run_pure]
  have pending : (written body (before ++ [⟨.brfalseS, .target unresolved⟩] ++
      (valueDrafts slot members withValue ++ [⟨.ret, .none⟩])) [⟨before.length, [continueLabel]⟩]).pending = [] := rfl
  have last : (before ++ [(⟨.brfalseS, .target unresolved⟩ : Draft)] ++
      (valueDrafts slot members withValue ++ [(⟨.ret, .none⟩ : Draft)])).length =
        before.length + (cancelDrafts slot members 0 (.return withValue)).length - 1 := by
    have counted (more rest : Nat) : more + (0 + 1) + (rest + (0 + 1)) = more + (rest + (0 + 1 + 1) + 1) - 1 := by omega
    simp only [cancelDrafts, List.length_append, List.length_cons, List.length_nil, List.cons_append]
    exact counted _ _
  rw [pending, List.nil_append, write_labelled, last]
  simp

/-- After a cancellation is written, its branch goes where it should. -/
theorem emitCancel_written (cancel : CancelAction) :
    ∃ after, (emitCancel slot members cancel).run.run (written body before []) = (.ok (), after) ∧
      after.body = body.handOut (before.length + (cancelDrafts slot members 0 cancel).length) ∧
      after.finish = .ok (numbered body.upcoming (before ++ cancelDrafts slot members
        (body.upcoming (before.length + (cancelDrafts slot members 0 cancel).length - 1)) cancel)).toArray := by
  cases cancel with
  | branch target =>
      refine ⟨_, emitCancel_branch body before slot members target, ?_, ?_⟩
      · simp [written, cancelDrafts]
      · exact finish_eq body before [] .brtrueS cancelLabel target
  | «return» withValue =>
      refine ⟨_, emitCancel_return body before slot members withValue, ?_, ?_⟩
      · simp [written, cancelDrafts]
      · exact finish_eq body before _ .brfalseS continueLabel _

/-- Writing the code of a place succeeds and uses up as many identities as there are instructions. -/
theorem build_ok (cancel : CancelAction) :
    site.build body cancel = .ok ((site.codeBy cancel body.upcoming).toArray, body.handOut (site.length cancel)) := by
  cases held : site.carrier with
  | none =>
      obtain ⟨result, ran⟩ := site.writes_emitCall (written body [] [])
      have same (resume : InstrId) : site.drafts resume cancel = site.callDrafts := by
        simp [drafts, carrierDrafts, askDrafts, held]
      rw [writeAll_written, List.nil_append] at ran
      change site.emitCall.run.run (start body) = _ at ran
      simp only [build, code, held, ran, codeBy, length, same]
      rfl
  | some carrier =>
      obtain ⟨slot, members⟩ := carrier
      obtain ⟨id, asked⟩ := site.writes_asking held (written body [] [])
      rw [writeAll_written, List.nil_append] at asked
      have parts : site.code cancel = (do
          let _ ← (do
            let _ ← emit .newobj (.method members.constructor)
            let _ ← storeLocal slot
            site.emitCall
            let _ ← loadLocal slot
            emit .callvirt (.method members.isCancelled))
          emitCancel slot members cancel) := by
        simp only [code, held, bind_assoc]
      obtain ⟨after, ran, handed, finished⟩ := emitCancel_written body
        (site.carrierDrafts ++ site.callDrafts ++ questionDrafts slot members)
        slot members cancel
      have all (resume : InstrId) : site.drafts resume cancel =
          site.carrierDrafts ++ site.callDrafts ++ questionDrafts slot members ++
            cancelDrafts slot members resume cancel := by
        simp [drafts, askDrafts, held, List.append_assoc]
      have whole : (site.code cancel).run.run (start body) = (.ok (), after) := by
        rw [parts, run_bind, show start body = written body [] [] from rfl, asked]
        exact ran
      have length : site.length cancel = (site.carrierDrafts ++ site.callDrafts ++
          questionDrafts slot members).length +
            (cancelDrafts slot members 0 cancel).length := by
        rw [CallbackSite.length, all, List.length_append]
      simp only [build, whole, codeBy, all, length, handed, finished, bind, Except.bind, pure, Except.pure]

end CallbackSite

end CilWeave
