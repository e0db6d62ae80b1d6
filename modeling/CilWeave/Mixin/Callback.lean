import CilWeave.Assembler
import CilWeave.Mixin.Descriptor
import CilWeave.Signature.Names

/-!
The code injected for a callback: it loads what the callback's parameters receive and calls it. A
cancellable callback is also handed a carrier, which decides afterwards whether the target goes on.
-/

namespace CilWeave

/-- The members of a carrier type that injected code uses. -/
structure CarrierMembers where
  carrier : TypeSig
  constructor : MethodRef
  isCancelled : MethodRef
  /-- only carriers of a value have one -/
  returnValue : Option MethodRef

/-- A carrier of a value inherits the question whether it is cancelled from the plain carrier. -/
def CarrierMembers.of (carrier : TypeSig) (plain : String) : CarrierMembers :=
  let scope := carrier.reference?.bind (·.scope)
  let base := TypeSig.classType (.ofFullName scope plain)
  { carrier
    constructor := .onInstance carrier ".ctor" .void []
    isCancelled := .onInstance base "get_IsCancelled" (.primitive .boolean) []
    returnValue :=
      match carrier with
      | .generic _ _ => some (.onInstance carrier "get_ReturnValue" (.typeParam 0) [])
      | _ => none }

/-- What a cancelled target does. -/
inductive CancelAction where
  | return (withValue : Bool)
  | branch (target : InstrId)
deriving DecidableEq

structure CallbackSite where
  callback : MethodRef
  hasThis : Bool
  params : List ParamRole
  /-- the local that holds the carrier -/
  carrier : Option (UInt16 × CarrierMembers)

namespace CallbackSite

open Assembler

variable (site : CallbackSite)

/-- Loads what each parameter receives. Plain parameters receive the target's arguments in order,
starting with the given index. -/
def loadParams (next : UInt16) : List ParamRole → Assembly Unit
  | [] => return ()
  | role :: roles => do
    match role with
    | .argument =>
      let _ ← loadArgument next
      loadParams (next + 1) roles
    | .captureLocal index _ =>
      let _ ← loadLocal index
      loadParams next roles
    | .storeLocal index _ =>
      let _ ← loadLocalAddress index
      loadParams next roles
    | .carrier _ =>
      match site.carrier with
      | some (slot, _) => let _ ← loadLocal slot
      | none => let _ ← emit .ldnull .none
      loadParams next roles

/-- Calls the callback and drops what it returns. -/
def emitCall : Assembly Unit := do
  if site.hasThis then
    let _ ← loadArgument 0
  site.loadParams (if site.hasThis then 1 else 0) site.params
  let _ ← emit .call (.method site.callback)
  if !site.callback.returns.isVoid then
    let _ ← emit .pop .none

def continueLabel : String := "continue"

def cancelLabel : String := "cancel"

/-- What follows the question whether the carrier is cancelled. -/
def emitCancel (slot : UInt16) (members : CarrierMembers) : CancelAction → Assembly Unit
  | .return withValue => do
    let _ ← emitBranch "brfalse.s" continueLabel
    if withValue then
      if let some getter := members.returnValue then
        let _ ← loadLocal slot
        let _ ← emit .callvirt (.method getter)
    let _ ← emit .ret .none
    define continueLabel
    let _ ← emit .nop .none
  | .branch target => do
    bindLabel cancelLabel target
    let _ ← emitBranch "brtrue.s" cancelLabel

def code (cancel : CancelAction) : Assembly Unit := do
  match site.carrier with
  | none => site.emitCall
  | some (slot, members) =>
    let _ ← emit .newobj (.method members.constructor)
    let _ ← storeLocal slot
    site.emitCall
    let _ ← loadLocal slot
    let _ ← emit .callvirt (.method members.isCancelled)
    emitCancel slot members cancel

/-- The code with fresh identities of a body, and the body that has handed them out. -/
def build (body : Body) (cancel : CancelAction) : Except AssemblerFault (Array Instruction × Body) := do
  let (outcome, assembler) := (site.code cancel).run.run (Assembler.start body)
  outcome
  return (← assembler.finish, assembler.body)

end CallbackSite

end CilWeave
