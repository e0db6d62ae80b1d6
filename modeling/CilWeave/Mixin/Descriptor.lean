import CilWeave.Signature.Basic
import CilWeave.Text.Split

/-!
What a mixin asks for: the type it is for, what becomes of its fields, and its operations on the
methods of that type.
-/

namespace CilWeave

/-- The target of a mixin, given as a type or by name. -/
inductive MixinTarget where
  | type (fullName : String)
  | name (fullName : String)
deriving DecidableEq, Inhabited

/-- Where a callback is injected. -/
inductive Location where
  | head
  | return
  | instruction (line : String)
deriving DecidableEq, Inhabited

/-- Where a cancelled method goes on. -/
inductive CancelTarget where
  | return
  | instruction (line : String)
deriving DecidableEq, Inhabited

/-- The carrier through which a callback cancels its target. -/
inductive CarrierKind where
  | plain
  | typed (value : TypeSig)
deriving DecidableEq, Inhabited

/-- What a parameter of a callback receives. -/
inductive ParamRole where
  | argument
  | captureLocal (index : UInt16) (type : TypeSig)
  | storeLocal (index : UInt16) (type : TypeSig)
  | carrier (kind : CarrierKind)
deriving DecidableEq, Inhabited

structure InjectDescriptor where
  methodIndex : Nat
  methodName : String
  targetMethod : String
  location : Location
  cancellable : Bool
  cancelTarget : CancelTarget
  expected : Nat
  params : List ParamRole
deriving DecidableEq, Inhabited

/-- A field of a mixin stands for one of the target or is added to it. -/
inductive FieldDescriptor where
  | capture (field target : String)
  | add (field : String)
deriving DecidableEq, Inhabited

inductive MixinOp where
  | implements (interface : TypeSig)
  | overwrite (methodIndex : Nat) (methodName : String)
  | inject (descriptor : InjectDescriptor)
deriving DecidableEq, Inhabited

structure MixinDescriptor where
  mixinType : String
  target : MixinTarget
  priority : Int32
  fields : List FieldDescriptor
  ops : List MixinOp
deriving DecidableEq, Inhabited

def MixinTarget.fullName : MixinTarget → String
  | .type fullName | .name fullName => fullName

def Location.ofText (text : String) : Location :=
  match Text.trim text with
  | "HEAD" => .head
  | "RETURN" => .return
  | line => .instruction line

def Location.text : Location → String
  | .head => "HEAD"
  | .return => "RETURN"
  | .instruction line => line

def CancelTarget.ofText (text : String) : CancelTarget :=
  match Text.trim text with
  | "ret" => .return
  | "" => .return
  | line => .instruction line

/-- A parameter that does not receive an argument of the target. -/
def ParamRole.isSpecial : ParamRole → Bool
  | .argument => false
  | _ => true

def ParamRole.isCarrier : ParamRole → Bool
  | .carrier _ => true
  | _ => false

def FieldDescriptor.field : FieldDescriptor → String
  | .capture field _ | .add field => field

/-- Interfaces come first, then overwrites, then injections. -/
def MixinOp.phase : MixinOp → Nat
  | .implements _ => 0
  | .overwrite _ _ => 1
  | .inject _ => 2

namespace MixinDescriptor

/-- The name of the mixin type without namespace and enclosing types. -/
def simpleName (mixin : MixinDescriptor) : String :=
  String.ofList (Text.afterLast '.' (Text.afterLast '/' mixin.mixinType.toList))

/-- Higher priorities first; mixins of one priority keep their order. -/
def sortByPriority (mixins : List MixinDescriptor) : List MixinDescriptor :=
  mixins.mergeSort fun left right => right.priority ≤ left.priority

end MixinDescriptor

end CilWeave
