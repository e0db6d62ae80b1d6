/-!
The state of a carrier: whether the callback that was handed it has cancelled its target, and the
value it wants returned. Once cancelled, a carrier stays cancelled.
-/

namespace CilWeave.Machine

inductive Carrier (α : Type) where
  | notCancelled
  | cancelled (value : Option α)
deriving BEq, DecidableEq, Inhabited

namespace Carrier

variable {α : Type}

def isCancelled : Carrier α → Bool
  | .notCancelled => false
  | .cancelled _ => true

/-- Cancels; a value that was set before stays. -/
def cancel : Carrier α → Carrier α
  | .notCancelled => .cancelled none
  | .cancelled value => .cancelled value

/-- Cancels with a value, over any earlier one. -/
def setValue (value : α) (_ : Carrier α) : Carrier α := .cancelled (some value)

def value? : Carrier α → Option α
  | .notCancelled => none
  | .cancelled value => value

end Carrier

end CilWeave.Machine
