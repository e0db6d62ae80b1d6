import CilWeave.Instruction
import CilWeave.Machine.Value

/-!
Why a run stops without a result, and the text of each cause.
-/

namespace CilWeave.Machine

inductive Fault where
  | unknownType (name : String)
  | unknownMethod (name : String)
  | noInstance (method : String)
  | callDepth (limit : Nat) (method : String)
  | noBody (method : String)
  | argumentCount (method : String) (expected found : Nat)
  | endOfBody
  | instructionLimit (limit : Nat)
  | missingTarget (id : InstrId)
  | underflow
  | notInt32 (found : Value)
  | invalidAddress (pointer : Value)
  | notApplicable (operation : BinaryOp) (left right : Value)
  | notComparable (left right : Value)
  | noArgument (index : UInt16)
  | noConstant
  | notNegatable (found : Value)
  | notComplementable (found : Value)
  | notConvertible (found : Value)
  | noField (field : String) (object : Value)
  | noFieldOperand
  | negativeLength
  | lengthOfNonArray
  | indexOutOfRange
  | noMethodOperand
  | noConstructorOperand
  | unhandledException (exception : Value)
  | unsupportedInstruction (mnemonic : String)
  | notACarrier (found : Value)
  | notConstructible (type : String)
  | unresolvedCall (method : String)
  | carrierWithoutInstance (method : String)
  | unsupportedCarrierMember (method : String)

open Decimal in
def Fault.message : Fault → String
  | .unknownType name => "unknown type " ++ name
  | .unknownMethod name => "unknown method " ++ name
  | .noInstance method => method ++ " needs an instance"
  | .callDepth limit method => "call depth limit " ++ digitText limit ++ " exceeded calling " ++ method
  | .noBody method => method ++ " has no body"
  | .argumentCount method expected found =>
    method ++ " takes " ++ digitText expected ++ " argument(s), got " ++ digitText found
  | .endOfBody => "execution fell off the end of the body"
  | .instructionLimit limit => "instruction limit " ++ digitText limit ++ " exceeded"
  | .missingTarget id => "branch to missing " ++ id.text
  | .underflow => "evaluation stack underflow"
  | .notInt32 found => "expected int32, found " ++ found.describe
  | .invalidAddress pointer => "invalid address " ++ pointer.describe
  | .notApplicable operation left right =>
    "cannot apply " ++ operation.describe ++ " to " ++ left.describe ++ " and " ++ right.describe
  | .notComparable left right => "cannot compare " ++ left.describe ++ " and " ++ right.describe
  | .noArgument index => "no argument " ++ digitText index.toNat
  | .noConstant => "constant without immediate"
  | .notNegatable found => "cannot negate " ++ found.describe
  | .notComplementable found => "cannot complement " ++ found.describe
  | .notConvertible found => "cannot convert " ++ found.describe
  | .noField field object => "no field " ++ field ++ " on " ++ object.describe
  | .noFieldOperand => "field access without field operand"
  | .negativeLength => "negative array length"
  | .lengthOfNonArray => "ldlen on a non-array"
  | .indexOutOfRange => "IndexOutOfRangeException"
  | .noMethodOperand => "call without method operand"
  | .noConstructorOperand => "newobj without constructor operand"
  | .unhandledException exception => "unhandled exception " ++ exception.describe
  | .unsupportedInstruction mnemonic => "unsupported instruction " ++ mnemonic
  | .notACarrier found => found.describe ++ " is not a carrier"
  | .notConstructible type => "cannot construct " ++ type
  | .unresolvedCall method => "unresolved call " ++ method
  | .carrierWithoutInstance method => method ++ " called without instance"
  | .unsupportedCarrierMember method => "unsupported carrier member " ++ method

/-- A fault in the method that was running. -/
structure Failure where
  method : String
  fault : Fault

def Failure.message (failure : Failure) : String :=
  "Emulation error in " ++ failure.method ++ ": " ++ failure.fault.message

end CilWeave.Machine
