import CilWeave.Signature.Describe

/-!
Values of the evaluation stack and what arithmetic and comparison make of them. Integers wrap;
division and remainder have no result where the quotient has none.
-/

namespace CilWeave.Machine

/-- A value on the stack or in a slot. Pointers name the slot of a frame by the frame's depth. -/
inductive Value where
  | void
  | int32 (value : Int32)
  | int64 (value : Int64)
  | double (value : Float)
  | null
  | string (text : String)
  | object (address : Nat)
  | localPointer (frame : Nat) (index : UInt16)
  | argumentPointer (frame : Nat) (index : UInt16)
deriving BEq, Inhabited

inductive BinaryOp where
  | add | sub | mul | div | rem | and | or | xor | shl | shr
deriving DecidableEq

inductive CompareOp where
  | eq | ne | gt | ge | lt | le
deriving DecidableEq

/-- Bits below the binary point are dropped; what is left is the nearest whole number toward zero. -/
def wholePart (value : Float) : Int :=
  match Decimal.Format.double.readBits value.toBits.toNat with
  | .finite negative magnitude =>
    let whole := magnitude.significand <<< magnitude.exponent.toNat >>> (-magnitude.exponent).toNat
    if negative then -whole else whole
  | _ => 0

/-- Conversion of a floating-point number to an integer within bounds: toward zero, stopping at the
bounds; what is not a number becomes zero. -/
def saturate (lowest highest : Int) (value : Float) : Int :=
  match Decimal.Format.double.readBits value.toBits.toNat with
  | .notANumber => 0
  | .infinite negative => if negative then lowest else highest
  | .finite _ _ => max lowest (min highest (wholePart value))

/-- The pattern of bits of `significand * 2 ^ exponent` where that is exact: the significand has at
most as many bits as the format holds and the exponent is not below its least. -/
def exactDouble (negative : Bool) (significand : Nat) (exponent : Int) : Float :=
  let magnitude :=
    if 0 ≤ exponent then Float.ofScientific (significand <<< exponent.toNat) false 0
    else Float.ofScientific (significand * Nat.pow 5 (-exponent).toNat) true (-exponent).toNat
  if negative then -magnitude else magnitude

/-- The remainder of a division that drops the fraction of the quotient: exact, with the sign of the
dividend. -/
def floatRemainder (dividend divisor : Float) : Float :=
  match Decimal.Format.double.readBits dividend.toBits.toNat,
    Decimal.Format.double.readBits divisor.toBits.toNat with
  | .finite negative numerator, .finite _ denominator =>
    if denominator.significand = 0 then 0.0 / 0.0
    else
      let scale := min numerator.exponent denominator.exponent
      let left := numerator.significand <<< (numerator.exponent - scale).toNat
      let right := denominator.significand <<< (denominator.exponent - scale).toNat
      exactDouble negative (left % right) scale
  | .finite _ _, .infinite _ => dividend
  | _, _ => 0.0 / 0.0

namespace BinaryOp

def onInt32 (left right : Int32) : BinaryOp → Option Int32
  | .add => some (left + right)
  | .sub => some (left - right)
  | .mul => some (left * right)
  | .div => if right = 0 ∨ (left = Int32.minValue ∧ right = -1) then none else some (left / right)
  | .rem => if right = 0 ∨ (left = Int32.minValue ∧ right = -1) then none else some (left % right)
  | .and => some (left &&& right)
  | .or => some (left ||| right)
  | .xor => some (left ^^^ right)
  | .shl => some (left <<< right)
  | .shr => some (left >>> right)

def onInt64 (left right : Int64) : BinaryOp → Option Int64
  | .add => some (left + right)
  | .sub => some (left - right)
  | .mul => some (left * right)
  | .div => if right = 0 ∨ (left = Int64.minValue ∧ right = -1) then none else some (left / right)
  | .rem => if right = 0 ∨ (left = Int64.minValue ∧ right = -1) then none else some (left % right)
  | .and => some (left &&& right)
  | .or => some (left ||| right)
  | .xor => some (left ^^^ right)
  | .shl => some (left <<< right)
  | .shr => some (left >>> right)

def onDouble (left right : Float) : BinaryOp → Option Float
  | .add => some (left + right)
  | .sub => some (left - right)
  | .mul => some (left * right)
  | .div => some (left / right)
  | .rem => some (floatRemainder left right)
  | .and | .or | .xor | .shl | .shr => none

end BinaryOp

def CompareOp.holds (ordering : Ordering) : CompareOp → Bool
  | .eq => ordering.isEq
  | .ne => ordering.isNe
  | .gt => ordering.isGT
  | .ge => ordering.isGE
  | .lt => ordering.isLT
  | .le => ordering.isLE

namespace Value

/-- What a slot of the type holds before anything is stored. -/
def default : TypeSig → Value
  | .primitive kind =>
    match kind with
    | .void => .void
    | .boolean | .char | .int8 | .uint8 | .int16 | .uint16 | .int32 | .uint32 => .int32 0
    | .int64 | .uint64 | .intPtr | .uintPtr => .int64 0
    | .single | .double => .double 0
    | .string | .object => .null
  | _ => .null

def int64? : Value → Option Int64
  | .int32 value => some value.toInt64
  | .int64 value => some value
  | _ => none

def int32? : Value → Option Int32
  | .int32 value => some value
  | _ => none

def isTrue : Value → Bool
  | .void | .null => false
  | .int32 value => value != 0
  | .int64 value => value != 0
  | .double value => value != 0
  | .string _ | .object _ | .localPointer _ _ | .argumentPointer _ _ => true

/-- Two 32-bit integers and two floating-point numbers keep their kind; integers of mixed width are
widened. -/
def binary (operation : BinaryOp) : Value → Value → Option Value
  | .int32 left, .int32 right => (operation.onInt32 left right).map .int32
  | .double left, .double right => (operation.onDouble left right).map .double
  | left, right => do
    let left ← left.int64?
    let right ← right.int64?
    (operation.onInt64 left right).map .int64

/-- Numbers are ordered; a pair with something that is not a number is only ever unequal. All other
values are told apart but not ordered. -/
def compare (operation : CompareOp) : Value → Value → Option Bool
  | .double left, .double right =>
    if left < right then some (operation.holds .lt)
    else if left == right then some (operation.holds .eq)
    else if left > right then some (operation.holds .gt)
    else some (operation = .ne)
  | left, right =>
    match left.int64?, right.int64? with
    | some left, some right => some (operation.holds (Ord.compare left.toInt right.toInt))
    | _, _ =>
      match operation with
      | .eq => some (left == right)
      | .ne => some (left != right)
      | _ => none

/-- Values as the console shows them. -/
def text : Value → String
  | .void | .null => ""
  | .int32 value => Decimal.integerText value.toInt
  | .int64 value => Decimal.integerText value.toInt
  | .double value => Decimal.Layout.plain.double (.ofNumber value)
  | .string text => text
  | .object address => "<object #" ++ Decimal.digitText address ++ ">"
  | .localPointer frame index => "&V_" ++ Decimal.digitText index.toNat ++ "@" ++ Decimal.digitText frame
  | .argumentPointer frame index => "&A_" ++ Decimal.digitText index.toNat ++ "@" ++ Decimal.digitText frame

open Text

def describe : Value → String
  | .void => "Void"
  | .int32 value => describeTagged "I32" [Decimal.integerText value.toInt]
  | .int64 value => describeTagged "I64" [Decimal.integerText value.toInt]
  | .double value => describeTagged "F64" [Decimal.Layout.quoted.double (.ofNumber value)]
  | .null => "Null"
  | .string text => describeTagged "String" [quoted text]
  | .object address => describeTagged "ObjectRef" [describeTagged "HeapRef" [Decimal.digitText address]]
  | .localPointer frame index =>
    describeRecord "LocalPtr" [("frame", Decimal.digitText frame), ("index", Decimal.digitText index.toNat)]
  | .argumentPointer frame index =>
    describeRecord "ArgPtr" [("frame", Decimal.digitText frame), ("index", Decimal.digitText index.toNat)]

end Value

def BinaryOp.describe : BinaryOp → String
  | .add => "Add"
  | .sub => "Sub"
  | .mul => "Mul"
  | .div => "Div"
  | .rem => "Rem"
  | .and => "And"
  | .or => "Or"
  | .xor => "Xor"
  | .shl => "Shl"
  | .shr => "Shr"

end CilWeave.Machine
