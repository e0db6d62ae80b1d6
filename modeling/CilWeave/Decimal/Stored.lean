/-!
Floating-point numbers kept bit by bit. They compare as numbers, so a zero agrees with its negative
and what is not a number agrees with nothing, but no pattern of bits is lost.
-/

namespace CilWeave

/-- A single-precision number. -/
structure Single where
  bits : UInt32
deriving Inhabited

/-- A double-precision number. -/
structure Double where
  bits : UInt64
deriving Inhabited

def Single.number (stored : Single) : Float32 := Float32.ofBits stored.bits

def Double.number (stored : Double) : Float := Float.ofBits stored.bits

def Single.ofNumber (number : Float32) : Single := ⟨number.toBits⟩

def Double.ofNumber (number : Float) : Double := ⟨number.toBits⟩

instance : BEq Single := ⟨fun left right => left.number == right.number⟩

instance : BEq Double := ⟨fun left right => left.number == right.number⟩

/-- Every single-precision number is also a double-precision one. -/
def Single.widen (stored : Single) : Double := .ofNumber stored.number.toFloat

/-- The nearest single-precision number. -/
def Double.narrow (stored : Double) : Single := .ofNumber stored.number.toFloat32

end CilWeave
