/-!
Binary floating-point values as exact numbers. A pattern of bits is split into its sign and a
magnitude; a finite magnitude is a natural number times a power of two, together with the interval
of reals that round to it.
-/

namespace CilWeave.Decimal

/-- Widths of a binary interchange format: explicit fraction bits and exponent bits. -/
structure Format where
  fractionBits : Nat
  exponentBits : Nat
deriving DecidableEq

def Format.single : Format := ⟨23, 8⟩

def Format.double : Format := ⟨52, 11⟩

/-- The finite non-negative number `significand * 2 ^ exponent`. The gap to the number below is half
as wide as the gap above exactly when `narrowBelow` holds. -/
structure Magnitude where
  significand : Nat
  exponent : Int
  narrowBelow : Bool
deriving DecidableEq

/-- What a pattern of bits stands for. -/
inductive Reading where
  | notANumber
  | infinite (negative : Bool)
  | finite (negative : Bool) (magnitude : Magnitude)
deriving DecidableEq

variable (format : Format) (bits : Nat)

def Format.readBits : Reading :=
  let fraction := bits % 1 <<< format.fractionBits
  let biased := bits >>> format.fractionBits % 1 <<< format.exponentBits
  let negative := bits >>> (format.fractionBits + format.exponentBits) % 2 == 1
  let offset : Int := (1 <<< (format.exponentBits - 1) : Nat) - 1 + format.fractionBits
  if biased + 1 = 1 <<< format.exponentBits then
    if fraction = 0 then .infinite negative else .notANumber
  else if biased = 0 then .finite negative ⟨fraction, 1 - offset, false⟩
  else .finite negative ⟨1 <<< format.fractionBits + fraction, biased - offset, fraction == 0 && biased > 1⟩

/-- A decimal number `digits * 10 ^ exponent`. -/
structure Scaled where
  digits : Nat
  exponent : Int
deriving DecidableEq

/-- Order of `coefficient * 10 ^ tens` and `other * 2 ^ twos`, decided on naturals. -/
def compareScaled (coefficient : Nat) (tens : Int) (other : Nat) (twos : Int) : Ordering :=
  compare ((coefficient * Nat.pow 10 tens.toNat) <<< (-twos).toNat) ((other * Nat.pow 10 (-tens).toNat) <<< twos.toNat)

/-- The decimal lies among the reals that round to the magnitude, ties going to even significands. -/
def Magnitude.readsBack (magnitude : Magnitude) (decimal : Scaled) : Bool :=
  let lower := if magnitude.narrowBelow then 4 * magnitude.significand - 1 else 4 * magnitude.significand - 2
  let upper := 4 * magnitude.significand + 2
  let closed := magnitude.significand % 2 == 0
  let atLower := compareScaled decimal.digits decimal.exponent lower (magnitude.exponent - 2)
  let atUpper := compareScaled decimal.digits decimal.exponent upper (magnitude.exponent - 2)
  (atLower == .gt || (closed && atLower == .eq)) && (atUpper == .lt || (closed && atUpper == .eq))

end CilWeave.Decimal
