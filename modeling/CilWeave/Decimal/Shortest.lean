import CilWeave.Decimal.Binary

/-!
The decimal with the fewest digits that reads back to a given binary magnitude, and the nearest such
decimal where several have that many digits.
-/

namespace CilWeave.Decimal

/-- Which of two equally near decimals is chosen. -/
inductive Tie where
  | toEven
  | upward
deriving DecidableEq

variable (magnitude : Magnitude) (tie : Tie)

/-- The least power of ten above the magnitude, found from a lower estimate. -/
def Magnitude.decimalPoint : Int :=
  let binary : Int := magnitude.significand.log2 + magnitude.exponent
  let estimate : Int := binary * 30103 / 100000 - 1
  let candidates := (List.range 6).map fun (step : Nat) => estimate + step
  (candidates.find? fun point =>
    compareScaled 1 point magnitude.significand magnitude.exponent == .gt).getD (estimate + 6)

/-- The digits of the magnitude on the grid `10 ^ exponent`, rounded down. -/
def Magnitude.floorAt (exponent : Int) : Nat :=
  (magnitude.significand * Nat.pow 10 (-exponent).toNat) <<< magnitude.exponent.toNat /
    Nat.pow 10 exponent.toNat <<< (-magnitude.exponent).toNat

/-- Of the two grid neighbours, the one that reads back and is nearer. -/
def Magnitude.nearestOn (exponent : Int) : Option Scaled :=
  let below : Scaled := ⟨magnitude.floorAt exponent, exponent⟩
  let above : Scaled := ⟨below.digits + 1, exponent⟩
  match magnitude.readsBack below, magnitude.readsBack above with
  | false, false => none
  | true, false => some below
  | false, true => some above
  | true, true =>
    match compareScaled (below.digits + above.digits) exponent (2 * magnitude.significand) magnitude.exponent with
    | .gt => some below
    | .lt => some above
    | .eq =>
      match tie with
      | .upward => some above
      | .toEven => some (if below.digits % 2 = 0 then below else above)

/-- Trailing zeros of the digits move into the exponent; the bound is the number of digits. -/
def Scaled.strip : Nat → Scaled → Scaled
  | 0, decimal => decimal
  | bound + 1, decimal =>
    if decimal.digits ≠ 0 ∧ decimal.digits % 10 = 0 then
      Scaled.strip bound ⟨decimal.digits / 10, decimal.exponent + 1⟩
    else decimal

/-- The exact decimal expansion of the magnitude. -/
def Magnitude.exact : Scaled :=
  ⟨(magnitude.significand * Nat.pow 5 (-magnitude.exponent).toNat) <<< magnitude.exponent.toNat,
    if magnitude.exponent < 0 then magnitude.exponent else 0⟩

/-- Grids of one to seventeen digits are tried in turn; seventeen always suffice for the formats in
use, and the exact expansion stands in should none read back. -/
def Magnitude.shortest : Scaled :=
  if magnitude.significand = 0 then ⟨0, 0⟩
  else
    let point := magnitude.decimalPoint
    let found := (List.range 17).findSome? fun (count : Nat) =>
      magnitude.nearestOn tie (point - (count + 1))
    (found.getD magnitude.exact).strip 800

end CilWeave.Decimal
