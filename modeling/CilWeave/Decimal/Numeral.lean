import CilWeave.Decimal.Shortest
import CilWeave.Decimal.Stored

/-!
Decimal numerals: how the selected digits are laid out. Three layouts are in use. Listings and
console output write every number positionally; quoted values switch to an exponent outside a fixed
range; images do so at bounds of their own, keep a fraction part, and sign every exponent.
-/

namespace CilWeave.Decimal

/-- Layout decisions of one numeral form. The point position of a decimal is the exponent of the
least power of ten above it. -/
structure Layout where
  /-- decimals whose point position lies in this closed range are written positionally -/
  lowest : Option Int
  highest : Option Int
  /-- integral positional numerals end in a zero fraction -/
  zeroFraction : Bool
  /-- exponents that are not negative show a plus sign -/
  plusSign : Bool
  tie : Tie

/-- Listings and console output are positional at every size and show no empty fraction. -/
def Layout.plain : Layout := ⟨none, none, false, false, .upward⟩

/-- Quoted values are positional from `1e-4` up to, and not including, `1e16`. -/
def Layout.quoted : Layout := ⟨some (-3), some 16, true, false, .upward⟩

/-- Double-precision numbers of an image. -/
def Layout.imageDouble : Layout := ⟨some (-4), some 16, true, true, .toEven⟩

/-- Single-precision numbers of an image. -/
def Layout.imageSingle : Layout := ⟨some (-5), some 13, true, true, .toEven⟩

def digitText (number : Nat) : String := String.ofList (Nat.toDigits 10 number)

def zeros (count : Nat) : String := String.ofList (List.replicate count '0')

def integerText : Int → String
  | .ofNat number => digitText number
  | .negSucc number => "-" ++ digitText (number + 1)

variable (layout : Layout)

def Layout.isPositional (point : Int) : Bool :=
  (layout.lowest.all fun lowest => decide (lowest ≤ point)) &&
    (layout.highest.all fun highest => decide (point ≤ highest))

def Layout.exponentText (exponent : Int) : String :=
  "e" ++ (if layout.plusSign && decide (0 ≤ exponent) then "+" else "") ++ integerText exponent

/-- Writes a non-zero decimal. -/
def Layout.write (decimal : Scaled) : String :=
  let digits := digitText decimal.digits
  let point : Int := digits.length + decimal.exponent
  if layout.isPositional point then
    if 0 ≤ decimal.exponent then
      digits ++ zeros decimal.exponent.toNat ++ (if layout.zeroFraction then ".0" else "")
    else if 0 < point then
      String.ofList (digits.toList.take point.toNat) ++ "." ++ String.ofList (digits.toList.drop point.toNat)
    else "0." ++ zeros (-point).toNat ++ digits
  else
    let fraction := digits.toList.drop 1
    String.ofList (digits.toList.take 1) ++
      (if fraction.isEmpty then "" else "." ++ String.ofList fraction) ++
      layout.exponentText (point - 1)

def Layout.writeReading : Reading → String
  | .notANumber => "NaN"
  | .infinite negative => (if negative then "-" else "") ++ "inf"
  | .finite negative magnitude =>
    (if negative then "-" else "") ++
      if magnitude.significand = 0 then (if layout.zeroFraction then "0.0" else "0")
      else layout.write (magnitude.shortest layout.tie)

def Layout.double (value : Double) : String := layout.writeReading (Format.double.readBits value.bits.toNat)

def Layout.single (value : Single) : String := layout.writeReading (Format.single.readBits value.bits.toNat)

end CilWeave.Decimal
