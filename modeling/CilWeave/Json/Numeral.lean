import CilWeave.Decimal.Stored

/-!
The numerals of data texts and the numbers they stand for. A numeral without fraction and exponent is
an integer as long as it fits 64 bits. Any other is a floating-point number: its leading digits, as
many as fit 64 unsigned bits, are rounded to a double and then scaled by a power of ten in one
multiplication or division.
-/

namespace CilWeave.Json

/-- The parts of a numeral. -/
structure Numeral where
  negative : Bool
  whole : List Char
  fraction : List Char
  hasFraction : Bool
  exponentNegative : Bool
  exponent : List Char
  hasExponent : Bool

namespace Numeral

def isNumeralChar (char : Char) : Bool :=
  char.isDigit || char = '-' || char = '+' || char = '.' || char = 'e' || char = 'E'

def digitValue (char : Char) : Nat := char.toNat - '0'.toNat

def digitsValue (digits : List Char) : Nat := digits.foldl (fun number char => 10 * number + digitValue char) 0

/-- Whole digits start with a zero only if that is all. -/
def isWhole : List Char → Bool
  | [] => false
  | ['0'] => true
  | '0' :: _ => false
  | _ => true

def readExponent? (negative : Bool) (whole fraction : List Char) (hasFraction : Bool) : List Char → Option Numeral
  | [] => some ⟨negative, whole, fraction, hasFraction, false, [], false⟩
  | mark :: rest =>
    if mark = 'e' ∨ mark = 'E' then
      let (exponentNegative, digits) := match rest with
        | '-' :: digits => (true, digits)
        | '+' :: digits => (false, digits)
        | digits => (false, digits)
      if digits.isEmpty || !digits.all Char.isDigit then none
      else some ⟨negative, whole, fraction, hasFraction, exponentNegative, digits, true⟩
    else none

def readFraction? (negative : Bool) (whole rest : List Char) : Option Numeral :=
  match rest with
  | '.' :: rest =>
    let fraction := rest.takeWhile Char.isDigit
    if fraction.isEmpty then none
    else readExponent? negative whole fraction true (rest.dropWhile Char.isDigit)
  | rest => readExponent? negative whole [] false rest

def read? (text : List Char) : Option Numeral :=
  let (negative, unsigned) := match text with
    | '-' :: rest => (true, rest)
    | rest => (false, rest)
  let whole := unsigned.takeWhile Char.isDigit
  if isWhole whole then readFraction? negative whole (unsigned.dropWhile Char.isDigit) else none

variable (numeral : Numeral)

/-- The integer a numeral stands for, within 64 signed or unsigned bits. Minus zero is none. -/
def integer? : Option Int :=
  if numeral.hasFraction || numeral.hasExponent then none
  else
    let magnitude := digitsValue numeral.whole
    if numeral.negative then
      if magnitude = 0 ∨ magnitude > UInt64.size / 2 then none else some (-magnitude)
    else if magnitude < UInt64.size then some magnitude
    else none

/-- Digits are taken while the number they make fits 64 unsigned bits; the rest is left over. -/
def gather (significand : Nat) : List Char → Nat × List Char
  | [] => (significand, [])
  | char :: rest =>
    let next := 10 * significand + digitValue char
    if next < UInt64.size then gather next rest else (significand, char :: rest)

def powerOfTen (exponent : Nat) : Float := Float.ofScientific 1 false exponent

/-- Divides by powers of ten of at most `1e308` at a time. Two steps already take any significand of
64 bits to zero. -/
def scaleDown : (steps : Nat) → Float → Nat → Float
  | 0, value, _ => value
  | steps + 1, value, exponent =>
    if exponent ≤ 308 then value / powerOfTen exponent
    else if value == 0 then value
    else scaleDown steps (value / powerOfTen 308) (exponent - 308)

/-- The significand times a power of ten, unless it is too great for a double. -/
def scale? (significand : Nat) (exponent : Int) : Option Float :=
  let number := Float.ofScientific significand false 0
  if exponent < 0 then some (scaleDown 4 number exponent.natAbs)
  else if significand = 0 then some number
  else if exponent ≤ 308 then
    let scaled := number * powerOfTen exponent.toNat
    if scaled.isInf then none else some scaled
  else none

/-- The exponent that is written, kept within 32 signed bits. -/
def writtenExponent : Int :=
  let magnitude : Int := digitsValue numeral.exponent
  if numeral.exponentNegative then -magnitude else magnitude

def magnitude? : Option Float :=
  let (leading, dropped) := gather 0 numeral.whole
  let (significand, unread) := gather leading numeral.fraction
  let shift : Int := (dropped.length : Int) - (numeral.fraction.length - unread.length : Nat)
  scale? significand (shift + numeral.writtenExponent)

def double? : Option Double :=
  numeral.magnitude?.map fun magnitude => .ofNumber (if numeral.negative then -magnitude else magnitude)

/-- Integers are rounded to single precision at once, other numbers by way of a double. -/
def single? : Option Single :=
  match numeral.integer? with
  | some (.ofNat magnitude) => some (.ofNumber (Float32.ofScientific magnitude false 0))
  | some (.negSucc below) => some (.ofNumber (-(Float32.ofScientific (below + 1) false 0)))
  | none => numeral.double?.map Double.narrow

end Numeral

end CilWeave.Json
