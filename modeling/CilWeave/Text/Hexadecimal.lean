/-!
Hexadecimal text: digits of either case are read, lower-case ones are written unless said otherwise.
-/

namespace CilWeave.Text

def hexDigit? (char : Char) : Option Nat :=
  if '0' ≤ char ∧ char ≤ '9' then some (char.toNat - '0'.toNat)
  else if 'a' ≤ char ∧ char ≤ 'f' then some (char.toNat - 'a'.toNat + 10)
  else if 'A' ≤ char ∧ char ≤ 'F' then some (char.toNat - 'A'.toNat + 10)
  else none

/-- The number of a run of digits. -/
def hexValue? (digits : List Char) : Option Nat :=
  digits.foldlM (fun number char => (hexDigit? char).map (16 * number + ·)) 0

def hexText (number : Nat) : String := String.ofList (Nat.toDigits 16 number)

/-- The digits of a number, padded with zeros on the left. -/
def hexPadded (width number : Nat) : String :=
  let digits := Nat.toDigits 16 number
  String.ofList (List.replicate (width - digits.length) '0' ++ digits)

def upperHexPadded (width number : Nat) : String :=
  String.ofList ((hexPadded width number).toList.map Char.toUpper)

/-- Two digits for each byte. -/
def hexBytes (bytes : List UInt8) : String := String.join (bytes.map fun byte => hexPadded 2 byte.toNat)

def readHexBytes? : List Char → Option (List UInt8)
  | [] => some []
  | high :: low :: rest => do
    let byte ← hexValue? [high, low]
    return byte.toUInt8 :: (← readHexBytes? rest)
  | [_] => none

end CilWeave.Text
