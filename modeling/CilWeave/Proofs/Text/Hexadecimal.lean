import Mathlib.Data.Nat.Digits.Defs
import CilWeave.Text.Hexadecimal

/-!
Hexadecimal text reads back: the digits of a number stand for that number, padded or not.
-/

namespace CilWeave.Text

theorem hexDigit?_digitChar {digit : Nat} (small : digit < 16) : hexDigit? digit.digitChar = some digit := by
  have each : ∀ digit < 16, hexDigit? (Nat.digitChar digit) = some digit := by decide
  exact each digit small

/-- One more digit shifts the number that was read before. -/
theorem hexValue?_concat {digits : List Char} {number digit : Nat} (read : hexValue? digits = some number)
    (small : digit < 16) : hexValue? (digits ++ [digit.digitChar]) = some (16 * number + digit) := by
  unfold hexValue? at read ⊢
  simp [List.foldlM_append, read, hexDigit?_digitChar small]

theorem hexValue?_toDigits (number : Nat) : hexValue? (Nat.toDigits 16 number) = some number := by
  induction number using Nat.strongRecOn with
  | ind number ih =>
      by_cases small : number < 16
      · have one : hexValue? ([] ++ [number.digitChar]) = some (16 * 0 + number) := hexValue?_concat rfl small
        simpa [Nat.toDigits_of_lt_base small] using one
      · have shorter : number / 16 < number := by omega
        have last : number % 16 < 16 := by omega
        rw [Nat.toDigits_of_base_le (by decide) (by omega), hexValue?_concat (ih _ shorter) last]
        congr
        omega

theorem exists_digit_of_mem_toDigits {number : Nat} {char : Char} (member : char ∈ Nat.toDigits 16 number) :
    ∃ digit < 16, char = digit.digitChar := by
  induction number using Nat.strongRecOn with
  | ind number ih =>
      by_cases small : number < 16
      · rw [Nat.toDigits_of_lt_base small, List.mem_singleton] at member
        exact ⟨number, small, member⟩
      · have shorter : number / 16 < number := by omega
        have last : number % 16 < 16 := by omega
        rw [Nat.toDigits_of_base_le (by decide) (by omega), List.mem_append, List.mem_singleton] at member
        rcases member with earlier | rfl
        · exact ih _ shorter earlier
        · exact ⟨_, last, rfl⟩

/-- Zeros in front change nothing. -/
theorem hexValue?_zeros (count : Nat) (digits : List Char) :
    hexValue? (List.replicate count '0' ++ digits) = hexValue? digits := by
  induction count with
  | zero => rfl
  | succ count ih =>
      rw [List.replicate_succ, List.cons_append]
      exact ih

theorem hexValue?_hexPadded (width number : Nat) : hexValue? (hexPadded width number).toList = some number := by
  simp [hexPadded, hexValue?_zeros, hexValue?_toDigits]

theorem length_hexPadded {width number : Nat} (wide : 0 < width) (small : number < 16 ^ width) :
    (hexPadded width number).toList.length = width := by
  have short := Nat.toDigits_length 16 number width wide small
  simp [hexPadded]
  omega

end CilWeave.Text
