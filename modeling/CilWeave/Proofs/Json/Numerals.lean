import Mathlib.Data.List.TakeWhile
import Mathlib.Data.Nat.Digits.Defs
import CilWeave.Image.Basic

/-!
Numerals of integers: the digits of a number read as that number, within the bounds that are asked for. What any numeral looks
like is settled here too, because a reader of texts has to know where one ends.
-/

namespace CilWeave

namespace Json.Numeral

theorem digitsValue_toDigits (number : Nat) : digitsValue (Nat.toDigits 10 number) = number :=
  Nat.ofDigitChars_eq_foldl.symm.trans Nat.ofDigitChars_ten_toDigits

theorem isDigit_of_mem_toDigits (number : Nat) : ∀ char ∈ Nat.toDigits 10 number, char.isDigit :=
  fun _ member => Nat.isDigit_of_mem_toDigits (by decide) (by decide) member

/-- No other number than zero starts with a zero. -/
theorem head?_toDigits {number : Nat} (positive : 0 < number) : (Nat.toDigits 10 number).head? ≠ some '0' := by
  induction number using Nat.strongRecOn with
  | ind number ih =>
      by_cases small : number < 10
      · simp [Nat.toDigits_of_lt_base small]
        omega
      · have more : 10 ≤ number := by omega
        have shorter : number / 10 < number := by omega
        have left : 0 < number / 10 := by omega
        have head := ih _ shorter left
        rw [Nat.toDigits_of_base_le (by decide) more, List.head?_append]
        cases first : (Nat.toDigits 10 (number / 10)).head? <;> simp_all

theorem isWhole_toDigits (number : Nat) : isWhole (Nat.toDigits 10 number) = true := by
  rcases Nat.eq_zero_or_pos number with rfl | positive
  · rfl
  · have head := head?_toDigits positive
    unfold isWhole
    split <;> simp_all

/-- The numeral of an integer. -/
def ofMagnitude (negative : Bool) (magnitude : Nat) : Numeral :=
  ⟨negative, Nat.toDigits 10 magnitude, [], false, false, [], false⟩

theorem read?_toDigits (magnitude : Nat) : read? (Nat.toDigits 10 magnitude) = some (ofMagnitude false magnitude) := by
  have digits := isDigit_of_mem_toDigits magnitude
  have unsigned (rest : List Char) : Nat.toDigits 10 magnitude ≠ '-' :: rest := by
    intro same
    have sign := digits '-' (same ▸ List.mem_cons_self)
    revert sign
    decide
  have whole := isWhole_toDigits magnitude
  unfold read?
  split
  rename_i unfolded
  split at unfolded
  · exact absurd ‹_› (unsigned _)
  · cases unfolded
    rw [List.takeWhile_eq_self_iff.mpr digits, List.dropWhile_eq_nil_iff.mpr digits, if_pos whole]
    rfl

theorem read?_minus (magnitude : Nat) : read? ('-' :: Nat.toDigits 10 magnitude) = some (ofMagnitude true magnitude) := by
  have digits := isDigit_of_mem_toDigits magnitude
  simp [read?, List.takeWhile_eq_self_iff.mpr digits, List.dropWhile_eq_nil_iff.mpr digits, isWhole_toDigits, readFraction?,
    readExponent?, ofMagnitude]

theorem isNumeralChar_of_isDigit {char : Char} (digit : char.isDigit) : isNumeralChar char := by
  simp [isNumeralChar, digit]

theorem all_of_readExponent? {negative : Bool} {whole fraction text : List Char} {hasFraction : Bool} {numeral : Numeral}
    (read : readExponent? negative whole fraction hasFraction text = some numeral) : ∀ char ∈ text, isNumeralChar char := by
  cases text with
  | nil => simp
  | cons mark rest =>
      by_cases marked : mark = 'e' ∨ mark = 'E'
      · have first : isNumeralChar mark := by rcases marked with rfl | rfl <;> rfl
        unfold readExponent? at read
        simp only [if_pos marked] at read
        split at read
        all_goals
          split at read
          · cases read
          · simp_all [isNumeralChar]
      · simp [readExponent?, marked] at read

theorem all_of_readFraction? {negative : Bool} {whole text : List Char} {numeral : Numeral}
    (read : readFraction? negative whole text = some numeral) : ∀ char ∈ text, isNumeralChar char := by
  unfold readFraction? at read
  split at read
  · rename_i rest
    dsimp only at read
    split at read
    · cases read
    · have later := all_of_readExponent? read
      intro char member
      rw [← List.takeWhile_append_dropWhile (p := Char.isDigit) (l := rest)] at member
      rcases List.mem_cons.mp member with rfl | member
      · rfl
      · rcases List.mem_append.mp member with digit | member
        · exact isNumeralChar_of_isDigit (List.mem_takeWhile_imp digit)
        · exact later char member
  · exact all_of_readExponent? read

/-- A numeral is made of the characters that a reader of texts takes for one, and starts with a digit or a sign. -/
theorem all_of_read? {text : List Char} {numeral : Numeral} (read : Numeral.read? text = some numeral) :
    (∀ char ∈ text, isNumeralChar char) ∧ ∃ first rest, text = first :: rest ∧ (first.isDigit ∨ first = '-') := by
  have unsigned (negative : Bool) (text : List Char)
      (read : (if isWhole (text.takeWhile Char.isDigit) then
        readFraction? negative (text.takeWhile Char.isDigit) (text.dropWhile Char.isDigit) else none) = some numeral) :
      (∀ char ∈ text, isNumeralChar char) ∧ ∃ first rest, text = first :: rest ∧ first.isDigit := by
    split at read
    · rename_i whole
      have later := all_of_readFraction? read
      constructor
      · intro char member
        rw [← List.takeWhile_append_dropWhile (p := Char.isDigit) (l := text)] at member
        rcases List.mem_append.mp member with digit | member
        · exact isNumeralChar_of_isDigit (List.mem_takeWhile_imp digit)
        · exact later char member
      · cases text with
        | nil => cases whole
        | cons first rest =>
            refine ⟨first, rest, rfl, ?_⟩
            by_contra other
            simp [other, isWhole] at whole
    · cases read
  unfold read? at read
  split at read
  rename_i unfolded
  split at unfolded <;> cases unfolded
  · obtain ⟨chars, -⟩ := unsigned _ _ read
    refine ⟨?_, '-', _, rfl, .inr rfl⟩
    simpa [isNumeralChar] using chars
  · obtain ⟨chars, first, rest, rfl, digit⟩ := unsigned _ _ read
    exact ⟨chars, first, rest, rfl, .inl digit⟩

theorem integer?_ofMagnitude (magnitude : Nat) :
    (ofMagnitude false magnitude).integer? = if magnitude < UInt64.size then some (magnitude : Int) else none := by
  simp [integer?, ofMagnitude, digitsValue_toDigits]

theorem integer?_ofMagnitude_minus (magnitude : Nat) :
    (ofMagnitude true (magnitude + 1)).integer? =
      if magnitude + 1 ≤ UInt64.size / 2 then some (Int.negSucc magnitude) else none := by
  have read : (ofMagnitude true (magnitude + 1)).integer? =
      if magnitude + 1 = 0 ∨ magnitude + 1 > UInt64.size / 2 then none else some (-((magnitude + 1 : Nat) : Int)) := by
    rw [integer?, ofMagnitude, digitsValue_toDigits]
    rfl
  by_cases fits : magnitude + 1 ≤ UInt64.size / 2
  · rw [read, if_neg (by omega), if_pos fits, Int.negSucc_eq]
    rfl
  · rw [read, if_pos (by omega), if_neg fits]

end Json.Numeral

namespace Image

open Json

theorem numeral?_ofNat (magnitude : Nat) : numeral? (.ofNat magnitude) = some (.ofMagnitude false magnitude) := by
  simp [numeral?, Json.ofNat, Decimal.digitText, Numeral.read?_toDigits]

theorem numeral?_negSucc (below : Nat) : numeral? (.ofInt (.negSucc below)) = some (.ofMagnitude true (below + 1)) := by
  simp [numeral?, Json.ofInt, Decimal.integerText, Decimal.digitText, Numeral.read?_minus]

/-- An integer is read back exactly if it lies within the bounds. -/
theorem integer?_ofInt {lowest highest value : Int} (low : -(UInt64.size / 2 : Nat) ≤ lowest) (high : highest < UInt64.size) :
    integer? lowest highest (.ofInt value) = if lowest ≤ value ∧ value ≤ highest then some value else none := by
  cases value with
  | ofNat magnitude =>
      have written : numeral? (.ofInt (.ofNat magnitude)) = some (.ofMagnitude false magnitude) := numeral?_ofNat magnitude
      by_cases fits : magnitude < UInt64.size
      · simp only [integer?, written, Numeral.integer?_ofMagnitude, bind, Option.bind_some, if_pos fits]
        rfl
      · have above : ¬ (Int.ofNat magnitude ≤ highest) := by
          rw [Int.ofNat_eq_natCast]
          omega
        simp only [integer?, written, Numeral.integer?_ofMagnitude, bind, Option.bind_some, if_neg fits, Option.bind_none]
        rw [if_neg fun within => above within.2]
  | negSucc below =>
      by_cases fits : below + 1 ≤ UInt64.size / 2
      · simp only [integer?, numeral?_negSucc, Numeral.integer?_ofMagnitude_minus, bind, Option.bind_some, if_pos fits]
      · have beneath : ¬ (lowest ≤ Int.negSucc below) := by
          rw [Int.negSucc_eq]
          omega
        simp only [integer?, numeral?_negSucc, Numeral.integer?_ofMagnitude_minus, bind, Option.bind_some, if_neg fits,
          Option.bind_none]
        rw [if_neg fun within => beneath within.1]

theorem natural?_ofNat {highest number : Nat} (high : highest < UInt64.size) :
    natural? highest (.ofNat number) = if number ≤ highest then some number else none := by
  have bound : (highest : Int) < UInt64.size := by omega
  have read : integer? 0 highest (.ofInt (.ofNat number)) = if 0 ≤ Int.ofNat number ∧ Int.ofNat number ≤ highest then
      some (Int.ofNat number) else none := integer?_ofInt (by decide) bound
  have written : Json.ofInt (.ofNat number) = .ofNat number := rfl
  rw [natural?, ← written, read]
  by_cases fits : number ≤ highest <;> simp [fits]

end Image

end CilWeave
