import CilWeave.Json.Reading
import CilWeave.Json.Writing
import CilWeave.Proofs.Text.Hexadecimal

/-!
Strings of data texts: whatever characters a string holds, its text reads as that string again.
-/

namespace CilWeave.Json

/-- The units that a writer uses stand for characters by themselves, so what comes next is read on its own. -/
theorem readString?_unit {read : Option (List Char)} {a b c d char : Char} {unit : Nat} (rest : List Char)
    (digits : unit? a b c d = some unit) (single : charOfUnit? unit = some char) :
    readString? read ('\\' :: 'u' :: a :: b :: c :: d :: rest) = readString? (read.map (char :: ·)) rest := by
  rw [readString?.eq_def]
  split <;> simp_all
  · rename_i other same
    exact absurd same.2.symm (other _ _ _ _ _ same.1.symm)
  · rename_i other same
    exact absurd same.2.symm (other _ _ same.1.symm)

theorem charOfUnit?_control {char : Char} (control : char.toNat < 0x20) : charOfUnit? char.toNat = some char := by
  have low : ¬ (0xD800 ≤ char.toNat ∧ char.toNat ≤ 0xDFFF) := by omega
  rw [charOfUnit?, if_neg low, Char.ofNat_toNat]

/-- A control character without a mark of its own is written as a unit. -/
theorem readString?_control {char : Char} (control : char.toNat < 0x20) (read rest : List Char) :
    readString? (some read) ('\\' :: 'u' :: (Text.hexPadded 4 char.toNat).toList ++ rest) =
      readString? (some (char :: read)) rest := by
  have small : char.toNat < 16 ^ 4 := by omega
  have four := Text.length_hexPadded (by decide) small
  have value := Text.hexValue?_hexPadded 4 char.toNat
  match digits : (Text.hexPadded 4 char.toNat).toList, four with
  | [a, b, c, d], _ =>
      rw [digits] at value
      exact readString?_unit rest value (charOfUnit?_control control)

theorem readString?_escape (char : Char) (read rest : List Char) :
    readString? (some read) (escape char ++ rest) = readString? (some (char :: read)) rest := by
  unfold escape
  split
  · subst char; simp [readString?, unescape?]
  split
  · subst char; simp [readString?, unescape?]
  split
  · subst char; simp [readString?, unescape?]
  split
  · subst char; simp [readString?, unescape?]
  split
  · subst char; simp [readString?, unescape?]
  split
  · subst char; simp [readString?, unescape?]
  split
  · subst char; simp [readString?, unescape?]
  split
  · rename_i control
    exact readString?_control control read rest
  · rename_i quote backslash _ _ _ _ _ shown
    rw [List.singleton_append, readString?.eq_def]
    split <;> simp_all

theorem readString?_flatMap (text read rest : List Char) :
    readString? (some read)
      (text.flatMap escape ++ '"' :: rest) = some (some (String.ofList (read.reverse ++ text)), rest) := by
  induction text generalizing read with
  | nil => simp [readString?]
  | cons char text ih => simp [List.append_assoc, readString?_escape, ih]

/-- What follows the opening quote of a text, up to its end. -/
theorem readString?_writeString (text : String) : ∃ inner, (writeString text).toList = '"' :: inner ∧
    ∀ rest, readString? (some []) (inner ++ rest) = some (some text, rest) := by
  refine ⟨text.toList.flatMap escape ++ ['"'], by simp [writeString], fun rest => ?_⟩
  simp [readString?_flatMap]

end CilWeave.Json
