import Mathlib.Algebra.Group.Nat.Defs
import CilWeave.Blob.Cursor
import CilWeave.Proofs.Stateful

/-!
Reading back what was written: numbers of a fixed width, packed lengths and text. A read that takes exactly
the bytes of something, whatever comes after them, can be put in front of any other.
-/

namespace CilWeave

open Stateful

variable {α β : Type}

/-- The read takes exactly these bytes and gives the value, whatever bytes come after. -/
def Reads (read : Read α) (bytes : List UInt8) (value : α) : Prop :=
  ∀ position rest, read.run.run ⟨position, bytes ++ rest⟩ = (.ok value, ⟨position + bytes.length, rest⟩)

namespace Reads

variable {read : Read α} {bytes : List UInt8} {value : α}

theorem pure (value : α) : Reads (Pure.pure value) [] value := fun _ _ => rfl

theorem bind {next : α → Read β} {more : List UInt8} {result : β} (first : Reads read bytes value)
    (second : Reads (next value) more result) : Reads (read >>= next) (bytes ++ more) result := by
  intro position rest
  rw [run_bind, List.append_assoc, first]
  dsimp only
  rw [second, List.length_append, Nat.add_assoc]

/-- The first part is a single byte. -/
theorem bind_byte {next : α → Read β} {byte : UInt8} {more : List UInt8} {result : β} (first : Reads read [byte] value)
    (second : Reads (next value) more result) : Reads (read >>= next) (byte :: more) result := first.bind second

/-- Nothing is read after the first part. -/
theorem bind_end {next : α → Read β} {result : β} (first : Reads read bytes value)
    (second : Reads (next value) [] result) :
    Reads (read >>= next) bytes result := by
  have both := first.bind second
  rwa [List.append_nil] at both

/-- A read whose outcome is only handed on. -/
theorem bind_pure {change : α → β} (first : Reads read bytes value) :
    Reads (do return change (← read)) bytes (change value) := first.bind_end (.pure (change value))

end Reads

theorem littleEndianBytes_length (width number : Nat) : (littleEndianBytes width number).length = width := by
  induction width generalizing number with
  | zero => rfl
  | succ width ih => rw [littleEndianBytes, List.length_cons, ih]

theorem littleEndianBytes_one (byte : UInt8) : littleEndianBytes 1 byte.toNat = [byte] := by
  rw [littleEndianBytes, littleEndianBytes, Nat.mod_eq_of_lt byte.toNat_lt]
  exact congrArg (· :: []) UInt8.ofNat_toNat

theorem littleEndian_littleEndianBytes {width number : Nat} (bounded : number < 256 ^ width) :
    littleEndian (littleEndianBytes width number) = number := by
  induction width generalizing number with
  | zero =>
      have zero : number = 0 := by simpa using bounded
      rw [zero]
      rfl
  | succ width ih =>
      have small : number / 256 < 256 ^ width := by
        rw [Nat.div_lt_iff_lt_mul (by decide), ← Nat.pow_succ]
        exact bounded
      have byte : ((number % 256).toUInt8).toNat = number % 256 := by
        rw [UInt8.toNat_ofNat', Nat.mod_mod]
      rw [littleEndianBytes, littleEndian, ih small, byte]
      exact Nat.mod_add_div number 256

namespace Reads

theorem bytes (content : List UInt8) : Reads (Read.bytes content.length) content content := by
  intro position rest
  have enough : content.length ≤ (⟨position, content ++ rest⟩ : Cursor).remaining := by
    rw [Cursor.remaining, List.length_append]
    exact Nat.le_add_right _ _
  rw [Read.bytes, run_get_bind, if_pos enough]
  simp only [Cursor.advance, List.drop_left, List.take_left]
  rfl

theorem number {width number : Nat} (bounded : number < 256 ^ width) :
    Reads (Read.number width) (littleEndianBytes width number) number := by
  have taken : Reads (do return littleEndian (← Read.bytes _)) _ (littleEndian (littleEndianBytes width number)) :=
    (bytes _).bind_pure
  rwa [littleEndianBytes_length, littleEndian_littleEndianBytes bounded] at taken

/-- A number that stands for a value of some other type. -/
theorem numberAs {width number : Nat} {change : Nat → α} {value : α} (bounded : number < 256 ^ width)
    (stands : change number = value) :
    Reads (do return change (← Read.number width)) (littleEndianBytes width number) value :=
  stands ▸ (Reads.number bounded).bind_pure

theorem uint8 (value : UInt8) : Reads Read.uint8 [value] value :=
  littleEndianBytes_one value ▸ numberAs value.toNat_lt UInt8.ofNat_toNat

theorem int8 (value : Int8) : Reads Read.int8 [value.toUInt8] value :=
  littleEndianBytes_one value.toUInt8 ▸ numberAs value.toUInt8.toNat_lt (congrArg UInt8.toInt8 UInt8.ofNat_toNat)

theorem uint16 (value : UInt16) : Reads Read.uint16 (littleEndianBytes 2 value.toNat) value :=
  numberAs value.toNat_lt UInt16.ofNat_toNat

theorem int16 (value : Int16) : Reads Read.int16 (littleEndianBytes 2 value.toUInt16.toNat) value :=
  numberAs value.toUInt16.toNat_lt (congrArg UInt16.toInt16 UInt16.ofNat_toNat)

theorem uint32 (value : UInt32) : Reads Read.uint32 (littleEndianBytes 4 value.toNat) value :=
  numberAs value.toNat_lt UInt32.ofNat_toNat

theorem int32 (value : Int32) : Reads Read.int32 (littleEndianBytes 4 value.toUInt32.toNat) value :=
  numberAs value.toUInt32.toNat_lt (congrArg UInt32.toInt32 UInt32.ofNat_toNat)

theorem uint64 (value : UInt64) : Reads Read.uint64 (littleEndianBytes 8 value.toNat) value :=
  numberAs value.toNat_lt UInt64.ofNat_toNat

theorem int64 (value : Int64) : Reads Read.int64 (littleEndianBytes 8 value.toUInt64.toNat) value :=
  numberAs value.toUInt64.toNat_lt (congrArg UInt64.toInt64 UInt64.ofNat_toNat)

theorem single (value : Single) : Reads Read.single (littleEndianBytes 4 value.bits.toNat) value :=
  (uint32 value.bits).bind_pure

theorem double (value : Double) : Reads Read.double (littleEndianBytes 8 value.bits.toNat) value :=
  (uint64 value.bits).bind_pure

end Reads

/-- Text whose length can be written before it. -/
def Short (text : String) : Prop := text.utf8ByteSize < 2 ^ 29

instance (text : String) : Decidable (Short text) := inferInstanceAs (Decidable (text.utf8ByteSize < 2 ^ 29))

theorem toNat_toUInt8 (number : Nat) : number.toUInt8.toNat = number % 256 := UInt8.toNat_ofNat'

/-- A packed length does not begin like absent text. -/
theorem packedLengthBytes_head {length : Nat} (bounded : length < 2 ^ 29) :
    ∃ first rest, packedLengthBytes length = first :: rest ∧ first ≠ 0xFF := by
  have other {number : Nat} (small : number < 0xFF) : number.toUInt8 ≠ 0xFF := by
    intro same
    have value := congrArg UInt8.toNat same
    rw [toNat_toUInt8, show (0xFF : UInt8).toNat = 0xFF from rfl] at value
    omega
  unfold packedLengthBytes
  split
  · exact ⟨_, _, rfl, other (by omega)⟩
  · split
    · exact ⟨_, _, rfl, other (by omega)⟩
    · exact ⟨_, _, rfl, other (by omega)⟩

theorem packedLengthBytes_length (length : Nat) : 0 < (packedLengthBytes length).length := by
  unfold packedLengthBytes
  split
  · exact Nat.succ_pos _
  · split <;> exact Nat.succ_pos _

theorem toUInt8_lt {number : Nat} {limit : UInt8} (small : number < 0x100) :
    number.toUInt8 < limit ↔ number < limit.toNat := by
  rw [UInt8.lt_iff_toNat_lt, toNat_toUInt8, Nat.mod_eq_of_lt small]

theorem reads_packedLength {length : Nat} (bounded : length < 2 ^ 29) :
    Reads Read.packedLength (packedLengthBytes length) length := by
  have handed {number : Nat} (same : number = length) : Reads (pure number) [] length := same ▸ .pure number
  have limits : (0x80 : UInt8).toNat = 0x80 ∧ (0xC0 : UInt8).toNat = 0xC0 ∧ (0xE0 : UInt8).toNat = 0xE0 :=
    ⟨rfl, rfl, rfl⟩
  unfold packedLengthBytes
  split
  · have first : length.toUInt8 < 0x80 := (toUInt8_lt (by omega)).mpr (by omega)
    refine Reads.bind_end (.uint8 _) ?_
    rw [if_pos first]
    exact handed (by rw [toNat_toUInt8]; omega)
  · split
    · have first : ¬(length / 0x100 + 0x80).toUInt8 < 0x80 := fun less => by
        have := (toUInt8_lt (by omega)).mp less
        omega
      have second : (length / 0x100 + 0x80).toUInt8 < 0xC0 := (toUInt8_lt (by omega)).mpr (by omega)
      refine Reads.bind_byte (.uint8 _) ?_
      rw [if_neg first, if_pos second]
      refine Reads.bind_end (.uint8 _) (handed ?_)
      rw [toNat_toUInt8, toNat_toUInt8]
      omega
    · have first : ¬(length / 0x1000000 + 0xC0).toUInt8 < 0x80 := fun less => by
        have := (toUInt8_lt (by omega)).mp less
        omega
      have second : ¬(length / 0x1000000 + 0xC0).toUInt8 < 0xC0 := fun less => by
        have := (toUInt8_lt (by omega)).mp less
        omega
      have third : (length / 0x1000000 + 0xC0).toUInt8 < 0xE0 := (toUInt8_lt (by omega)).mpr (by omega)
      refine Reads.bind_byte (.uint8 _) ?_
      rw [if_neg first, if_neg second, if_pos third]
      refine Reads.bind_byte (.uint8 _) (Reads.bind_byte (.uint8 _) (Reads.bind_end (.uint8 _) (handed ?_)))
      rw [toNat_toUInt8, toNat_toUInt8, toNat_toUInt8, toNat_toUInt8]
      omega

theorem fromUTF8?_toUTF8 (text : String) : String.fromUTF8? ⟨text.toUTF8.data.toList.toArray⟩ = some text :=
  dif_pos text.isValidUTF8

/-- Looking at the first byte leaves it where it is. -/
theorem Reads.peek {next : UInt8 → Read α} {first : UInt8} {others : List UInt8} {value : α}
    (after : Reads (next first) (first :: others) value) : Reads (Read.peek >>= next) (first :: others) value :=
  after

/-- Text that is not too long, or its absence, is read back. -/
theorem reads_text? {text : Option String} (short : ∀ content ∈ text, Short content) :
    Reads Read.text? (textBytes text) text := by
  cases text with
  | none => exact fun position rest => rfl
  | some text =>
      have bounded : text.toUTF8.data.toList.length < 2 ^ 29 := short text rfl
      obtain ⟨first, others, packed, present⟩ := packedLengthBytes_head bounded
      have cut : min text.toUTF8.data.toList.length 0x1FFFFFFF = text.toUTF8.data.toList.length := by omega
      rw [textBytes, cut, List.take_length, packed, List.cons_append]
      refine Reads.peek ?_
      rw [if_neg present, ← List.cons_append, ← packed]
      refine Reads.bind (reads_packedLength bounded) (Reads.bind_end (.bytes _) ?_)
      rw [fromUTF8?_toUTF8]
      exact .pure _

end CilWeave
