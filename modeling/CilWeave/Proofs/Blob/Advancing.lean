import Mathlib.Algebra.Group.Nat.Defs
import CilWeave.Blob.Cursor
import CilWeave.Proofs.Stateful

/-!
How far reads move. Whatever comes of a read, it takes bytes from the front of what is left and leaves the
rest, so the cursor stays within the data. A value that is read is spelled by exactly the bytes taken for
it. A read that fails takes nothing if its width is fixed; one made of parts keeps what its parts took.
-/

namespace CilWeave

open Stateful

variable {α β : Type}

/-- The cursor is somewhere in the data, with the bytes after it still to be read. -/
structure Cursor.Over (data : List UInt8) (cursor : Cursor) : Prop where
  counted : cursor.position + cursor.remaining = data.length
  rest_eq : cursor.rest = data.drop cursor.position

/-- Whatever comes of the read, it takes bytes from the front of what is left; a value that it gives suits the bytes
taken. -/
def Takes (read : Read α) (suits : List UInt8 → α → Prop) : Prop :=
  ∀ position rest, ∃ bytes more, rest = bytes ++ more ∧
    (read.run.run ⟨position, rest⟩).2 = ⟨position + bytes.length, more⟩ ∧
    ∀ value, (read.run.run ⟨position, rest⟩).1 = .ok value → suits bytes value

namespace Takes

variable {read : Read α} {suits suited : List UInt8 → α → Prop}

theorem weaken (takes : Takes read suited) (weaker : ∀ bytes value, suited bytes value → suits bytes value) :
    Takes read suits := by
  intro position rest
  obtain ⟨bytes, more, split, left, gives⟩ := takes position rest
  exact ⟨bytes, more, split, left, fun value given => weaker bytes value (gives value given)⟩

theorem pure {value : α} (true : suits [] value) : Takes (Pure.pure value) suits := by
  intro position rest
  refine ⟨[], rest, rfl, rfl, ?_⟩
  rintro _ ⟨⟩
  exact true

theorem fail (fault : BlobFault) : Takes (throw fault) suits := fun _ rest => ⟨[], rest, rfl, rfl, nofun⟩

theorem bind {next : α → Read β} {result : List UInt8 → β → Prop} (first : Takes read suited)
    (second : ∀ bytes value, suited bytes value → Takes (next value) fun more => result (bytes ++ more)) :
    Takes (read >>= next) result := by
  intro position rest
  rw [run_bind]
  obtain ⟨bytes, more, rfl, left, gives⟩ := first position rest
  rcases one : read.run.run ⟨position, bytes ++ more⟩ with ⟨fault | value, between⟩
  · rw [one] at left
    exact ⟨bytes, more, rfl, left, nofun⟩
  · rw [one] at left gives
    obtain ⟨others, last, rfl, ends, results⟩ := second bytes value (gives value rfl) (position + bytes.length) more
    rw [show between = _ from left]
    refine ⟨bytes ++ others, last, (List.append_assoc ..).symm, ?_, results⟩
    rw [ends, List.length_append, Nat.add_assoc]

/-- A read whose outcome is only handed on. -/
theorem map {change : α → β} {result : List UInt8 → β → Prop} (takes : Takes read suited)
    (suits : ∀ bytes value, suited bytes value → result bytes (change value)) :
    Takes (do return change (← read)) result :=
  takes.bind fun bytes value held => .pure (by simpa using suits bytes value held)

/-- What is read next may depend on where the cursor is, but looking takes nothing. -/
theorem look {next : Cursor → Read β} {result : List UInt8 → β → Prop}
    (takes : ∀ cursor, Takes (next cursor) result) : Takes (get >>= next) result :=
  fun position rest => takes ⟨position, rest⟩ position rest

theorem ite {condition : Prop} [Decidable condition] {other : Read α} (one : condition → Takes read suits)
    (two : ¬condition → Takes other suits) : Takes (if condition then read else other) suits := by
  split
  · exact one ‹_›
  · exact two ‹_›

theorem stays (takes : Takes read suits) {data : List UInt8} {cursor : Cursor} (within : cursor.Over data) :
    (read.run.run cursor).2.Over data := by
  obtain ⟨position, rest⟩ := cursor
  obtain ⟨counted, rest_eq⟩ := within
  obtain ⟨bytes, more, rfl, left, -⟩ := takes position rest
  simp only [Cursor.remaining, List.length_append] at counted rest_eq
  rw [left]
  refine ⟨by dsimp only [Cursor.remaining]; omega, ?_⟩
  rw [← List.drop_drop, ← rest_eq, List.drop_left]

theorem position_le (takes : Takes read suits) (cursor : Cursor) :
    cursor.position ≤ (read.run.run cursor).2.position := by
  obtain ⟨bytes, more, -, left, -⟩ := takes cursor.position cursor.rest
  rw [left]
  exact Nat.le_add_right _ _

/-- What the first part took stays taken. -/
theorem position_le_bind {next : α → Read β} {result : α → List UInt8 → β → Prop}
    (takes : ∀ value, Takes (next value) (result value)) (cursor : Cursor) :
    (read.run.run cursor).2.position ≤ ((read >>= next).run.run cursor).2.position := by
  rw [run_bind]
  rcases read.run.run cursor with ⟨fault | value, between⟩
  · exact Nat.le_refl _
  · exact (takes value).position_le between

end Takes

/-- The read takes exactly so many bytes if there are as many, and nothing otherwise. -/
def Whole (read : Read α) (width : Nat) (convert : List UInt8 → α) : Prop :=
  ∀ position rest, read.run.run ⟨position, rest⟩ =
    if width ≤ rest.length then (.ok (convert (rest.take width)), ⟨position + width, rest.drop width⟩)
    else (.error .outOfBounds, ⟨position, rest⟩)

namespace Whole

variable {read : Read α} {width : Nat} {convert : List UInt8 → α}

theorem bytes (count : Nat) : Whole (Read.bytes count) count id := by
  intro position rest
  rw [Read.bytes, run_get_bind]
  by_cases enough : count ≤ rest.length
  · rw [if_pos enough]
    exact congrArg (fun read : Read (List UInt8) => read.run.run ⟨position, rest⟩) (if_pos enough)
  · rw [if_neg enough]
    exact congrArg (fun read : Read (List UInt8) => read.run.run ⟨position, rest⟩) (if_neg enough)

theorem map (whole : Whole read width convert) (change : α → β) :
    Whole (do return change (← read)) width (change ∘ convert) := by
  intro position rest
  rw [run_bind, whole]
  by_cases enough : width ≤ rest.length
  · simp only [if_pos enough]
    rfl
  · simp only [if_neg enough]

theorem number (width : Nat) : Whole (Read.number width) width littleEndian := (bytes width).map littleEndian

theorem takes (whole : Whole read width convert) :
    Takes read fun bytes value => bytes.length = width ∧ convert bytes = value := by
  intro position rest
  rw [whole]
  split
  · rename_i enough
    have length : (rest.take width).length = width := List.length_take_of_le enough
    refine ⟨rest.take width, rest.drop width, (List.take_append_drop ..).symm, by rw [length], ?_⟩
    rintro _ ⟨⟩
    exact ⟨length, rfl⟩
  · exact ⟨[], rest, rfl, rfl, nofun⟩

theorem unmoved (whole : Whole read width convert) {cursor after : Cursor} {fault : BlobFault}
    (failed : read.run.run cursor = (.error fault, after)) : after = cursor := by
  obtain ⟨position, rest⟩ := cursor
  rw [whole] at failed
  split at failed
  · cases failed
  · cases failed
    rfl

end Whole

theorem whole_uint8 : Whole Read.uint8 1 fun bytes => (littleEndian bytes).toUInt8 := (Whole.number 1).map _

theorem uint8_cons (position : Nat) (byte : UInt8) (rest : List UInt8) :
    Read.uint8.run.run ⟨position, byte :: rest⟩ = (.ok byte, ⟨position + 1, rest⟩) := by
  rw [whole_uint8, if_pos (by simp)]
  simp [littleEndian]

theorem takes_uint8 : Takes Read.uint8 fun bytes value => bytes = [value] := by
  refine whole_uint8.takes.weaken ?_
  rintro bytes value ⟨one, rfl⟩
  obtain ⟨byte, rfl⟩ := List.length_eq_one_iff.mp one
  simp [littleEndian]

/-- How a length is packed: the leading bits of the first byte tell how many bytes there are. -/
inductive Packed : List UInt8 → Nat → Prop
  | one {first : UInt8} : first < 0x80 → Packed [first] first.toNat
  | two {first second : UInt8} : 0x80 ≤ first → first < 0xC0 →
      Packed [first, second] ((first.toNat - 0x80) * 0x100 + second.toNat)
  | four {first second third fourth : UInt8} : 0xC0 ≤ first → first < 0xE0 →
      Packed [first, second, third, fourth]
        ((((first.toNat - 0xC0) * 0x100 + second.toNat) * 0x100 + third.toNat) * 0x100 + fourth.toNat)

/-- How text is spelled: a byte of its own if there is none, otherwise a packed length and as many bytes. -/
inductive Worded : List UInt8 → Option String → Prop
  | absent : Worded [0xFF] none
  | present {lead content : List UInt8} {text : String} : Packed lead content.length →
      String.fromUTF8? ⟨content.toArray⟩ = some text → Worded (lead ++ content) (some text)

/-- What follows the first byte of a packed length. -/
def Read.lengthAfter (first : UInt8) : Read Nat :=
  if first < 0x80 then return first.toNat
  else if first < 0xC0 then do
    let second ← uint8
    return (first.toNat - 0x80) * 0x100 + second.toNat
  else if first < 0xE0 then do
    let second ← uint8
    let third ← uint8
    let fourth ← uint8
    return (((first.toNat - 0xC0) * 0x100 + second.toNat) * 0x100 + third.toNat) * 0x100 + fourth.toNat
  else throw (.packedLength first)

theorem packedLength_eq : Read.packedLength = Read.uint8 >>= Read.lengthAfter := rfl

theorem takes_lengthAfter (first : UInt8) : Takes (Read.lengthAfter first) fun more => Packed (first :: more) := by
  refine .ite (fun small => .pure (.one small)) fun large =>
    .ite (fun small => ?_) fun larger => .ite (fun small => ?_) fun _ => .fail _
  · refine takes_uint8.bind ?_
    rintro _ second rfl
    exact .pure (.two (UInt8.not_lt.mp large) small)
  · refine takes_uint8.bind ?_
    rintro _ second rfl
    refine takes_uint8.bind ?_
    rintro _ third rfl
    refine takes_uint8.bind ?_
    rintro _ fourth rfl
    exact .pure (.four (UInt8.not_lt.mp larger) small)

theorem takes_packedLength : Takes Read.packedLength Packed := by
  refine takes_uint8.bind ?_
  rintro _ first rfl
  exact takes_lengthAfter first

/-- The first byte of a packed length stays taken, whatever comes after it. -/
theorem packedLength_moves (position : Nat) (byte : UInt8) (rest : List UInt8) :
    position < (Read.packedLength.run.run ⟨position, byte :: rest⟩).2.position := by
  rw [packedLength_eq, run_bind, uint8_cons]
  exact (takes_lengthAfter byte).position_le ⟨position + 1, rest⟩

/-- Text of a given length. -/
def Read.content (length : Nat) : Read (Option String) := do
  let content ← bytes length
  match String.fromUTF8? ⟨content.toArray⟩ with
  | some text => return some text
  | none => throw (.notText ((← get).position - length))

theorem takes_content (length : Nat) : Takes (Read.content length) fun content text =>
    content.length = length ∧ ∃ present, text = some present ∧ String.fromUTF8? ⟨content.toArray⟩ = some present := by
  refine (Whole.bytes length).takes.bind ?_
  rintro content _ ⟨rfl, rfl⟩
  dsimp only [id]
  split
  · rename_i text stands
    exact .pure (by simpa using stands)
  · exact .look fun _ => .fail _

/-- Text after its packed length. -/
def Read.present : Read (Option String) := packedLength >>= content

theorem takes_present : Takes Read.present Worded := by
  refine takes_packedLength.bind fun lead length packed => (takes_content length).weaken ?_
  rintro content _ ⟨rfl, text, rfl, stands⟩
  exact .present packed stands

theorem text?_cons (position : Nat) (byte : UInt8) (rest : List UInt8) :
    Read.text?.run.run ⟨position, byte :: rest⟩ =
      if byte = 0xFF then (.ok none, ⟨position + 1, rest⟩) else Read.present.run.run ⟨position, byte :: rest⟩ := by
  rw [Read.text?, run_bind]
  change (ite (byte = 0xFF) _ _ : Read (Option String)).run.run _ = _
  split <;> rfl

theorem takes_text? : Takes Read.text? Worded := by
  intro position rest
  cases rest with
  | nil => exact ⟨[], [], rfl, rfl, nofun⟩
  | cons byte rest =>
      rw [text?_cons]
      split
      · rename_i absent
        refine ⟨[byte], rest, rfl, rfl, ?_⟩
        rintro _ ⟨⟩
        exact absent ▸ .absent
      · exact takes_present position (byte :: rest)

theorem text?_moves (position : Nat) (byte : UInt8) (rest : List UInt8) :
    position < (Read.text?.run.run ⟨position, byte :: rest⟩).2.position := by
  rw [text?_cons]
  split
  · exact Nat.lt_succ_self position
  · exact Nat.lt_of_lt_of_le (packedLength_moves position byte rest) (Takes.position_le_bind takes_content _)

/-- What can be read. -/
inductive BlobItem : Type → Type where
  | uint8 : BlobItem UInt8
  | int8 : BlobItem Int8
  | uint16 : BlobItem UInt16
  | int16 : BlobItem Int16
  | uint32 : BlobItem UInt32
  | int32 : BlobItem Int32
  | uint64 : BlobItem UInt64
  | int64 : BlobItem Int64
  | single : BlobItem Single
  | double : BlobItem Double
  | bytes (count : Nat) : BlobItem (List UInt8)
  | packedLength : BlobItem Nat
  | text : BlobItem (Option String)

namespace BlobItem

def read : {α : Type} → BlobItem α → Read α
  | _, uint8 => Read.uint8
  | _, int8 => Read.int8
  | _, uint16 => Read.uint16
  | _, int16 => Read.int16
  | _, uint32 => Read.uint32
  | _, int32 => Read.int32
  | _, uint64 => Read.uint64
  | _, int64 => Read.int64
  | _, single => Read.single
  | _, double => Read.double
  | _, bytes count => Read.bytes count
  | _, packedLength => Read.packedLength
  | _, text => Read.text?

/-- The width of an item that has always the same, and what its bytes stand for. -/
def fixed? : {α : Type} → BlobItem α → Option (Nat × (List UInt8 → α))
  | _, uint8 => some (1, fun bytes => (littleEndian bytes).toUInt8)
  | _, int8 => some (1, fun bytes => (littleEndian bytes).toUInt8.toInt8)
  | _, uint16 => some (2, fun bytes => (littleEndian bytes).toUInt16)
  | _, int16 => some (2, fun bytes => (littleEndian bytes).toUInt16.toInt16)
  | _, uint32 => some (4, fun bytes => (littleEndian bytes).toUInt32)
  | _, int32 => some (4, fun bytes => (littleEndian bytes).toUInt32.toInt32)
  | _, uint64 => some (8, fun bytes => (littleEndian bytes).toUInt64)
  | _, int64 => some (8, fun bytes => (littleEndian bytes).toUInt64.toInt64)
  | _, single => some (4, fun bytes => ⟨(littleEndian bytes).toUInt32⟩)
  | _, double => some (8, fun bytes => ⟨(littleEndian bytes).toUInt64⟩)
  | _, bytes count => some (count, id)
  | _, packedLength => none
  | _, text => none

/-- The bytes are the item, and stand for the value. -/
def Spells : {α : Type} → BlobItem α → List UInt8 → α → Prop
  | _, packedLength => Packed
  | _, text => Worded
  | _, item => fun bytes value =>
    ∃ width convert, item.fixed? = some (width, convert) ∧ bytes.length = width ∧ convert bytes = value

variable (item : BlobItem α)

theorem whole {width : Nat} {convert : List UInt8 → α} (fixed : item.fixed? = some (width, convert)) :
    Whole item.read width convert := by
  cases item with
  | packedLength => cases fixed
  | text => cases fixed
  | bytes count =>
      cases fixed
      exact .bytes _
  | single =>
      cases fixed
      exact ((Whole.number 4).map Nat.toUInt32).map Single.mk
  | double =>
      cases fixed
      exact ((Whole.number 8).map Nat.toUInt64).map Double.mk
  | _ =>
      cases fixed
      exact (Whole.number _).map _

theorem takes : Takes item.read item.Spells := by
  cases item with
  | packedLength => exact takes_packedLength
  | text => exact takes_text?
  | _ => exact (whole _ rfl).takes.weaken fun bytes value same => ⟨_, _, rfl, same⟩

/-- An item without a fixed width takes a byte if there is one, whatever comes of it. -/
theorem moves (parts : item.fixed? = none) (position : Nat) (byte : UInt8) (rest : List UInt8) :
    position < (item.read.run.run ⟨position, byte :: rest⟩).2.position := by
  cases item with
  | packedLength => exact packedLength_moves position byte rest
  | text => exact text?_moves position byte rest
  | _ => cases parts

/-- A read that fails has not moved if its width is fixed or nothing is left, and otherwise it has. -/
theorem unmoved_iff {cursor after : Cursor} {fault : BlobFault}
    (failed : item.read.run.run cursor = (.error fault, after)) :
    after.position = cursor.position ↔ item.fixed?.isSome ∨ cursor.rest = [] := by
  cases kind : item.fixed? with
  | some fixed =>
      rw [(item.whole kind).unmoved failed]
      simp
  | none =>
      obtain ⟨position, rest⟩ := cursor
      cases rest with
      | nil =>
          obtain ⟨bytes, more, split, left, -⟩ := item.takes position []
          obtain ⟨rfl, rfl⟩ := List.append_eq_nil_iff.mp split.symm
          rw [failed] at left
          simp [show after = _ from left]
      | cons byte rest =>
          have moved := item.moves kind position byte rest
          rw [failed] at moved
          simp [Nat.ne_of_gt moved]

end BlobItem

/-- Where the cursor is after an item has been read, or has failed to be. -/
def Cursor.pass (cursor : Cursor) (item : Sigma BlobItem) : Cursor := (item.2.read.run.run cursor).2

/-- Where the cursor is after reads of several items, whatever came of them. -/
def Cursor.passAll (cursor : Cursor) (items : List (Sigma BlobItem)) : Cursor := items.foldl Cursor.pass cursor

theorem Cursor.Over.passAll {data : List UInt8} {cursor : Cursor} (within : cursor.Over data) (items : List (Sigma BlobItem)) :
    (cursor.passAll items).Over data := by
  induction items generalizing cursor with
  | nil => exact within
  | cons item rest ih => exact ih (item.2.takes.stays within)

theorem Cursor.over_start (data : List UInt8) : (Cursor.start data).Over data := by
  constructor <;> simp [start, remaining]

/-- Where reads of several items lead, from the start of the data. -/
def Cursor.reached (data : List UInt8) (items : List (Sigma BlobItem)) : Cursor := (Cursor.start data).passAll items

namespace BlobItem

/-- After any reads the cursor stands in the data. A read that succeeds moves it by exactly the bytes that spell the value.
One that fails leaves it where it is if the item's width is fixed or no byte is left, and in no other case; it never leaves
the data. -/
theorem reading_advances (data : List UInt8) (items : List (Sigma BlobItem)) (item : BlobItem α) :
    (Cursor.reached data items).position + (Cursor.reached data items).remaining = data.length ∧
      match item.read.run.run (Cursor.reached data items) with
      | (.ok value, after) => after.position ≤ data.length ∧ ∃ bytes, item.Spells bytes value ∧
          (data.drop (Cursor.reached data items).position).take bytes.length = bytes ∧
          after.position = (Cursor.reached data items).position + bytes.length
      | (.error _, after) => after.position ≤ data.length ∧ (Cursor.reached data items).position ≤ after.position ∧
          (after.position = (Cursor.reached data items).position ↔
            item.fixed?.isSome ∨ (Cursor.reached data items).position = data.length) := by
  have within : (Cursor.reached data items).Over data := (Cursor.over_start data).passAll items
  generalize Cursor.reached data items = cursor at within
  refine ⟨within.counted, ?_⟩
  have stays := item.takes.stays within
  have forward := item.takes.position_le cursor
  obtain ⟨bytes, more, split, left, gives⟩ := item.takes cursor.position cursor.rest
  rcases ran : item.read.run.run cursor with ⟨fault | value, after⟩
  · rw [ran] at stays forward
    have inside : after.position + after.remaining = data.length := stays.counted
    have ended : cursor.rest = [] ↔ cursor.position = data.length := by
      have counted := within.counted
      rw [← List.length_eq_zero_iff]
      simp only [Cursor.remaining] at counted
      omega
    dsimp only
    rw [← ended]
    exact ⟨by omega, forward, item.unmoved_iff ran⟩
  · rw [ran] at stays left gives
    have inside : after.position + after.remaining = data.length := stays.counted
    have moved : after = ⟨cursor.position + bytes.length, more⟩ := left
    refine ⟨by omega, bytes, gives value rfl, ?_, by rw [moved]⟩
    rw [← within.rest_eq, split, List.take_left]

/-- Half a length has been read when the data ends, and it stays read. -/
theorem truncated_moved : ¬ ∀ (data : List UInt8) (items : List (Sigma BlobItem)) (item : BlobItem Nat) (fault : BlobFault)
    (after : Cursor), item.read.run.run (.reached data items) = (.error fault, after) →
      after.position = (Cursor.reached data items).position := by
  intro unmoved
  exact absurd (unmoved [0x80] [] .packedLength .outOfBounds ⟨1, []⟩ rfl) (by decide)

end BlobItem

end CilWeave
