import Mathlib.Data.List.Nodup
import CilWeave.Body.Basic

/-!
Handing out identities. The counter has 32 bits: behind the last identity it is at zero again, and is then moved above the
identities that the body has by that time. Until the last identity is handed out, identities are consecutive and none of them
is in use.
-/

namespace CilWeave

/-- The identities from the given one on. -/
def counting (first : InstrId) (position : Nat) : InstrId := first + UInt32.ofNat position

@[simp] theorem counting_zero (first : InstrId) : counting first 0 = first := UInt32.add_zero first

theorem counting_counting (first : InstrId) (position more : Nat) :
    counting (counting first position) more = counting first (position + more) := by
  rw [counting, counting, counting, UInt32.ofNat_add, UInt32.add_assoc]

theorem toNat_counting {first : InstrId} {position : Nat} (room : first.toNat + position < UInt32.size) :
    (counting first position).toNat = first.toNat + position := by
  have small : position % 2 ^ 32 = position := Nat.mod_eq_of_lt (Nat.lt_of_le_of_lt (Nat.le_add_left _ _) room)
  rw [counting, UInt32.toNat_add, UInt32.toNat_ofNat', small, Nat.mod_eq_of_lt room]

theorem counting_ne_zero {first : InstrId} {position : Nat} (room : first.toNat + position < UInt32.size)
    (positive : 0 < position) :
    counting first position ≠ 0 := by
  intro zero
  have counted := toNat_counting room
  rw [zero] at counted
  exact Nat.ne_of_lt (Nat.add_pos_right _ positive) counted

/-- While there is room, the identities from one on are those that lie between. -/
theorem mem_counting {first id : InstrId} {count : Nat} (room : first.toNat + count ≤ UInt32.size) :
    id ∈ (List.range count).map (counting first) ↔ first.toNat ≤ id.toNat ∧ id.toNat < first.toNat + count := by
  simp only [List.mem_map, List.mem_range]
  constructor
  · rintro ⟨position, within, rfl⟩
    rw [toNat_counting (by omega)]
    exact ⟨Nat.le_add_right _ _, Nat.add_lt_add_left within _⟩
  · rintro ⟨least, most⟩
    have whole : first.toNat + (id.toNat - first.toNat) = id.toNat := Nat.add_sub_cancel' least
    have counted : (counting first (id.toNat - first.toNat)).toNat = first.toNat + (id.toNat - first.toNat) :=
      toNat_counting (by rw [whole]; exact id.toNat_lt_size)
    exact ⟨id.toNat - first.toNat, by omega, UInt32.toNat_inj.mp (counted.trans whole)⟩

theorem nodup_counting {first : InstrId} {count : Nat} (room : first.toNat + count ≤ UInt32.size) :
    ((List.range count).map (counting first)).Nodup := by
  refine List.Nodup.map_on (fun position within other among same => ?_) List.nodup_range
  rw [List.mem_range] at within among
  have places := congrArg UInt32.toNat same
  rw [toNat_counting (by omega), toNat_counting (by omega)] at places
  exact Nat.add_left_cancel places

/-- The last identity. -/
def InstrId.last : InstrId := 0xFFFFFFFF

theorem InstrId.toNat_succ_lt {id : InstrId} (other : id ≠ last) : id.toNat + 1 < UInt32.size := by
  have bounded := id.toNat_lt_size
  have differs : id.toNat ≠ UInt32.size - 1 := fun same => other (UInt32.toNat_inj.mp same)
  omega

namespace Body

variable (body : Body)

/-- The identity that a body hands out next. -/
def nextFresh : InstrId := if body.nextId = 0 then body.freshId else body.nextId

/-- The counter is unused or above all identities. -/
def Fresh : Prop := body.nextId = 0 ∨ ∀ id ∈ body.ids, id < body.nextId

/-- The last identity is not in use. -/
def Spare : Prop := InstrId.last ∉ body.ids

/-- Above the identities in use and above the counter, so many more can be handed out before the last one is. -/
structure Room (count : Nat) : Prop where
  ids : ∀ id ∈ body.ids, id.toNat + 1 + count < UInt32.size
  counter : body.nextId.toNat + count < UInt32.size

instance : Decidable body.Fresh := inferInstanceAs (Decidable (_ ∨ _))

instance : Decidable body.Spare := inferInstanceAs (Decidable (_ ∉ _))

instance (count : Nat) : Decidable (body.Room count) :=
  decidable_of_iff ((∀ id ∈ body.ids, id.toNat + 1 + count < UInt32.size) ∧ body.nextId.toNat + count < UInt32.size)
    ⟨fun ⟨ids, counter⟩ => ⟨ids, counter⟩, fun room => ⟨room.ids, room.counter⟩⟩

/-- The body after it has handed out some identities. -/
def handOut : Nat → Body
  | 0 => body
  | count + 1 => (handOut count).allocId.2

/-- The identities that a body hands out, one after the other. -/
def upcoming (position : Nat) : InstrId := (body.handOut position).nextFresh

theorem allocId_eq : body.allocId = (body.nextFresh, body.handOut 1) := rfl

theorem handOut_handOut (count more : Nat) : (body.handOut count).handOut more = body.handOut (count + more) := by
  induction more with
  | zero => rfl
  | succ more ih => exact congrArg (fun handed => handed.allocId.2) ih

theorem upcoming_handOut (count : Nat) : (body.handOut count).upcoming = fun position => body.upcoming (count + position) := by
  funext position
  rw [upcoming, upcoming, handOut_handOut]

@[simp] theorem upcoming_zero : body.upcoming 0 = body.nextFresh := rfl

/-- Only the counter moves. -/
theorem handOut_eq (count : Nat) : body.handOut count = { body with nextId := (body.handOut count).nextId } := by
  induction count with
  | zero => rfl
  | succ count ih =>
      rw [handOut]
      generalize body.handOut count = handed at ih
      rw [ih]
      rfl

@[simp] theorem instructions_handOut (count : Nat) : (body.handOut count).instructions = body.instructions := by
  rw [handOut_eq]

@[simp] theorem locals_handOut (count : Nat) : (body.handOut count).locals = body.locals := by
  rw [handOut_eq]

@[simp] theorem ids_handOut (count : Nat) : (body.handOut count).ids = body.ids := by
  rw [ids, instructions_handOut, ids]

/-- What is handed out next is above all identities in use, and so is as much again as is asked for. -/
structure Supplies (count : Nat) : Prop where
  above : ∀ id ∈ body.ids, id.toNat < body.nextFresh.toNat
  room : body.nextFresh.toNat + count < UInt32.size

variable {body}

theorem freshId_eq (body : Body) : body.freshId = body.ids.foldl (fun least id => max least (id + 1)) 0 := by
  rw [freshId, ← Array.foldl_toList, ids, List.foldl_map]

/-- Unless the last identity is in use, a bound is above all identities just if it is not below the one that would be handed out
first. -/
theorem freshId_le_iff (spare : body.Spare) {bound : Nat} :
    body.freshId.toNat ≤ bound ↔ ∀ id ∈ body.ids, id.toNat < bound := by
  have step (least id : InstrId) (other : id ≠ InstrId.last) :
      (max least (id + 1)).toNat ≤ bound ↔ least.toNat ≤ bound ∧ id.toNat < bound := by
    have next : (id + 1).toNat = id.toNat + 1 := by
      rw [UInt32.toNat_add]
      exact Nat.mod_eq_of_lt (InstrId.toNat_succ_lt other)
    rw [UInt32.toNat_max]
    omega
  have within (ids : List InstrId) (least : InstrId) (spare : InstrId.last ∉ ids) :
      (ids.foldl (fun least id => max least (id + 1)) least).toNat ≤ bound ↔
        least.toNat ≤ bound ∧ ∀ id ∈ ids, id.toNat < bound := by
    induction ids generalizing least with
    | nil => simp
    | cons id rest ih =>
        obtain ⟨differs, rest⟩ := List.ne_and_not_mem_of_not_mem_cons spare
        rw [List.foldl_cons, ih _ rest, step least id differs.symm, List.forall_mem_cons, and_assoc]
  rw [freshId_eq, within body.ids 0 spare]
  simp

/-- An unused counter, or one above all identities, goes on above them, unless the last one is in use. -/
theorem Fresh.above (fresh : body.Fresh) (spare : body.Spare) : ∀ id ∈ body.ids, id.toNat < body.nextFresh.toNat := by
  intro id member
  rw [nextFresh]
  split
  · exact (freshId_le_iff spare).mp (Nat.le_refl _) id member
  · rename_i used
    exact UInt32.lt_iff_toNat_lt.mp (fresh.resolve_left used id member)

/-- An unused counter, or one above all identities, supplies what there is room for. -/
theorem Fresh.supplies (fresh : body.Fresh) {count : Nat} (room : body.Room count) : body.Supplies count := by
  have spare : body.Spare := fun last => absurd (room.ids _ last) (Nat.not_lt.mpr (Nat.le_add_right _ count))
  refine ⟨fresh.above spare, ?_⟩
  rw [nextFresh]
  split
  · have counter := room.counter
    have within : body.freshId.toNat ≤ UInt32.size - 1 - count :=
      (freshId_le_iff spare).mpr fun id member => by have := room.ids id member; omega
    omega
  · exact room.counter

/-- Counting on from what is handed out first, while there is room. -/
theorem upcoming_eq {position : Nat} (room : body.nextFresh.toNat + position < UInt32.size) :
    body.upcoming position = counting body.nextFresh position := by
  induction position with
  | zero => exact (counting_zero _).symm
  | succ position ih =>
      have next : (body.handOut (position + 1)).nextId = counting body.nextFresh (position + 1) := by
        rw [← counting_counting, ← ih (Nat.lt_of_succ_lt room)]
        rfl
      rw [upcoming, nextFresh, next, if_neg (counting_ne_zero room (Nat.succ_pos _))]

theorem nextId_handOut {count : Nat} (room : body.nextFresh.toNat + count < UInt32.size) (positive : 0 < count) :
    (body.handOut count).nextId = counting body.nextFresh count := by
  obtain ⟨position, rfl⟩ := Nat.exists_eq_add_one_of_ne_zero (Nat.ne_of_gt positive)
  rw [← counting_counting, ← upcoming_eq (Nat.lt_of_succ_lt room)]
  rfl

/-- When there is no room, the last identity is handed out. -/
theorem last_handed {count : Nat} (short : ¬ body.nextFresh.toNat + count < UInt32.size) :
    InstrId.last ∈ (List.range count).map body.upcoming := by
  have bounded := body.nextFresh.toNat_lt_size
  have whole : body.nextFresh.toNat + (UInt32.size - 1 - body.nextFresh.toNat) = UInt32.size - 1 := by omega
  have room : body.nextFresh.toNat + (UInt32.size - 1 - body.nextFresh.toNat) < UInt32.size := by omega
  refine List.mem_map.mpr ⟨UInt32.size - 1 - body.nextFresh.toNat, List.mem_range.mpr (by omega), UInt32.toNat_inj.mp ?_⟩
  rw [upcoming_eq room, toNat_counting room, whole]
  rfl

namespace Supplies

variable {count used : Nat} (supplies : body.Supplies count)

include supplies

theorem mono (less : used ≤ count) : body.Supplies used :=
  ⟨supplies.above, Nat.lt_of_le_of_lt (Nat.add_le_add_left less _) supplies.room⟩

end Supplies

theorem nextFresh_congr {same : Body} (ids : same.ids = body.ids) (counter : same.nextId = body.nextId) :
    same.nextFresh = body.nextFresh := by
  rw [nextFresh, nextFresh, freshId_eq, freshId_eq, ids, counter]

theorem Fresh.congr {same : Body} (fresh : body.Fresh) (ids : same.ids = body.ids) (counter : same.nextId = body.nextId) :
    same.Fresh := by
  rwa [Fresh, counter, ids]

/-- A counter that is above all identities stays so. -/
theorem fresh_of_above (above : ∀ id ∈ body.ids, id.toNat < body.nextFresh.toNat) : body.Fresh := by
  by_cases unused : body.nextId = 0
  · exact .inl unused
  · refine .inr fun id member => UInt32.lt_iff_toNat_lt.mpr ?_
    have less := above id member
    rwa [nextFresh, if_neg unused] at less

theorem Spare.congr {same : Body} (spare : body.Spare) (ids : same.ids = body.ids) : same.Spare := by
  rwa [Spare, ids]

end Body

end CilWeave
