import CilWeave.Attribute.Decoding
import CilWeave.Proofs.Blob.Advancing

/-!
What reading attribute values can take. Every argument that is read has bytes of its own, so there are no
more of them than bytes, however the types and lengths in the data are chosen; and every array uses up some
of the room that arguments have for nesting.
-/

namespace CilWeave

namespace Argument

mutual

/-- How many arguments there are, with the elements of arrays and the values of enums. -/
def nodes : Argument → Nat
  | array (some elements) => nodesAll elements + 1
  | enum _ value => value.nodes + 1
  | _ => 1

def nodesAll : List Argument → Nat
  | [] => 0
  | argument :: rest => argument.nodes + nodesAll rest

end

mutual

/-- How many arrays there are within each other, absent and empty ones included. -/
def arrayDepth : Argument → Nat
  | array none => 1
  | array (some elements) => deepest elements + 1
  | enum _ value => value.arrayDepth
  | _ => 0

def deepest : List Argument → Nat
  | [] => 0
  | argument :: rest => max argument.arrayDepth (deepest rest)

end

/-- Read from these bytes, with so much room for nesting. -/
structure Within (room : Nat) (bytes : List UInt8) (argument : Argument) : Prop where
  nodes_le : argument.nodes ≤ bytes.length
  depth_le : argument.arrayDepth ≤ room

structure WithinAll (room : Nat) (bytes : List UInt8) (arguments : List Argument) : Prop where
  nodes_le : nodesAll arguments ≤ bytes.length
  depth_le : deepest arguments ≤ room

variable {room : Nat} {bytes more : List UInt8} {argument : Argument} {arguments : List Argument}

/-- Bytes that say something else may come first, and there may be more room. -/
theorem Within.after (within : argument.Within room more) : argument.Within (room + 1) (bytes ++ more) := by
  obtain ⟨nodes, depth⟩ := within
  constructor
  · rw [List.length_append]
    omega
  · omega

theorem WithinAll.nil : WithinAll room bytes [] := ⟨Nat.zero_le _, Nat.zero_le _⟩

theorem WithinAll.cons (first : argument.Within room bytes) (others : WithinAll room more arguments) :
    WithinAll room (bytes ++ more) (argument :: arguments) := by
  obtain ⟨nodes, depth⟩ := first
  obtain ⟨nodesAll, deepest⟩ := others
  constructor
  · rw [Argument.nodesAll, List.length_append]
    omega
  · rw [Argument.deepest]
    omega

theorem WithinAll.array (all : WithinAll room more arguments) (some : bytes ≠ []) :
    (Argument.array (.some arguments)).Within (room + 1) (bytes ++ more) := by
  have pos := List.length_pos_iff.mpr some
  obtain ⟨nodesAll, deepest⟩ := all
  constructor
  · rw [nodes, List.length_append]
    omega
  · rw [arrayDepth]
    omega

theorem nodesAll_append (first others : List Argument) : nodesAll (first ++ others) = nodesAll first + nodesAll others := by
  induction first with
  | nil => simp [nodesAll]
  | cons argument rest ih =>
      simp only [List.cons_append, nodesAll, ih]
      omega

theorem deepest_append (first others : List Argument) : deepest (first ++ others) = max (deepest first) (deepest others) := by
  induction first with
  | nil => simp [deepest]
  | cons argument rest ih =>
      simp only [List.cons_append, deepest, ih]
      omega

end Argument

namespace AttributeReading

open Argument

theorem takes_enumValue (room : Nat) (name : String) : Takes (enumValue name) (Within room) := by
  refine (BlobItem.whole .int32 rfl).takes.map ?_
  rintro bytes value ⟨four, -⟩
  constructor
  · rw [four]
    exact (by decide : 2 ≤ 4)
  · exact Nat.zero_le room

/-- The bytes of a packed length or of text are never none at all. -/
theorem packed_ne_nil {bytes : List UInt8} {length : Nat} (packed : Packed bytes length) : bytes ≠ [] := by
  cases packed <;> nofun

theorem worded_ne_nil {bytes : List UInt8} {text : Option String} (worded : Worded bytes text) : bytes ≠ [] := by
  cases worded with
  | absent => nofun
  | present packed _ => simp [packed_ne_nil packed]

/-- The item cannot be spelled by no bytes at all. -/
def takesSome {α : Type} (item : BlobItem α) : Bool := item.fixed?.all fun (width, _) => decide (0 < width)

theorem takes_some {α : Type} (item : BlobItem α) (some : takesSome item = true) :
    Takes item.read fun bytes _ => bytes ≠ [] := by
  refine item.takes.weaken fun bytes value spells => ?_
  cases item with
  | packedLength => exact packed_ne_nil spells
  | text => exact worded_ne_nil spells
  | _ =>
      obtain ⟨width, convert, fixed, length, -⟩ := spells
      rw [takesSome, fixed] at some
      rintro rfl
      simp [← length] at some

/-- A value that is neither an array nor an enum. -/
theorem takes_plain {α : Type} {change : α → Argument} (room : Nat) (item : BlobItem α) (some : takesSome item = true)
    (plain : ∀ value, (change value).nodes = 1 ∧ (change value).arrayDepth = 0) :
    Takes (do return change (← item.read)) (Within room) := by
  refine (takes_some item some).map fun bytes value some => ?_
  obtain ⟨nodes, depth⟩ := plain value
  exact ⟨nodes ▸ List.length_pos_iff.mpr some, depth ▸ Nat.zero_le room⟩

theorem takes_simple (room : Nat) (tag : UInt8) : Takes (simple tag) (Within room) := by
  unfold simple
  split
  · exact takes_plain room .uint8 rfl fun _ => ⟨rfl, rfl⟩
  · exact takes_plain room .uint16 rfl fun _ => ⟨rfl, rfl⟩
  · exact takes_plain room .int8 rfl fun _ => ⟨rfl, rfl⟩
  · exact takes_plain room .uint8 rfl fun _ => ⟨rfl, rfl⟩
  · exact takes_plain room .int16 rfl fun _ => ⟨rfl, rfl⟩
  · exact takes_plain room .uint16 rfl fun _ => ⟨rfl, rfl⟩
  · exact takes_plain room .int32 rfl fun _ => ⟨rfl, rfl⟩
  · exact takes_plain room .uint32 rfl fun _ => ⟨rfl, rfl⟩
  · exact takes_plain room .int64 rfl fun _ => ⟨rfl, rfl⟩
  · exact takes_plain room .uint64 rfl fun _ => ⟨rfl, rfl⟩
  · exact takes_plain room .single rfl fun _ => ⟨rfl, rfl⟩
  · exact takes_plain room .double rfl fun _ => ⟨rfl, rfl⟩
  · exact takes_plain room .text rfl fun _ => ⟨rfl, rfl⟩
  · exact takes_plain room .text rfl fun _ => ⟨rfl, rfl⟩
  · exact .fail _

theorem takes_times {α : Type} {room : Nat} {read : Read α} (argument : α → Argument)
    (each : Takes read fun bytes value => (argument value).Within room bytes) (count : Nat) :
    Takes (Read.times read count) fun bytes values => WithinAll room bytes (values.map argument) := by
  induction count with
  | zero => exact .pure .nil
  | succ count ih =>
      refine each.bind fun bytes first within => ih.bind fun more others all => .pure ?_
      simpa using WithinAll.cons within all

theorem takes_arrayLength? : Takes arrayLength? fun bytes _ => bytes ≠ [] := by
  refine (takes_some .int32 rfl).bind fun bytes length some => ?_
  have passed : bytes ++ [] ≠ [] := by simpa using some
  refine .ite (fun _ => .pure passed) fun _ => .ite (fun _ => .fail _) fun _ => ?_
  exact .look fun cursor => .ite (fun _ => .fail _) fun _ => .pure passed

theorem takes_array {room : Nat} {element : Read Argument} (each : Takes element (Within room)) :
    Takes (array element) (Within (room + 1)) := by
  refine takes_arrayLength?.bind fun bytes length some => ?_
  cases length with
  | none =>
      refine .pure ⟨?_, Nat.succ_le_succ (Nat.zero_le room)⟩
      rw [List.append_nil]
      exact List.length_pos_iff.mpr some
  | some length =>
      refine (takes_times id each length).bind fun more elements all => .pure ?_
      simpa using all.array some

theorem takes_carriedType (room : Nat) : Takes (carriedType room) fun _ _ => True := by
  induction room with
  | zero => exact .fail _
  | succ room ih =>
      refine takes_uint8.bind fun _ tag _ => .ite (fun _ => ?_) fun _ => .ite (fun _ => ?_) fun _ =>
        .ite (fun _ => .pure trivial) fun _ => .fail _
      · refine takes_text?.bind fun _ name _ => ?_
        cases name with
        | none => exact .fail _
        | some name => exact .pure trivial
      · exact ih.bind fun _ _ _ => .pure trivial

theorem takes_carried (room : Nat) (type : CarriedType) : Takes (carried room type) (Within room) := by
  induction room generalizing type with
  | zero => exact .fail _
  | succ room ih =>
      cases type with
      | simple tag =>
          refine .ite (fun _ => ?_) fun _ => takes_simple (room + 1) tag
          exact (takes_carriedType room).bind fun bytes inner _ => (ih inner).weaken fun more value within => within.after
      | enum name => exact takes_enumValue (room + 1) name
      | array element => exact takes_array (ih element)

theorem takes_boxed (room : Nat) : Takes (boxed room) (Within (room + 1)) :=
  (takes_carriedType room).bind fun _ type _ => (takes_carried room type).weaken fun _ _ within => within.after

theorem takes_fixed (room : Nat) (param : TypeSig) : Takes (fixed room param) (Within room) := by
  induction room generalizing param with
  | zero => exact .fail _
  | succ room ih =>
      cases param with
      | array element => exact takes_array (ih element)
      | valueType reference => exact takes_enumValue (room + 1) reference.fullName
      | _ =>
          refine .ite (fun _ => takes_boxed room) fun _ => ?_
          split
          · exact takes_simple (room + 1) _
          · exact .fail _

theorem takes_fixedAll (params : List TypeSig) : Takes (fixedAll params) (WithinAll maxNesting) := by
  induction params with
  | nil => exact .pure .nil
  | cons param params ih =>
      refine .look fun _ => .ite (fun _ => ?_) fun _ => .fail _
      refine (takes_fixed maxNesting param).bind fun bytes first within => ih.bind fun more others all => .pure ?_
      simpa using WithinAll.cons within all

theorem takes_named : Takes named fun bytes argument => argument.value.Within maxNesting bytes := by
  refine takes_uint8.bind fun lead kind _ => .ite (fun _ => .fail _) fun _ => ?_
  refine (takes_carriedType maxNesting).bind fun tags type _ => takes_text?.bind fun spelled name _ => ?_
  cases name with
  | none => exact .fail _
  | some name =>
      refine (takes_carried maxNesting type).bind fun bytes value within => .pure ⟨?_, within.depth_le⟩
      have nodes := within.nodes_le
      simp only [List.length_append]
      omega

theorem takes_namedAll : Takes namedAll fun bytes arguments => WithinAll maxNesting bytes (arguments.map (·.value)) := by
  refine .look fun _ => .ite (fun _ => .pure .nil) fun _ => ?_
  refine (BlobItem.takes .uint16).bind fun lead count _ =>
    (takes_times (·.value) takes_named count.toNat).weaken fun bytes arguments all => ?_
  exact ⟨by rw [List.length_append]; exact Nat.le_add_left_of_le all.nodes_le, all.depth_le⟩

end AttributeReading

namespace AttributeValue

open Argument AttributeReading

/-- All arguments, by position and by name. -/
def arguments (value : AttributeValue) : List Argument := value.fixed ++ value.named.map (·.value)

theorem takes_value (params : List TypeSig) :
    Takes (value params) fun bytes value => WithinAll maxNesting bytes value.arguments := by
  refine (BlobItem.takes .uint16).bind fun lead prolog _ => .ite (fun _ => .fail _) fun _ => ?_
  refine (takes_fixedAll params).bind fun bytes fixed within => takes_namedAll.bind fun more named all => .pure ⟨?_, ?_⟩
  · have first := within.nodes_le
    have others := all.nodes_le
    simp only [arguments, nodesAll_append, List.length_append, List.length_nil]
    omega
  · rw [arguments, deepest_append]
    exact Nat.max_le.mpr ⟨within.depth_le, all.depth_le⟩

/-- Whatever the data and the parameters are, reading stays within the data and comes to an end: to a fault, or to a value
that has no more arguments than the data has bytes, with no more arrays in each other than arguments may nest. -/
theorem decode_bounded (data : List UInt8) (params : List TypeSig) :
    ((AttributeReading.value params).run.run (.start data)).2.Over data ∧
      ((∃ fault, decode data params = .error fault) ∨
        ∃ value, decode data params = .ok value ∧ nodesAll value.arguments ≤ data.length ∧
          deepest value.arguments ≤ maxNesting) := by
  refine ⟨(takes_value params).stays (Cursor.over_start data), ?_⟩
  rw [decode]
  split
  · exact .inr ⟨⟨[], []⟩, rfl, Nat.zero_le _, Nat.zero_le _⟩
  · obtain ⟨bytes, more, split, -, gives⟩ := takes_value params 0 data
    cases ran : ((AttributeReading.value params).run.run (.start data)).1 with
    | error fault => exact .inl ⟨fault, rfl⟩
    | ok value =>
        have within := gives value ran
        refine .inr ⟨value, rfl, ?_, within.depth_le⟩
        rw [split, List.length_append]
        exact Nat.le_add_right_of_le within.nodes_le

end AttributeValue

end CilWeave
