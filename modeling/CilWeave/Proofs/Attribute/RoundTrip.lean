import CilWeave.Proofs.Attribute.Shape
import Mathlib.Data.List.Forall2

/-!
Reading undoes writing: an attribute value that suits its constructor is read back from its binary form.
-/

namespace CilWeave

open Stateful

namespace AttributeReading

open AttributeWriting Argument

theorem charOfUnit_unitOfChar {char : Char} (bounded : char.toNat ≤ 0xFFFF) :
    charOfUnit (unitOfChar char).toUInt16 = char := by
  have value : ((unitOfChar char).toUInt16).toNat = char.toNat := by
    rw [unitOfChar, if_pos bounded, Nat.toUInt16, UInt16.toNat_ofNat']
    omega
  have apart : ¬(0xD800 ≤ (unitOfChar char).toUInt16 ∧ (unitOfChar char).toUInt16 ≤ 0xDFFF) := by
    rw [UInt16.le_iff_toNat_le, UInt16.le_iff_toNat_le, value]
    rintro ⟨above, below⟩
    have above : 0xD800 ≤ char.toNat := above
    have below : char.toNat ≤ 0xDFFF := below
    -- No character is a surrogate, so none is taken for half of one.
    rcases char.valid with before | ⟨after, -⟩
    · exact absurd before (Nat.not_lt.mpr above)
    · exact absurd after (Nat.not_lt.mpr below)
  rw [charOfUnit, if_neg apart, value]
  exact Char.ofNat_toNat char

theorem reads_char {char : Char} (bounded : char.toNat ≤ 0xFFFF) :
    Reads (simple (Argument.char char).tag) (payload (.char char)) (.char char) := by
  have unit : unitOfChar char < 256 ^ 2 := by
    rw [unitOfChar, if_pos bounded]
    omega
  have number : Reads Read.uint16 (littleEndianBytes 2 (unitOfChar char)) (unitOfChar char).toUInt16 := .numberAs unit rfl
  have read : Reads (do return Argument.char (charOfUnit (← Read.uint16)))
    _ (.char (charOfUnit (unitOfChar char).toUInt16)) :=
    number.bind_pure
  rwa [charOfUnit_unitOfChar bounded] at read

/-- A value with a tag of its own is read back by that tag. -/
theorem reads_simple {argument : Argument} {kind : Primitive} (own : argument.primitive? = some kind) (sized : argument.Sized) :
    Reads (simple argument.tag) (payload argument) argument := by
  cases argument with
  | bool value =>
      have read : Reads (do return Argument.bool ((← Read.uint8) != 0)) [value.toUInt8] (.bool (value.toUInt8 != 0)) :=
        (Reads.uint8 value.toUInt8).bind_pure
      cases value <;> exact read
  | char value =>
      cases sized with
      | char bounded => exact reads_char bounded
      | number same other _ => exact absurd (Option.some.inj same).symm other
  | int8 value => exact (Reads.int8 value).bind_pure
  | uint8 value => exact (Reads.uint8 value).bind_pure
  | int16 value => exact (Reads.int16 value).bind_pure
  | uint16 value => exact (Reads.uint16 value).bind_pure
  | int32 value => exact (Reads.int32 value).bind_pure
  | uint32 value => exact (Reads.uint32 value).bind_pure
  | int64 value => exact (Reads.int64 value).bind_pure
  | uint64 value => exact (Reads.uint64 value).bind_pure
  | single value => exact (Reads.single value).bind_pure
  | double value => exact (Reads.double value).bind_pure
  | string text =>
      cases sized with
      | string short => exact (reads_text? short).bind_pure
      | number same _ other => exact absurd (Option.some.inj same).symm other
  | type name => cases own
  | array elements => cases own
  | enum name value => cases own

theorem reads_enumValue (name : String) (value : Int32) :
    Reads (enumValue name) (payload (.enum name (.int32 value))) (.enum name (.int32 value)) :=
  (Reads.int32 value).bind_pure

theorem reads_times {α β : Type} {read : Read β} {bytes : α → List UInt8} {held : α → β} {items : List α}
    (each : ∀ item ∈ items, Reads read (bytes item) (held item)) :
    Reads (Read.times read items.length) (items.flatMap bytes) (items.map held) := by
  induction items with
  | nil => exact .pure []
  | cons item rest ih =>
      have later := ih fun other member => each other (List.mem_cons_of_mem _ member)
      rw [List.flatMap_cons]
      exact (each item List.mem_cons_self).bind later.bind_pure

theorem toInt_length {length : Nat} (bounded : length ≤ maxLength) : (length.toUInt32.toInt32).toInt = length := by
  have bounded : length ≤ 0x7FFFFFFF := bounded
  have same : length.toUInt32.toNat = length := by
    rw [Nat.toUInt32, UInt32.toNat_ofNat']
    omega
  rw [Int32.toInt, UInt32.toBitVec_toInt32, BitVec.toInt_eq_toNat_of_lt] <;> rw [UInt32.toNat_toBitVec, same]
  omega

/-- An array of no more elements than there are bytes is read back. -/
theorem reads_array {read : Read Argument} {elements : List Argument} {bytes : List UInt8}
    (bounded : elements.length ≤ maxLength) (enough : elements.length ≤ bytes.length)
    (content : Reads (Read.times read elements.length) bytes elements) :
    Reads (array read) (littleEndianBytes 4 elements.length ++ bytes) (.array (some elements)) := by
  have length : Reads Read.int32 (littleEndianBytes 4 elements.length) elements.length.toUInt32.toInt32 :=
    .numberAs (Nat.lt_of_le_of_lt bounded (by decide)) rfl
  intro position rest
  -- A length greater than the number of bytes that remain is refused.
  have within : ¬elements.length > (⟨position + (littleEndianBytes 4 elements.length).length,
    bytes ++ rest⟩ : Cursor).remaining := by
    rw [Cursor.remaining, List.length_append]
    omega
  have first : arrayLength?.run.run ⟨position, littleEndianBytes 4 elements.length ++ (bytes ++ rest)⟩ =
      (.ok (some elements.length), ⟨position + (littleEndianBytes 4 elements.length).length, bytes ++ rest⟩) := by
    rw [arrayLength?, run_bind, length]
    dsimp only
    rw [toInt_length bounded, if_neg (by omega), if_neg (by omega), run_get_bind, Int.toNat_natCast, if_neg within]
    rfl
  have all : Reads (do return Argument.array (some (← Read.times read elements.length))) bytes (.array (some elements)) :=
    content.bind_pure
  rw [array, run_bind, List.append_assoc, first]
  dsimp only
  rw [all, List.length_append, Nat.add_assoc]

theorem reads_absent (read : Read Argument) : Reads (array read) absentArray (.array none) :=
  fun _ _ => rfl

theorem paramTag?_of_primitive {argument : Argument} {kind : Primitive} (own : argument.primitive? = some kind) :
    paramTag? (.primitive kind) = some argument.tag := by
  cases argument <;> cases own <;> rfl

theorem tag_of_primitive {argument : Argument} {kind : Primitive} (own : argument.primitive? = some kind) :
    TypeTag.bool ≤ argument.tag ∧ argument.tag ≤ TypeTag.text := by
  have known : ∀ tag ∈ paramTag? (.primitive kind), TypeTag.bool ≤ tag ∧ tag ≤ TypeTag.text := by
    cases kind <;> rintro _ ⟨⟩ <;> decide
  exact known _ (paramTag?_of_primitive own)

/-- A type as it is read: tags stand for types, and names are not too long. -/
inductive Known : CarriedType → Prop
  | simple {tag : UInt8} : (TypeTag.bool ≤ tag ∧ tag ≤ TypeTag.text) ∨ tag = TypeTag.type ∨ tag = TypeTag.boxed →
      Known (.simple tag)
  | enum {name : String} : Short name → Known (.enum name)
  | array {element : CarriedType} : Known element → Known (.array element)

theorem reads_carriedType {type : CarriedType} (known : Known type) {room : Nat} (deep : type.depth ≤ room) :
    Reads (carriedType room) type.bytes type := by
  induction known generalizing room with
  | @simple tag known =>
      obtain ⟨room, rfl⟩ := Nat.exists_eq_succ_of_ne_zero (Nat.ne_of_gt deep)
      have first : tag ≠ TypeTag.enum := by
        rintro rfl
        revert known
        decide
      have second : tag ≠ TypeTag.array := by
        rintro rfl
        revert known
        decide
      refine Reads.bind_end (.uint8 tag) ?_
      rw [if_neg first, if_neg second, if_pos known]
      exact .pure _
  | @enum name short =>
      obtain ⟨room, rfl⟩ := Nat.exists_eq_succ_of_ne_zero (Nat.ne_of_gt deep)
      have read : Reads Read.text? (textBytes (some name)) (some name) := reads_text? (by rintro _ ⟨⟩; exact short)
      refine Reads.bind_byte (.uint8 TypeTag.enum) ?_
      rw [if_pos rfl]
      exact read.bind_end (.pure _)
  | @array element _ ih =>
      obtain ⟨room, rfl⟩ := Nat.exists_eq_succ_of_ne_zero (Nat.ne_of_gt (Nat.lt_of_lt_of_le (CarriedType.depth_pos _) deep))
      refine Reads.bind_byte (.uint8 TypeTag.array) ?_
      rw [if_neg (by decide), if_pos rfl]
      exact (ih (Nat.le_of_succ_le_succ deep)).bind_pure

theorem known_carriedType {argument : Argument} (sized : argument.Sized) : Known argument.carriedType := by
  induction sized with
  | @char value _ =>
      have own : (char value).primitive? = some .char := rfl
      exact .simple (.inl (tag_of_primitive own))
  | @string text _ =>
      have own : (string text).primitive? = some .string := rfl
      exact .simple (.inl (tag_of_primitive own))
  | type _ => exact .simple (.inr (.inl rfl))
  | enum short => exact .enum short
  | absent => exact .array (.simple (.inr (.inr rfl)))
  | @array elements _ _ ih =>
      refine .array ?_
      cases elements with
      | nil => exact .simple (.inr (.inr rfl))
      | cons first rest => exact ih first List.mem_cons_self
  | number own _ _ =>
      rw [carriedType_of_primitive own]
      exact .simple (.inl (tag_of_primitive own))

/-- Types that are written alike are the same. -/
theorem Known.injective {one other : CarriedType} (known : Known one) (same : one.bytes = other.bytes) (also : Known other) :
    one = other := by
  have first := reads_carriedType known (Nat.le_max_left one.depth other.depth) 0 []
  rw [same, reads_carriedType also (Nat.le_max_right one.depth other.depth) 0 []] at first
  exact (Except.ok.inj (congrArg Prod.fst first)).symm

end AttributeReading

theorem Argument.SelfDescribing.even {argument : Argument} (describing : argument.SelfDescribing) : argument.Even := by
  induction describing with
  | primitive own _ =>
      rw [Argument.Even, Argument.carriedType_of_primitive own]
      exact .primitive own
  | type _ => exact .type
  | enum _ => exact .enum
  | absent => exact .absent
  | @array elements _ each alike ih =>
      refine .array fun argument member => ?_
      cases elements with
      | nil => cases member
      | cons first rest =>
          -- `alike` compares bytes; as types that are known are read back, they are the same types.
          have same := alike argument member first List.mem_cons_self
          rw [Argument.carriedType_bytes, Argument.carriedType_bytes] at same
          have known (element : Argument) (within : element ∈ first :: rest) : AttributeReading.Known element.carriedType :=
            AttributeReading.known_carriedType (each element within).sized
          show Argument.ReadAs first.carriedType argument
          rw [← (known argument member).injective same (known first List.mem_cons_self)]
          exact ih argument member

namespace AttributeReading

open AttributeWriting Argument

theorem payloadAll_eq (elements : List Argument) : payloadAll elements = elements.flatMap payload := by
  induction elements with
  | nil => rfl
  | cons element rest ih => rw [payloadAll, ih, List.flatMap_cons]

theorem payload_length {type : CarriedType} {argument : Argument} (reads : argument.ReadAs type) :
    0 < (payload argument).length := by
  have text (content : Option String) : 0 < (textBytes content).length := by
    cases content with
    | none => decide
    | some content =>
        rw [textBytes, List.length_append]
        exact Nat.add_pos_left (packedLengthBytes_length _) _
  cases reads with
  | primitive own =>
      cases argument with
      | type => cases own
      | array => cases own
      | enum => cases own
      | string content => exact text content
      | _ => first | exact Nat.one_pos | rw [payload, littleEndianBytes_length]; decide
  | type => exact text _
  | enum =>
      rw [payload, payload, littleEndianBytes_length]
      decide
  | absent => decide
  | array =>
      rw [payload, List.length_append, littleEndianBytes_length]
      omega

theorem flatMap_length_le {α : Type} {bytes : α → List UInt8} {items : List α}
    (each : ∀ item ∈ items, 0 < (bytes item).length) :
    items.length ≤ (items.flatMap bytes).length := by
  induction items with
  | nil => exact Nat.zero_le _
  | cons item rest ih =>
      have first := each item List.mem_cons_self
      have later := ih fun other member => each other (List.mem_cons_of_mem _ member)
      rw [List.flatMap_cons, List.length_append, List.length_cons]
      omega

theorem reads_carried {type : CarriedType} {argument : Argument} (reads : argument.ReadAs type) (sized : argument.Sized)
    {room : Nat} (deep : argument.nesting < room) : Reads (carried room type) (payload argument) argument := by
  obtain ⟨room, rfl⟩ := Nat.exists_eq_succ_of_ne_zero (Nat.ne_of_gt (Nat.zero_lt_of_lt deep))
  -- Each array uses up one level of the room, and its elements are less deep by one.
  induction reads generalizing room with
  | @primitive argument kind own =>
      have other : argument.tag ≠ TypeTag.boxed := by
        intro same
        have within := tag_of_primitive own
        rw [same] at within
        revert within
        decide
      rw [carried, if_neg other]
      exact reads_simple own sized
  | @type name =>
      cases sized with
      | type short => exact (reads_text? short).bind_pure
      | number own => cases own
  | enum => exact reads_enumValue _ _
  | absent => exact reads_absent _
  | @array element elements each ih =>
      cases sized with
      | number own => cases own
      | array bounded all =>
          have items (item : Argument) (member : item ∈ elements) : Reads (carried room element) (payload item) item := by
            have shallow : item.nesting < room := Nat.lt_of_lt_of_le (nesting_of_mem member) (Nat.le_of_lt_succ deep)
            obtain ⟨room, rfl⟩ := Nat.exists_eq_succ_of_ne_zero (Nat.ne_of_gt (Nat.zero_lt_of_lt shallow))
            exact ih item member (all item member) room shallow
          have content : Reads (Read.times (carried room element) elements.length) (elements.flatMap payload)
            (elements.map id) :=
            reads_times items
          rw [List.map_id] at content
          rw [payload, payloadAll_eq, Nat.min_eq_left bounded]
          exact reads_array bounded (flatMap_length_le fun item member => payload_length (each item member)) content

/-- What is written for the parameter is read back. -/
def RoundTrips (room : Nat) (param : TypeSig) (argument : Argument) : Prop :=
  ∃ bytes, AttributeWriting.fixed param argument = .ok bytes ∧ 0 < bytes.length ∧ Reads (fixed room param) bytes argument

theorem roundTrips_array {room : Nat} {param : TypeSig} {elements : List Argument} (bounded : elements.length ≤ maxLength)
    (each : ∀ argument ∈ elements, RoundTrips room param argument) :
    RoundTrips (room + 1) (.array param) (.array (some elements)) := by
  have all : ∃ bytes, AttributeWriting.fixedAll param elements = .ok bytes ∧ elements.length ≤ bytes.length ∧
      Reads (Read.times (fixed room param) elements.length) bytes elements := by
    clear bounded
    induction elements with
    | nil => exact ⟨[], rfl, Nat.le_refl _, .pure []⟩
    | cons first rest ih =>
        obtain ⟨bytes, written, filled, read⟩ := each first List.mem_cons_self
        obtain ⟨more, later, enough, others⟩ := ih fun argument member => each argument (List.mem_cons_of_mem _ member)
        refine ⟨bytes ++ more, ?_, ?_, read.bind others.bind_pure⟩
        · rw [AttributeWriting.fixedAll, written, later]
          rfl
        · rw [List.length_append, List.length_cons]
          omega
  obtain ⟨bytes, written, enough, read⟩ := all
  refine ⟨littleEndianBytes 4 elements.length ++ bytes, ?_, ?_, reads_array bounded enough read⟩
  · rw [AttributeWriting.fixed, if_pos bounded, written]
    rfl
  · rw [List.length_append, littleEndianBytes_length]
    omega

theorem roundTrips_primitive {room : Nat} {kind : Primitive} {argument : Argument} (own : argument.primitive? = some kind)
    (sized : argument.Sized) : RoundTrips (room + 1) (.primitive kind) argument := by
  refine ⟨payload argument, ?_, payload_length (.primitive own), ?_⟩
  · cases argument <;> cases own <;> rfl
  · have other : TypeSig.primitive kind ≠ .primitive .object := by
      rintro ⟨⟩
      cases argument <;> cases own
    have read : Reads (simple argument.tag) (payload argument) argument := reads_simple own sized
    rw [fixed, if_neg other, paramTag?_of_primitive own]
    · exact read
    · rintro _ ⟨⟩
    · rintro _ ⟨⟩

theorem roundTrips_type {room : Nat} {reference : TypeRef} {name : Option String}
    (named : paramTag? (.classType reference) = some TypeTag.type) (short : ∀ text ∈ name, Short text) :
    RoundTrips (room + 1) (.classType reference) (.type name) := by
  refine ⟨textBytes name, rfl, payload_length .type, ?_⟩
  rw [fixed, if_neg (by rintro ⟨⟩), named]
  · exact (reads_text? short).bind_pure
  · rintro _ ⟨⟩
  · rintro _ ⟨⟩

theorem roundTrips_boxed {room : Nat} {argument : Argument} (even : argument.Even) (sized : argument.Sized)
    (shallow : argument.nesting < room) (plain : argument.carriedType.depth ≤ room) :
    RoundTrips (room + 1) (.primitive .object) argument := by
  have read : Reads (boxed room) (argument.carriedType.bytes ++ payload argument) argument :=
    (reads_carriedType (known_carriedType sized) plain).bind (reads_carried even sized shallow)
  refine ⟨argument.carriedType.bytes ++ payload argument, ?_, ?_, ?_⟩
  · rw [AttributeWriting.fixed, carriedType_bytes]
  · rw [List.length_append]
    exact Nat.add_pos_right _ (payload_length even)
  · rw [fixed, if_pos rfl]
    · exact read
    · rintro _ ⟨⟩
    · rintro _ ⟨⟩

theorem roundTrips {param : TypeSig} {argument : Argument}
    (suits : argument.Suits (fun argument => argument.Even ∧ argument.Sized) param) {room : Nat}
    (enough : argument.room param ≤ room) : RoundTrips room param argument := by
  obtain ⟨room, rfl⟩ := Nat.exists_eq_succ_of_ne_zero (Nat.ne_of_gt (Nat.lt_of_lt_of_le (room_pos _ _) enough))
  induction suits generalizing room with
  | primitive own sized => exact roundTrips_primitive own sized
  | type named short => exact roundTrips_type (if_pos named) short
  | enum => exact ⟨_, rfl, payload_length .enum, reads_enumValue _ _⟩
  | absent => exact ⟨absentArray, rfl, by decide, reads_absent _⟩
  | array bounded each ih =>
      refine roundTrips_array bounded fun argument member => ?_
      have within := Nat.le_of_succ_le_succ (Nat.le_trans (room_of_mem member) enough)
      obtain ⟨room, rfl⟩ := Nat.exists_eq_succ_of_ne_zero (Nat.ne_of_gt (Nat.lt_of_lt_of_le (room_pos _ _) within))
      exact ih argument member room within
  | boxed holds =>
      obtain ⟨shallow, plain⟩ := Nat.max_le.mp (Nat.le_of_succ_le_succ enough)
      exact roundTrips_boxed holds.1 holds.2 shallow plain

theorem reads_fixedAll {params : List TypeSig} {arguments : List Argument}
    (each : List.Forall₂ (RoundTrips maxNesting) params arguments) :
    ∃ bytes, fixedPairs (params.zip arguments) = .ok bytes ∧ Reads (fixedAll params) bytes arguments := by
  induction each with
  | nil => exact ⟨[], rfl, .pure []⟩
  | cons one _ ih =>
      obtain ⟨bytes, written, filled, read⟩ := one
      obtain ⟨more, later, others⟩ := ih
      refine ⟨bytes ++ more, ?_, fun position rest => ?_⟩
      · rw [List.zip_cons_cons, fixedPairs, written, later]
        rfl
      · -- The reader takes an end of the bytes before an argument for a fault, so no argument may be empty.
        have present : (⟨position, bytes ++ more ++ rest⟩ : Cursor).hasMore = true := by
          cases bytes with
          | nil => cases filled
          | cons byte others => rfl
        rw [fixedAll, run_get_bind, if_pos present]
        exact (read.bind others.bind_pure) position rest

/-- A named argument with the tag that its value is written with. -/
def retagged (argument : NamedArgument) : NamedArgument := { argument with tag := argument.value.tag }

/-- What is needed of a named argument to read it back. -/
structure Recoverable (argument : NamedArgument) : Prop where
  short : Short argument.name
  even : argument.value.Even
  sized : argument.value.Sized
  shallow : argument.value.nesting < maxNesting
  plain : argument.value.carriedType.depth ≤ maxNesting

theorem reads_named {argument : NamedArgument} (recoverable : Recoverable argument) :
    Reads named (AttributeWriting.named argument) (retagged argument) := by
  obtain ⟨short, even, sized, shallow, plain⟩ := recoverable
  have type := reads_carriedType (known_carriedType sized) plain
  have name : Reads Read.text? (textBytes (some argument.name)) (some argument.name) :=
    reads_text? (by rintro _ ⟨⟩; exact short)
  have value := reads_carried even sized shallow
  rw [AttributeWriting.named, carriedType_bytes, List.cons_append, List.cons_append, List.append_assoc,
    retagged, ← carriedType_leadingTag]
  cases argument.isField
  · refine Reads.bind_byte (.uint8 TypeTag.property) ?_
    rw [if_neg (by decide)]
    exact type.bind (name.bind value.bind_pure)
  · refine Reads.bind_byte (.uint8 TypeTag.field) ?_
    rw [if_neg (by decide)]
    exact type.bind (name.bind value.bind_pure)

theorem reads_namedAll {arguments : List NamedArgument} (count : arguments.length < UInt16.size)
    (each : ∀ argument ∈ arguments, Recoverable argument) :
    Reads namedAll (littleEndianBytes 2 arguments.length ++ arguments.flatMap AttributeWriting.named)
      (arguments.map retagged) := by
  have length : (arguments.length.toUInt16).toNat = arguments.length := Nat.mod_eq_of_lt count
  have number : Reads Read.uint16 (littleEndianBytes 2 arguments.length) arguments.length.toUInt16 := .numberAs count rfl
  have all : Reads (Read.times named arguments.length) (arguments.flatMap AttributeWriting.named) (arguments.map retagged) :=
    reads_times fun argument member => reads_named (each argument member)
  intro position rest
  have enough : ¬(⟨position, littleEndianBytes 2 arguments.length ++ arguments.flatMap AttributeWriting.named ++
    rest⟩ : Cursor).remaining < 2 := by
    rw [Cursor.remaining, List.length_append, List.length_append, littleEndianBytes_length]
    omega
  rw [namedAll, run_get_bind, if_neg enough]
  exact (number.bind (length.symm ▸ all)) position rest

end AttributeReading

namespace AttributeValue

open AttributeReading

/-- What is needed of a value to read it back. -/
structure Recoverable (value : AttributeValue) (params : List TypeSig) : Prop where
  fixed : List.Forall₂ (RoundTrips maxNesting) params value.fixed
  named : ∀ argument ∈ value.named, AttributeReading.Recoverable argument
  count : value.named.length < UInt16.size

theorem encode_eq {value : AttributeValue} {params : List TypeSig} {bytes : List UInt8}
    (lengths : params.length = value.fixed.length) (written : AttributeWriting.fixedPairs (params.zip value.fixed) = .ok bytes)
    (count : value.named.length < UInt16.size) : value.encode params =
      .ok ([0x01, 0x00] ++ bytes ++ littleEndianBytes 2 value.named.length ++ value.named.flatMap AttributeWriting.named) := by
  rw [encode, if_neg (not_not.mpr lengths.symm), written]
  show (if value.named.length ≥ UInt16.size then _ else _) = _
  rw [if_neg (Nat.not_le.mpr count)]
  rfl

/-- Writing succeeds, and reading gives the value back, the tags of named arguments being those of their values. -/
theorem Recoverable.decode {value : AttributeValue} {params : List TypeSig} (recoverable : value.Recoverable params) :
    ∃ blob, value.encode params = .ok blob ∧
      AttributeValue.decode blob params = .ok ⟨value.fixed, value.named.map retagged⟩ := by
  obtain ⟨fixed, named, count⟩ := recoverable
  obtain ⟨bytes, written, first⟩ := reads_fixedAll fixed
  have second := reads_namedAll count named
  refine ⟨_, encode_eq fixed.length_eq written count, ?_⟩
  have prolog : Reads Read.uint16 [0x01, 0x00] 0x0001 := .uint16 0x0001
  have whole : Reads (AttributeReading.value params) ([0x01, 0x00] ++ (bytes ++
      (littleEndianBytes 2 value.named.length ++ value.named.flatMap AttributeWriting.named)))
      ⟨value.fixed, value.named.map retagged⟩ := by
    refine prolog.bind ?_
    rw [if_neg (by decide)]
    exact first.bind (second.bind_pure)
  have run := congrArg Prod.fst (whole 0 [])
  rw [List.append_nil, ← List.append_assoc, ← List.append_assoc] at run
  exact run

/-- The values that are made for a constructor: each argument is of its parameter's kind, and those that carry
their type describe themselves. -/
structure Representable (value : AttributeValue) (params : List TypeSig) : Prop where
  fixed : List.Forall₂ (fun param argument => argument.Suits Argument.SelfDescribing param ∧ argument.nesting ≤ 60)
    params value.fixed
  named : ∀ argument ∈ value.named,
    argument.tag = argument.value.tag ∧ Short argument.name ∧ argument.value.SelfDescribing ∧
      argument.value.nesting ≤ 60
  count : value.named.length ≤ 65535

theorem Representable.recoverable {value : AttributeValue} {params : List TypeSig}
    (representable : value.Representable params) :
    value.Recoverable params := by
  have fixed (param : TypeSig) (argument : Argument)
      (holds : argument.Suits Argument.SelfDescribing param ∧ argument.nesting ≤ 60) : RoundTrips
        maxNesting param argument := by
    have room := Nat.le_trans (Argument.room_le param argument) (Nat.add_le_add_right holds.2 3)
    exact roundTrips (holds.1.mono fun _ describing => ⟨describing.even, describing.sized⟩) (Nat.le_trans room (by decide))
  refine ⟨representable.fixed.imp fixed, fun argument member => ?_, Nat.lt_succ_of_le representable.count⟩
  obtain ⟨-, short, describing, shallow⟩ := representable.named argument member
  have plain := Nat.le_trans (Argument.depth_carriedType argument.value) (Nat.add_le_add_right shallow 2)
  exact ⟨short, describing.even, describing.sized, Nat.lt_of_le_of_lt shallow (by decide), Nat.le_trans plain (by decide)⟩

/-- A representable value is written, and is read back as it was. -/
theorem decode_encode {value : AttributeValue} {params : List TypeSig} (representable : value.Representable params) :
    ∃ blob, value.encode params = .ok blob ∧ AttributeValue.decode blob params = .ok value := by
  have same : value.named.map retagged = value.named := by
    have each (argument : NamedArgument) (member : argument ∈ value.named) : retagged argument = argument := by
      rw [retagged, ← (representable.named argument member).1]
    rw [List.map_congr_left each, List.map_id']
  obtain ⟨blob, written, read⟩ := representable.recoverable.decode
  rw [same] at read
  exact ⟨blob, written, read⟩

/-- A boxed array of enum values and the name of a type, and a field that is given no text. -/
def assorted : AttributeValue :=
  ⟨[.array (some [.enum "Demo.Color" (.int32 2), .enum "Demo.Color" (.int32 (-1))]), .type (some "Demo.Widget")],
    [⟨true, "Label", 0x0E, .string none⟩]⟩

def assortedParams : List TypeSig := [.primitive .object, .classType (.external "corlib" "System" "Type")]

theorem assorted_representable : assorted.Representable assortedParams := by
  have color (value : Int32) : Argument.SelfDescribing (.enum "Demo.Color" (.int32 value)) := .enum (by decide +kernel)
  have colors : Argument.SelfDescribing (.array (some [.enum "Demo.Color" (.int32 2), .enum "Demo.Color" (.int32 (-1))])) := by
    refine .array (by decide) (fun element member => ?_) (fun one first other second => ?_)
    · rcases List.mem_pair.mp member with rfl | rfl <;> exact color _
    · rcases List.mem_pair.mp first with rfl | rfl <;> rcases List.mem_pair.mp second with rfl | rfl <;> rfl
  have widget : Argument.Suits Argument.SelfDescribing (.classType (.external "corlib" "System" "Type"))
    (.type (some "Demo.Widget")) :=
    .type (by decide +kernel) (by rintro _ ⟨⟩; decide +kernel)
  refine ⟨.cons ⟨.boxed colors, by decide⟩ (.cons ⟨widget, by decide⟩ .nil), fun argument member => ?_, by decide⟩
  rw [List.mem_singleton.mp member]
  have own : (Argument.string none).primitive? = some .string := rfl
  exact ⟨rfl, by decide +kernel, .primitive own (.string nofun), by decide⟩

theorem decode_encode_assorted : assorted.Representable assortedParams ∧
    ∃ blob, assorted.encode assortedParams = .ok blob ∧ AttributeValue.decode blob assortedParams = .ok assorted :=
  ⟨assorted_representable, decode_encode assorted_representable⟩

end AttributeValue

end CilWeave
