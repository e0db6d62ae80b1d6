import CilWeave.Proofs.Attribute.RoundTrip
import CilWeave.Proofs.Blob.Outcome

/-!
Writing again what was read. In binary form each element of an array of boxed values has a type of its own. The
value that was read has none, and is written with the type of the first element: it is read back where that is the
type of all of them.
-/

namespace CilWeave

namespace AttributeReading

open AttributeWriting Argument

theorem charOfUnit_le (unit : UInt16) : (charOfUnit unit).toNat ≤ 0xFFFF := by
  unfold charOfUnit
  split
  · decide
  · by_cases valid : unit.toNat.isValidChar
    · rw [Char.ofNat, dif_pos valid]
      exact Nat.le_of_lt_succ unit.toNat_lt
    · rw [Char.ofNat, dif_neg valid]
      decide

theorem yields_simple (boxed : Argument → Prop) {param : TypeSig} {tag : UInt8} (read : paramTag? param = some tag) :
    Yields (simple tag) (Suits boxed param) := by
  cases param with
  | primitive kind =>
      cases kind with
      | char =>
          cases read
          exact Yields.any.bind fun unit _ => .pure (.primitive rfl (.char (charOfUnit_le unit)))
      | string =>
          cases read
          exact yields_text?.bind fun text short => .pure (.primitive rfl (.string short))
      | void | object | intPtr | uintPtr => cases read
      | _ =>
          cases read
          exact Yields.any.bind fun _ _ => .pure (.primitive rfl (.number rfl nofun nofun))
  | classType reference =>
      rw [paramTag?] at read
      split at read
      · cases read
        exact yields_text?.bind fun name short => .pure (.type ‹_› short)
      · cases read
  | _ => cases read

theorem exists_param {tag : UInt8} (known : (TypeTag.bool ≤ tag ∧ tag ≤ TypeTag.text) ∨ tag = TypeTag.type) :
    ∃ param, paramTag? param = some tag := by
  rcases known with ⟨least, most⟩ | rfl
  · have each : ∀ number < 0x0F, 0x02 ≤ number → ∃ kind ∈ Primitive.all, paramTag? (.primitive kind) =
      some number.toUInt8 := by
      decide
    obtain ⟨kind, -, found⟩ := each tag.toNat (Nat.lt_succ_of_le most) least
    exact ⟨.primitive kind, found.trans (congrArg some UInt8.ofNat_toNat)⟩
  · refine ⟨.classType (.here "System" "Type"), ?_⟩
    rw [paramTag?, if_pos (by decide)]

theorem yields_arrayLength? : Yields arrayLength? fun length => ∀ count ∈ length, count ≤ maxLength := by
  refine Yields.any.bind fun length _ => .ite (fun _ => .pure nofun) fun _ => .ite (fun _ => .fail _) fun _ => ?_
  refine Yields.any.bind fun cursor _ => .ite (fun _ => .fail _) fun _ => .pure ?_
  rintro _ ⟨⟩
  have bounded := length.toInt_lt
  show length.toInt.toNat ≤ 0x7FFFFFFF
  omega

theorem yields_array {element : Read Argument} {holds : Argument → Prop} (each : Yields element holds) :
    Yields (array element) fun argument => argument = .array none ∨ ∃ elements, argument = .array (some elements) ∧
      elements.length ≤ maxLength ∧ ∀ item ∈ elements, holds item := by
  refine yields_arrayLength?.bind fun length bounded => ?_
  cases length with
  | none => exact .pure (.inl rfl)
  | some length =>
      refine (each.times length).bind fun elements ⟨count, all⟩ => .pure (.inr ⟨elements, rfl, ?_, all⟩)
      exact count ▸ bounded length rfl

theorem yields_carriedType (room : Nat) : Yields (carriedType room) fun type => Known type ∧ type.depth ≤ room := by
  induction room with
  | zero => exact .fail _
  | succ room ih =>
      refine Yields.any.bind fun tag _ => .ite (fun _ => ?_) fun _ => .ite (fun _ => ?_) fun _ =>
        .ite (fun known => ?_) fun _ => .fail _
      · refine yields_text?.bind fun name short => ?_
        cases name with
        | none => exact .fail _
        | some name => exact .pure ⟨.enum (short name rfl), Nat.succ_pos room⟩
      · exact ih.bind fun element ⟨known, deep⟩ => .pure ⟨.array known, Nat.succ_le_succ deep⟩
      · exact .pure ⟨.simple known, Nat.succ_pos room⟩

theorem nesting_of_primitive {argument : Argument} {kind : Primitive} (own : argument.primitive? = some kind) :
    argument.nesting = 0 := by
  cases argument with
  | array => cases own
  | enum => cases own
  | type => cases own
  | _ => rfl

/-- What is read with a type can be written with its own in the same room, save that the type read may be deeper. -/
structure Fitting (depth room : Nat) (argument : Argument) : Prop where
  sized : argument.Sized
  shallow : argument.nesting < room
  plain : argument.carriedType.depth ≤ max depth room

theorem Suits.fitting {boxed : Argument → Prop} {param : TypeSig} {argument : Argument} {tag : UInt8} {depth room : Nat}
    (suits : argument.Suits boxed param) (own : paramTag? param = some tag) (some : 0 < room) :
    Fitting depth room argument := by
  have plain : 1 ≤ max depth room := Nat.le_trans some (Nat.le_max_right depth room)
  cases suits with
  | primitive kind sized =>
      refine ⟨sized, nesting_of_primitive kind ▸ some, ?_⟩
      rw [carriedType_of_primitive kind]
      exact plain
  | type _ short => exact ⟨.type short, some, plain⟩
  | enum => cases own
  | absent => cases own
  | array => cases own
  | boxed => cases own

theorem fitting_array {depth room : Nat} {elements : List Argument} (positive : 0 < depth)
    (bounded : elements.length ≤ maxLength) (each : ∀ element ∈ elements, Fitting depth room element) :
    Fitting (depth + 1) (room + 1) (.array (some elements)) := by
  refine ⟨.array bounded fun element member => (each element member).sized, ?_, ?_⟩
  · exact Nat.lt_succ_of_le (nestingAll_le fun element member => (each element member).shallow)
  · cases elements with
    | nil => exact Nat.le_trans (Nat.succ_le_succ positive) (Nat.le_max_left _ _)
    | cons first rest =>
        have plain := (each first List.mem_cons_self).plain
        show first.carriedType.depth + 1 ≤ max (depth + 1) (room + 1)
        omega

theorem yields_carried {room : Nat} {type : CarriedType} (known : Known type) :
    Yields (carried room type) (Fitting type.depth room) := by
  induction room generalizing type with
  | zero => exact .fail _
  | succ room ih =>
      cases known with
      | @simple tag known =>
          refine .ite (fun boxed => ?_) fun other => ?_
          · -- The type of a boxed element is read in the room that is left, so it is no deeper than that.
            refine (yields_carriedType room).bind fun type ⟨known, deep⟩ => (ih known).weaken fun argument fitting => ?_
            have plain := fitting.plain
            exact ⟨fitting.sized, Nat.lt_succ_of_lt fitting.shallow, by omega⟩
          · have known : (TypeTag.bool ≤ tag ∧ tag ≤ TypeTag.text) ∨ tag = TypeTag.type :=
              known.imp_right fun either => either.resolve_right other
            obtain ⟨param, own⟩ := exists_param known
            exact (yields_simple Sized own).weaken fun argument suits => Suits.fitting suits own (Nat.succ_pos room)
      | enum short =>
          exact Yields.any.bind fun value _ => .pure ⟨.enum short, Nat.succ_pos room, Nat.le_max_left _ _⟩
      | @array element known =>
          have positive := element.depth_pos
          refine (yields_array (ih known)).weaken fun argument outcome => ?_
          rcases outcome with rfl | ⟨elements, rfl, bounded, all⟩
          · exact ⟨.absent, Nat.succ_pos room, Nat.le_trans (Nat.succ_le_succ positive) (Nat.le_max_left _ _)⟩
          · exact fitting_array positive bounded all

/-- An argument that was read for a parameter. -/
structure Accepted (room : Nat) (param : TypeSig) (argument : Argument) : Prop where
  suits : argument.Suits Sized param
  enough : argument.room param ≤ room

theorem room_of_tag {param : TypeSig} {tag : UInt8} (argument : Argument) (own : paramTag? param = some tag) :
    argument.room param = 1 := by
  unfold room
  split
  · cases own
  · cases own
  · rfl

theorem yields_boxed (room : Nat) : Yields (boxed room) (Accepted (room + 1) (.primitive .object)) := by
  refine (yields_carriedType room).bind fun type ⟨known, deep⟩ => (yields_carried known).weaken fun argument fitting => ?_
  have shallow := fitting.shallow
  have plain := fitting.plain
  refine ⟨.boxed fitting.sized, Nat.succ_le_succ (Nat.max_le.mpr ⟨shallow, ?_⟩)⟩
  omega

theorem yields_fixed (room : Nat) (param : TypeSig) : Yields (fixed room param) (Accepted room param) := by
  induction room generalizing param with
  | zero => exact .fail _
  | succ room ih =>
      have simplest (own : ∀ element, param ≠ .array element) (other : ∀ reference, param ≠ .valueType reference) :
          Yields (fixed (room + 1) param) (Accepted (room + 1) param) := by
        rw [fixed]
        · refine .ite (fun same => same ▸ yields_boxed room) fun _ => ?_
          split
          · rename_i tag found
            exact (yields_simple Sized found).weaken fun argument suits => ⟨suits,
              Nat.le_trans (Nat.le_of_eq (room_of_tag argument found)) (Nat.succ_pos room)⟩
          · exact .fail _
        · exact own
        · exact other
      cases param with
      | array element =>
          refine (yields_array (ih element)).weaken fun argument outcome => ?_
          rcases outcome with rfl | ⟨elements, rfl, bounded, all⟩
          · exact ⟨.absent, Nat.succ_pos room⟩
          · refine ⟨.array bounded fun element member => (all element member).suits,
              Nat.succ_le_succ (foldr_max_le fun number member => ?_)⟩
            obtain ⟨argument, within, rfl⟩ := List.mem_map.mp member
            exact (all argument within).enough
      | valueType reference => exact Yields.any.bind fun value _ => .pure ⟨.enum, Nat.succ_pos room⟩
      | _ => exact simplest (fun _ same => by cases same) (fun _ same => by cases same)

theorem yields_fixedAll (params : List TypeSig) : Yields (fixedAll params) (List.Forall₂ (Accepted maxNesting) params) := by
  induction params with
  | nil => exact .pure .nil
  | cons param params ih =>
      refine Yields.any.bind fun cursor _ => .ite (fun _ => ?_) fun _ => .fail _
      exact (yields_fixed maxNesting param).bind fun argument accepted => ih.bind fun others all => .pure (.cons accepted all)

theorem yields_named : Yields named fun argument => Short argument.name ∧ Fitting maxNesting maxNesting argument.value := by
  refine Yields.any.bind fun kind _ => .ite (fun _ => .fail _) fun _ => ?_
  refine (yields_carriedType maxNesting).bind fun type ⟨known, deep⟩ => yields_text?.bind fun name short => ?_
  cases name with
  | none => exact .fail _
  | some name =>
      refine (yields_carried known).bind fun argument fitting => .pure ⟨short name rfl, fitting.sized, fitting.shallow, ?_⟩
      exact Nat.le_trans fitting.plain (max_le_max_right _ deep)

theorem yields_namedAll : Yields namedAll fun arguments => arguments.length < UInt16.size ∧
    ∀ argument ∈ arguments, Short argument.name ∧ Fitting maxNesting maxNesting argument.value := by
  refine Yields.any.bind fun cursor _ => .ite (fun _ => .pure ⟨by decide, nofun⟩) fun _ => ?_
  refine Yields.any.bind fun count _ => (yields_named.times count.toNat).weaken fun arguments ⟨length, all⟩ => ?_
  exact ⟨length ▸ count.toNat_lt, all⟩

/-- What is known of a value that was read. -/
structure Sound (params : List TypeSig) (value : AttributeValue) : Prop where
  fixed : List.Forall₂ (Accepted maxNesting) params value.fixed
  named : ∀ argument ∈ value.named, Short argument.name ∧ Fitting maxNesting maxNesting argument.value
  count : value.named.length < UInt16.size

theorem yields_value (params : List TypeSig) : Yields (value params) (Sound params) := by
  refine Yields.any.bind fun prolog _ => .ite (fun _ => .fail _) fun _ => ?_
  exact (yields_fixedAll params).bind fun fixed accepted => yields_namedAll.bind fun named ⟨count, all⟩ =>
    .pure ⟨accepted, all, count⟩

theorem fixedAll_ok {param : TypeSig} {elements : List Argument}
    (each : ∀ argument ∈ elements, ∃ bytes, AttributeWriting.fixed param argument = .ok bytes) :
    ∃ bytes, AttributeWriting.fixedAll param elements = .ok bytes := by
  induction elements with
  | nil => exact ⟨[], rfl⟩
  | cons first rest ih =>
      obtain ⟨bytes, written⟩ := each first List.mem_cons_self
      obtain ⟨more, others⟩ := ih fun argument member => each argument (List.mem_cons_of_mem _ member)
      rw [AttributeWriting.fixedAll, written, others]
      exact ⟨_, rfl⟩

theorem fixed_ok {boxed : Argument → Prop} {param : TypeSig} {argument : Argument} (suits : argument.Suits boxed param) :
    ∃ bytes, AttributeWriting.fixed param argument = .ok bytes := by
  induction suits with
  | @primitive argument kind own _ =>
      refine ⟨payload argument, ?_⟩
      cases argument <;> cases own <;> rfl
  | type => exact ⟨_, rfl⟩
  | enum => exact ⟨_, rfl⟩
  | absent => exact ⟨_, rfl⟩
  | array bounded _ ih =>
      obtain ⟨bytes, written⟩ := fixedAll_ok ih
      rw [AttributeWriting.fixed, if_pos bounded, written]
      exact ⟨_, rfl⟩
  | boxed _ =>
      rw [AttributeWriting.fixed]
      exact ⟨_, rfl⟩

theorem fixedPairs_ok {params : List TypeSig} {arguments : List Argument}
    (each : List.Forall₂ (Accepted maxNesting) params arguments) :
    ∃ bytes, fixedPairs (params.zip arguments) = .ok bytes := by
  induction each with
  | nil => exact ⟨[], rfl⟩
  | cons accepted _ ih =>
      obtain ⟨bytes, written⟩ := fixed_ok accepted.suits
      obtain ⟨more, others⟩ := ih
      rw [List.zip_cons_cons, fixedPairs, written, others]
      exact ⟨_, rfl⟩

end AttributeReading

/-- The parts of an argument for a parameter that are written with their type. -/
def Argument.typed : TypeSig → Argument → List Argument
  | .array element, .array (some elements) => elements.flatMap (typed element)
  | .primitive .object, argument => [argument]
  | _, _ => []

theorem Argument.Suits.of_typed {boxed holds : Argument → Prop} {param : TypeSig} {argument : Argument}
    (suits : argument.Suits boxed param) (each : ∀ part ∈ argument.typed param, holds part) :
    argument.Suits (fun part => holds part ∧ boxed part) param := by
  induction suits with
  | primitive own sized => exact .primitive own sized
  | type named short => exact .type named short
  | enum => exact .enum
  | absent => exact .absent
  | array bounded _ ih =>
      refine .array bounded fun argument member => ih argument member fun part within => each part ?_
      rw [Argument.typed]
      exact List.mem_flatMap.mpr ⟨argument, member, within⟩
  | boxed one =>
      refine .boxed ⟨each _ ?_, one⟩
      rw [Argument.typed]
      exact List.mem_singleton_self _

namespace AttributeValue

open AttributeReading

/-- The arguments that are written with their type. -/
def typed (value : AttributeValue) (params : List TypeSig) : List Argument :=
  (params.zip value.fixed).flatMap (fun pair => pair.2.typed pair.1) ++ value.named.map (·.value)

theorem recoverable_of_sound {params : List TypeSig} {value : AttributeValue} (sound : Sound params value)
    (even : ∀ argument ∈ value.typed params, argument.Even) : value.Recoverable params := by
  refine ⟨?_, fun argument member => ?_, sound.count⟩
  · rw [List.forall₂_iff_zip]
    refine ⟨sound.fixed.length_eq, fun {param argument} member => ?_⟩
    have accepted := List.forall₂_zip sound.fixed member
    refine roundTrips (accepted.suits.of_typed fun part within => even part ?_) accepted.enough
    exact List.mem_append_left _ (List.mem_flatMap.mpr ⟨_, member, within⟩)
  · obtain ⟨short, fitting⟩ := sound.named argument member
    have even := even argument.value (List.mem_append_right _ (List.mem_map_of_mem member))
    exact ⟨short, even, fitting.sized, fitting.shallow, max_self maxNesting ▸ fitting.plain⟩

/-- What was read is written, and is read back as it was where each argument that is written with its type has
parts of that type only. -/
theorem encode_decode {blob : List UInt8} {params : List TypeSig} {value : AttributeValue} (filled : blob ≠ [])
    (decoded : AttributeValue.decode blob params = .ok value) :
    ∃ again, value.encode params = .ok again ∧ ((∀ argument ∈ value.typed params, argument.Even) →
      AttributeValue.decode again params = .ok ⟨value.fixed, value.named.map retagged⟩) := by
  have sound : Sound params value := by
    rw [AttributeValue.decode, if_neg (by rwa [List.isEmpty_iff])] at decoded
    exact yields_value params _ value _ (Prod.ext decoded rfl)
  obtain ⟨bytes, written⟩ := fixedPairs_ok sound.fixed
  refine ⟨_, encode_eq sound.fixed.length_eq written sound.count, fun even => ?_⟩
  obtain ⟨again, encoded, read⟩ := (recoverable_of_sound sound even).decode
  rw [encode_eq sound.fixed.length_eq written sound.count] at encoded
  cases encoded
  exact read

/-- An array of two boxed numbers, which is written again as one of numbers. -/
def boxedNumbers : List UInt8 :=
  [0x01, 0x00, 0x1D, 0x51, 0x02, 0x00, 0x00, 0x00, 0x08, 0x07, 0x00, 0x00, 0x00, 0x08, 0x09, 0x00, 0x00, 0x00, 0x00, 0x00]

theorem encode_decode_boxedNumbers : boxedNumbers ≠ [] ∧
    AttributeValue.decode boxedNumbers [.primitive .object] = .ok ⟨[.array (some [.int32 7, .int32 9])], []⟩ ∧
    ∃ again, encode ⟨[.array (some [.int32 7, .int32 9])], []⟩ [.primitive .object] = .ok again ∧
      AttributeValue.decode again [.primitive .object] = .ok ⟨[.array (some [.int32 7, .int32 9])], []⟩ := by
  have filled : boxedNumbers ≠ [] := nofun
  have decoded : AttributeValue.decode boxedNumbers [.primitive .object] =
    .ok ⟨[.array (some [.int32 7, .int32 9])], []⟩ := rfl
  obtain ⟨again, written, read⟩ := encode_decode filled decoded
  refine ⟨filled, decoded, again, written, read fun argument member => ?_⟩
  rw [List.mem_singleton.mp member]
  refine .array fun element within => ?_
  have own (value : Int32) : (Argument.int32 value).primitive? = some .int32 := rfl
  rcases List.mem_pair.mp within with rfl | rfl
  · exact .primitive (own 7)
  · exact .primitive (own 9)

/-- An array of a boxed number and a boxed truth value. -/
def boxedMixture : List UInt8 :=
  [0x01, 0x00, 0x1D, 0x51, 0x02, 0x00, 0x00, 0x00, 0x08, 0x01, 0x00, 0x00, 0x00, 0x02, 0x01, 0x00, 0x00]

/-- The truth value is written as if it were a number, and what was written cannot be read. -/
theorem boxedMixture_lost : boxedMixture ≠ [] ∧
    AttributeValue.decode boxedMixture [.primitive .object] = .ok ⟨[.array (some [.int32 1, .bool true])], []⟩ ∧
    encode ⟨[.array (some [.int32 1, .bool true])], []⟩ [.primitive .object] =
      .ok [0x01, 0x00, 0x1D, 0x08, 0x02, 0x00, 0x00, 0x00, 0x01, 0x00, 0x00, 0x00, 0x01, 0x00, 0x00] ∧
    AttributeValue.decode [0x01, 0x00, 0x1D, 0x08, 0x02, 0x00, 0x00, 0x00, 0x01, 0x00, 0x00, 0x00, 0x01, 0x00, 0x00]
      [.primitive .object] = .error .outOfBounds :=
  ⟨nofun, rfl, rfl, rfl⟩

end AttributeValue

end CilWeave
