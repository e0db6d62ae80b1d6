import CilWeave.Definition.Flags
import CilWeave.Proofs.Text.Hexadecimal
import CilWeave.Proofs.Text.Joining

/-!
Flags survive their text. The constants of a table may overlap, so a text does not list every constant that is
contained; but each
one it lists is contained, and what is listed covers all bits except those that follow in hexadecimal.
-/

namespace CilWeave.FlagNames

/-- Names that can be told apart in a text, from each other and from a hexadecimal number. -/
structure Distinct (names : FlagNames) : Prop where
  apart : (names.map (·.1)).Nodup
  filled : ∀ entry ∈ names, entry.1.toList ≠ []
  unbroken : ∀ entry ∈ names, ∀ char ∈ entry.1.toList, Text.isBlank char = false ∧ char ≠ '|'
  named : ∀ entry ∈ names, Text.dropBeginning? ['0', 'x'] entry.1.toList = none

instance (names : FlagNames) : Decidable names.Distinct :=
  decidable_of_iff ((names.map (·.1)).Nodup ∧ (∀ entry ∈ names, entry.1.toList ≠ []) ∧
      (∀ entry ∈ names, entry.1.toList.all fun char => !Text.isBlank char && char != '|') ∧
      ∀ entry ∈ names, Text.dropBeginning? ['0', 'x'] entry.1.toList = none)
    ⟨fun ⟨apart, filled, unbroken, named⟩ => ⟨apart, filled, by simpa using unbroken, named⟩,
     fun ⟨apart, filled, unbroken, named⟩ => ⟨apart, filled, by simpa using unbroken, named⟩⟩

variable {names : FlagNames}

theorem find?_of_mem {entry : String × UInt32} (apart : (names.map (·.1)).Nodup) (listed : entry ∈ names) :
    (names.find? fun other => other.1 == entry.1) = some entry := by
  induction names with
  | nil => cases listed
  | cons first rest ih =>
      obtain ⟨absent, others⟩ := List.nodup_cons.mp apart
      rcases List.mem_cons.mp listed with rfl | later
      · simp
      · have different : first.1 ≠ entry.1 := fun same => absent (List.mem_map.mpr ⟨entry, later, same.symm⟩)
        simp [different, ih others later]

theorem Distinct.readPart? (distinct : names.Distinct) {entry : String × UInt32} (listed : entry ∈ names) :
    names.readPart? entry.1.toList = some entry.2 := by
  rw [FlagNames.readPart?, distinct.named entry listed]
  simp [find?_of_mem distinct.apart listed]

/-- The text of the bits that no name covers. -/
def hexPart (bits : UInt32) : List Char := '0' :: 'x' :: Nat.toDigits 16 bits.toNat

theorem readHex?_toDigits (bits : UInt32) : readHex? (Nat.toDigits 16 bits.toNat) = some bits := by
  have small : bits.toNat < UInt32.size := bits.toNat_lt
  have unsigned (rest : List Char) : Nat.toDigits 16 bits.toNat ≠ '+' :: rest := by
    intro same
    obtain ⟨digit, bound, sign⟩ := Text.exists_digit_of_mem_toDigits (same ▸ List.mem_cons_self)
    have none : ∀ digit < 16, '+' ≠ Nat.digitChar digit := by decide
    exact none digit bound sign
  unfold readHex?
  split
  · exact absurd ‹_› (unsigned _)
  · simp [Text.hexValue?_toDigits, small]

theorem readPart?_hexPart (bits : UInt32) : names.readPart? (hexPart bits) = some bits := by
  simp [readPart?, hexPart, Text.dropBeginning?, readHex?_toDigits]

theorem solid_hexPart (bits : UInt32) : Text.Solid (hexPart bits) ∧ '|' ∉ hexPart bits := by
  have each : ∀ digit < 16, Text.isBlank (Nat.digitChar digit) = false ∧ Nat.digitChar digit ≠ '|' := by decide
  have chars : ∀ char ∈ hexPart bits, Text.isBlank char = false ∧ char ≠ '|' := by
    intro char member
    rcases List.mem_cons.mp member with rfl | member
    · decide
    rcases List.mem_cons.mp member with rfl | member
    · decide
    obtain ⟨digit, small, rfl⟩ := Text.exists_digit_of_mem_toDigits member
    exact each digit small
  exact ⟨⟨List.cons_ne_nil _ _, fun char member => (chars char member).1⟩, fun bar => (chars '|' bar).2 rfl⟩

theorem Distinct.solid (distinct : names.Distinct) {entry : String × UInt32} (listed : entry ∈ names) :
    Text.Solid entry.1.toList ∧ '|' ∉ entry.1.toList :=
  ⟨⟨distinct.filled entry listed, fun char member => (distinct.unbroken entry listed char member).1⟩,
    fun bar => (distinct.unbroken entry listed '|' bar).2 rfl⟩

/-- Adds the bits of a part to those read before. -/
def readOn? (names : FlagNames) (bits : UInt32) (part : List Char) : Option UInt32 :=
  if part.isEmpty then none else (names.readPart? part).map (bits ||| ·)

/-- A set of flags has a bit. -/
def HasBit (bits : UInt32) (index : Nat) : Prop := bits.toBitVec.getLsbD index = true

section

variable {left right bits constant : UInt32} {index : Nat}

theorem bits_ext (same : ∀ index, HasBit left index ↔ HasBit right index) : left = right :=
  UInt32.toBitVec_inj.mp (BitVec.eq_of_getLsbD_eq fun index _ => Bool.eq_iff_iff.mpr (same index))

@[simp] theorem not_hasBit_zero : ¬HasBit 0 index := by simp [HasBit]

@[simp] theorem hasBit_or : HasBit (left ||| right) index ↔ HasBit left index ∨ HasBit right index := by simp [HasBit]

@[simp] theorem hasBit_and : HasBit (left &&& right) index ↔ HasBit left index ∧ HasBit right index := by simp [HasBit]

@[simp] theorem hasBit_remove : HasBit (left &&& ~~~right) index ↔ HasBit left index ∧ ¬HasBit right index := by
  have inside (held : left.toBitVec.getLsbD index = true) : index < 32 := BitVec.lt_of_getLsbD held
  simpa [HasBit] using fun held _ => inside held

theorem contains_iff : contains bits constant = true ↔ ∀ index, HasBit constant index → HasBit bits index := by
  rw [contains, beq_iff_eq]
  constructor
  · intro inside index held
    rw [← inside, hasBit_and] at held
    exact held.1
  · exact fun inside => bits_ext fun index => by simpa using inside index

theorem and_ne_zero_iff : left &&& right ≠ 0 ↔ ∃ index, HasBit left index ∧ HasBit right index := by
  constructor
  · intro some
    by_contra none
    exact some (bits_ext fun index => by simpa using fun held other => none ⟨index, held, other⟩)
  · rintro ⟨index, held, other⟩ nothing
    have both : HasBit (left &&& right) index := hasBit_and.mpr ⟨held, other⟩
    exact not_hasBit_zero (nothing ▸ both)

end

theorem list_contained {bits constant held left : UInt32} (contained : contains bits constant) (whole : held ||| left = bits) :
    held ||| constant ||| (left &&& ~~~constant) = bits := by
  subst whole
  refine bits_ext fun index => ?_
  have inside := contains_iff.mp contained index
  simp only [hasBit_or, hasBit_remove] at inside ⊢
  tauto

/-- The parts of the text of a set of flags. -/
def parts (names : FlagNames) (bits : UInt32) : List (List Char) :=
  (cover bits names bits).1.map String.toList ++
    if (cover bits names bits).2 = 0 then [] else [hexPart (cover bits names bits).2]

theorem mem_cover {bits left : UInt32} {entries : FlagNames} {name : String} (listed : name ∈ (cover bits entries left).1) :
    ∃ entry ∈ entries, entry.1 = name := by
  induction entries generalizing left with
  | nil => cases listed
  | cons entry entries ih =>
      rw [cover] at listed
      split at listed
      · rcases List.mem_cons.mp listed with rfl | later
        · exact ⟨entry, List.mem_cons_self, rfl⟩
        · obtain ⟨other, member, same⟩ := ih later
          exact ⟨other, List.mem_cons_of_mem _ member, same⟩
      · obtain ⟨other, member, same⟩ := ih listed
        exact ⟨other, List.mem_cons_of_mem _ member, same⟩

theorem Distinct.solid_parts (distinct : names.Distinct) (bits : UInt32) :
    ∀ part ∈ names.parts bits, Text.Solid part ∧ '|' ∉ part := by
  intro part member
  rcases List.mem_append.mp member with listed | rest
  · obtain ⟨name, covering, rfl⟩ := List.mem_map.mp listed
    obtain ⟨entry, among, rfl⟩ := mem_cover covering
    exact distinct.solid among
  · split at rest
    · cases rest
    · rw [List.mem_singleton] at rest
      exact rest ▸ solid_hexPart _

/-- Reading the names that a text lists gives back every bit that is not left over. -/
theorem Distinct.readOn?_cover (distinct : names.Distinct) {entries : FlagNames}
    (among : ∀ entry ∈ entries, entry ∈ names)
    {bits held left : UInt32} (whole : held ||| left = bits) :
    ∃ read, ((cover bits entries left).1.map String.toList).foldlM names.readOn? held = some read ∧
      read ||| (cover bits entries left).2 = bits := by
  induction entries generalizing held left with
  | nil => exact ⟨held, rfl, whole⟩
  | cons entry entries ih =>
      have others : ∀ entry ∈ entries, entry ∈ names := fun entry member => among entry (List.mem_cons_of_mem _ member)
      obtain ⟨name, constant⟩ := entry
      rw [cover]
      split
      · rename_i contained
        rw [Bool.and_eq_true] at contained
        have listed := among _ List.mem_cons_self
        obtain ⟨read, rest, covered⟩ := ih others (list_contained contained.1 whole)
        refine ⟨read, ?_, covered⟩
        have filled := distinct.filled _ listed
        have here : names.readOn? held name.toList = some (held ||| constant) := by
          rw [readOn?, if_neg (by simpa using filled), distinct.readPart? listed]
          rfl
        rw [List.map_cons, List.foldlM_cons, here]
        exact rest
      · exact ih others whole

theorem Distinct.readOn?_parts (distinct : names.Distinct) (bits : UInt32) :
    (names.parts bits).foldlM names.readOn? 0 = some bits := by
  have whole : 0 ||| bits = bits := UInt32.zero_or
  obtain ⟨read, listed, covered⟩ := distinct.readOn?_cover (fun _ member => member) whole
  rw [parts, List.foldlM_append, listed]
  split
  · rename_i nothing
    rw [nothing, UInt32.or_zero] at covered
    exact congrArg some covered
  · have here : names.readOn? read (hexPart (cover bits names bits).2) = some bits := by
      rw [readOn?, if_neg (by simp [hexPart]), readPart?_hexPart]
      exact congrArg some covered
    simp [here]

/-- Every set of flags is read back from its text, whether or not its bits have names. -/
theorem Distinct.read?_write (distinct : names.Distinct) (bits : UInt32) : names.read? (names.write bits) = some bits := by
  have text : (names.write bits).toList = [' ', '|', ' '].intercalate (names.parts bits) := by
    rw [write, String.toList_intercalate]
    congr 1
    simp only [parts, List.map_append]
    split <;> simp [hexPart, Text.hexText]
  have read := distinct.readOn?_parts bits
  rw [read?, text]
  cases parted : names.parts bits with
  | nil =>
      rw [parted] at read
      exact read
  | cons first rest =>
      have solid := distinct.solid_parts bits
      rw [parted] at read solid
      have apart := Text.trimmed_intercalate (List.cons_ne_nil first rest) solid
      have shown : ¬ ([' ', '|', ' '].intercalate (first :: rest)).all Text.isBlank := by
        obtain ⟨char, member⟩ := List.exists_mem_of_ne_nil _ (solid first List.mem_cons_self).1.filled
        have visible := (solid first List.mem_cons_self).1.unbroken char member
        rw [Text.intercalate_cons, List.all_eq_true]
        exact fun blank => by simp [blank char (List.mem_append_left _ member)] at visible
      rw [if_neg shown, apart]
      exact read

theorem distinct_type : TypeFlags.names.Distinct := by decide +kernel

theorem distinct_field : FieldFlags.names.Distinct := by decide +kernel

theorem distinct_method : MethodFlags.names.Distinct := by decide +kernel

end CilWeave.FlagNames
