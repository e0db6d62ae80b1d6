import CilWeave.Proofs.Definition.Flags

/-!
What texts of flags say, bit by bit. A text lists those constants that are contained and have a bit which no contained
constant in front of them has, and ends with the bits that none has. Read back, it is the same set of flags.
-/

namespace CilWeave.FlagNames

/-- All bits of a constant are bits of the set. -/
def Within (bits constant : UInt32) : Prop := ∀ index, HasBit constant index → HasBit bits index

/-- A bit of the set that none of the constants within it has. -/
def Uncovered (bits : UInt32) (entries : FlagNames) (index : Nat) : Prop :=
  HasBit bits index ∧ ∀ entry ∈ entries, Within bits entry.2 → ¬HasBit entry.2 index

/-- A constant within the set that has a bit which the constants in front of it leave uncovered. -/
def Chosen (bits : UInt32) (before : FlagNames) (constant : UInt32) : Prop :=
  Within bits constant ∧ ∃ index, HasBit constant index ∧ Uncovered bits before index

/-- What a text of a set of flags lists, and the bits that it leaves to be written in hexadecimal. -/
structure Spells (names : FlagNames) (bits : UInt32) (listed : List String) (rest : UInt32) : Prop where
  ordered : listed.Sublist (names.map (·.1))
  chosen : ∀ before entry after, names = before ++ entry :: after → (entry.1 ∈ listed ↔ Chosen bits before entry.2)
  rest : ∀ index, HasBit rest index ↔ Uncovered bits names index

/-- The text of a set of flags under a table of names. -/
def Spelled (names : FlagNames) (bits : UInt32) (text : String) : Prop :=
  ∃ listed rest, names.Spells bits listed rest ∧
    text = " | ".intercalate (listed ++ if rest = 0 then [] else ["0x" ++ Text.hexText rest.toNat])

variable {names before entries : FlagNames} {bits left : UInt32} {entry : String × UInt32}

theorem chosen_iff (uncovered : ∀ index, HasBit left index ↔ Uncovered bits before index) :
    (contains bits entry.2 && left &&& entry.2 != 0) = true ↔ Chosen bits before entry.2 := by
  rw [Bool.and_eq_true, contains_iff, bne_iff_ne, and_ne_zero_iff]
  simp only [uncovered, and_comm, Within, Chosen]

theorem uncovered_append {index : Nat} : Uncovered bits (before ++ [entry]) index ↔
    Uncovered bits before index ∧ (Within bits entry.2 → ¬HasBit entry.2 index) := by
  rw [Uncovered, Uncovered, List.forall_mem_append, List.forall_mem_singleton, and_assoc]

/-- A constant is listed if it is chosen. One that is not covers nothing that was left. -/
theorem cover_cons (entry : String × UInt32) (entries : FlagNames)
    (uncovered : ∀ index, HasBit left index ↔ Uncovered bits before index) :
    ∃ next, (∀ index, HasBit next index ↔ Uncovered bits (before ++ [entry]) index) ∧
      (cover bits (entry :: entries) left).2 = (cover bits entries next).2 ∧
      (Chosen bits before entry.2 ∧ (cover bits (entry :: entries) left).1 = entry.1 :: (cover bits entries next).1 ∨
        ¬Chosen bits before entry.2 ∧ (cover bits (entry :: entries) left).1 = (cover bits entries next).1) := by
  rw [cover]
  by_cases chosen : Chosen bits before entry.2
  · have within : Within bits entry.2 := chosen.1
    refine ⟨left &&& ~~~entry.2, fun index => ?_, ?_⟩
    · rw [hasBit_remove, uncovered index, uncovered_append]
      exact and_congr_right fun _ => ⟨fun free _ => free, fun free => free within⟩
    · rw [if_pos ((chosen_iff uncovered).mpr chosen)]
      exact ⟨rfl, .inl ⟨chosen, rfl⟩⟩
  · refine ⟨left, fun index => ?_, ?_⟩
    · rw [uncovered index, uncovered_append]
      exact ⟨fun free => ⟨free, fun within held => chosen ⟨within, index, held, free⟩⟩, And.left⟩
    · rw [if_neg fun listed => chosen ((chosen_iff uncovered).mp listed)]
      exact ⟨rfl, .inr ⟨chosen, rfl⟩⟩

/-- Going on through a table, only the bits matter that the constants passed so far leave uncovered. -/
theorem cover_spells (uncovered : ∀ index, HasBit left index ↔ Uncovered bits before index)
    (apart : (entries.map (·.1)).Nodup) :
    (cover bits entries left).1.Sublist (entries.map (·.1)) ∧
      (∀ front entry after, entries = front ++ entry :: after →
        (entry.1 ∈ (cover bits entries left).1 ↔ Chosen bits (before ++ front) entry.2)) ∧
      ∀ index, HasBit (cover bits entries left).2 index ↔ Uncovered bits (before ++ entries) index := by
  induction entries generalizing before left with
  | nil =>
      refine ⟨.slnil, fun front entry after split => ?_, fun index => ?_⟩
      · cases front <;> cases split
      · rw [List.append_nil]
        exact uncovered index
  | cons first entries ih =>
      obtain ⟨absent, others⟩ := List.nodup_cons.mp apart
      obtain ⟨next, uncovered, rest, listed⟩ := cover_cons first entries uncovered
      obtain ⟨ordered, later, remaining⟩ := ih uncovered others
      rw [rest]
      refine ⟨?_, fun front entry after split => ?_, by simpa using remaining⟩
      · rcases listed with ⟨-, same⟩ | ⟨-, same⟩ <;> rw [same]
        · exact ordered.cons_cons _
        · exact ordered.cons _
      · cases front with
        | nil =>
            cases split
            have unlisted : first.1 ∉ (cover bits entries next).1 := fun among => absent (ordered.subset among)
            rcases listed with ⟨chosen, same⟩ | ⟨chosen, same⟩ <;> simp [same, chosen, unlisted]
        | cons passed front =>
            obtain ⟨rfl, rfl⟩ := List.cons_eq_cons.mp split
            have different : entry.1 ≠ first.1 := fun same => absent (by simp [← same])
            have here := later front entry after rfl
            rcases listed with ⟨-, same⟩ | ⟨-, same⟩ <;> rw [same] <;> simpa [different] using here

theorem Distinct.spelled_write (distinct : names.Distinct) (bits : UInt32) : names.Spelled bits (names.write bits) := by
  have all : ∀ index, HasBit bits index ↔ Uncovered bits [] index := fun index => by simp [Uncovered]
  obtain ⟨ordered, chosen, rest⟩ := cover_spells all distinct.apart
  exact ⟨_, _, ⟨ordered, chosen, rest⟩, rfl⟩

/-- The text of flags of a type, a field or a method is the one that its table gives, and read back it is the same flags,
whether or not all bits have names. -/
theorem spelled_restored (bits : UInt32) :
    (TypeFlags.names.Spelled bits (TypeFlags.names.write bits) ∧
        TypeFlags.names.read? (TypeFlags.names.write bits) = some bits) ∧
      (FieldFlags.names.Spelled bits (FieldFlags.names.write bits) ∧
        FieldFlags.names.read? (FieldFlags.names.write bits) = some bits) ∧
      (MethodFlags.names.Spelled bits (MethodFlags.names.write bits) ∧
        MethodFlags.names.read? (MethodFlags.names.write bits) = some bits) :=
  ⟨⟨distinct_type.spelled_write bits, distinct_type.read?_write bits⟩,
    ⟨distinct_field.spelled_write bits, distinct_field.read?_write bits⟩,
    distinct_method.spelled_write bits, distinct_method.read?_write bits⟩

/-- Private is part of assembly and has a name of its own, public adds nothing to what stands in front of it, and one bit has
no name. -/
example : MethodFlags.names.write 0x2007 = "PRIVATE | ASSEMBLY | FAMILY | 0x2000" := by decide +kernel

end CilWeave.FlagNames
