import Mathlib.Algebra.Group.Nat.Defs
import CilWeave.Blob.Cursor
import CilWeave.Proofs.Stateful

/-!
What holds of a value that was read, whatever data it was read from.
-/

namespace CilWeave

open Stateful

variable {α β : Type}

/-- Whatever the read gives has the property. -/
def Yields (read : Read α) (holds : α → Prop) : Prop :=
  ∀ cursor value after, read.run.run cursor = (.ok value, after) → holds value

namespace Yields

variable {read : Read α} {holds held : α → Prop}

theorem any : Yields read fun _ => True := fun _ _ _ _ => trivial

theorem weaken (yields : Yields read held) (weaker : ∀ value, held value → holds value) : Yields read holds :=
  fun cursor value after ran => weaker value (yields cursor value after ran)

theorem pure {value : α} (true : holds value) : Yields (Pure.pure value) holds := by
  rintro cursor value after ⟨⟩
  exact true

theorem fail (fault : BlobFault) : Yields (throw fault) holds := by
  rintro cursor value after ⟨⟩

theorem bind {next : α → Read β} {result : β → Prop} (first : Yields read held)
    (second : ∀ value, held value → Yields (next value) result) : Yields (read >>= next) result := by
  intro cursor value after ran
  rw [run_bind] at ran
  rcases one : read.run.run cursor with ⟨fault | middle, between⟩
  · rw [one] at ran
    cases ran
  · rw [one] at ran
    exact second middle (first cursor middle between one) between value after ran

theorem ite {condition : Prop} [Decidable condition] {other : Read α} (one : condition → Yields read holds)
    (two : ¬condition → Yields other holds) : Yields (if condition then read else other) holds := by
  split
  · exact one ‹_›
  · exact two ‹_›

theorem times (each : Yields read holds) (count : Nat) :
    Yields (Read.times read count) fun values => values.length = count ∧ ∀ value ∈ values, holds value := by
  induction count with
  | zero => exact .pure ⟨rfl, nofun⟩
  | succ count ih =>
      refine each.bind fun first true => ih.bind fun others ⟨length, all⟩ => .pure ⟨?_, ?_⟩
      · rw [List.length_cons, length]
      · rintro value (_ | ⟨_, member⟩)
        · exact true
        · exact all value member

end Yields

theorem yields_bytes (count : Nat) : Yields (Read.bytes count) (·.length = count) := by
  refine Yields.any.bind fun cursor _ => Yields.ite (fun enough => Yields.any.bind fun _ _ => .pure ?_) fun _ => .fail _
  rw [List.length_take]
  exact Nat.min_eq_left enough

theorem yields_packedLength : Yields Read.packedLength (· < 2 ^ 29) := by
  refine Yields.any.bind fun first _ => ?_
  refine .ite (fun small => .pure ?_) fun _ => .ite (fun small => ?_) fun _ => .ite (fun small => ?_) fun _ => .fail _
  · exact Nat.lt_trans first.toNat_lt (by decide)
  · refine Yields.any.bind fun second _ => .pure ?_
    have one := first.toNat_lt
    have two := second.toNat_lt
    omega
  · refine Yields.any.bind fun second _ => Yields.any.bind fun third _ => Yields.any.bind fun fourth _ => .pure ?_
    have one : first.toNat < 0xE0 := small
    have two := second.toNat_lt
    have three := third.toNat_lt
    have four := fourth.toNat_lt
    omega

theorem fromUTF8?_size {content : List UInt8} {text : String} (stands : String.fromUTF8? ⟨content.toArray⟩ = some text) :
    text.utf8ByteSize = content.length := by
  rw [String.fromUTF8?] at stands
  split at stands
  · cases stands
    rfl
  · cases stands

/-- Text that was read is no longer than what can be written. -/
theorem yields_text? : Yields Read.text? fun text => ∀ content ∈ text, content.utf8ByteSize < 2 ^ 29 := by
  refine Yields.any.bind fun first _ => .ite (fun _ => Yields.any.bind fun _ _ => .pure nofun) fun _ => ?_
  refine yields_packedLength.bind fun length bounded => (yields_bytes length).bind fun content taken => ?_
  split
  · rename_i text stands
    refine .pure ?_
    rintro _ ⟨⟩
    rw [fromUTF8?_size stands, taken]
    exact bounded
  · exact Yields.any.bind fun _ _ => .fail _

end CilWeave
