import Mathlib.Data.List.Nodup
import CilWeave.Mixin.Locating
import CilWeave.Proofs.Body.Position

/-!
The places that locations stand for. Going back from a return stops at the latest after the return
before it, so the places of two returns differ.
-/

namespace CilWeave.Body

variable {body : Body}

theorem splicePosition_le (body : Body) (position : Nat) : body.splicePosition position ≤ position := by
  induction position with
  | zero => exact Nat.le_refl 0
  | succ position ih =>
      simp only [splicePosition]
      split
      · exact Nat.le_succ_of_le ih
      · exact Nat.le_refl _

theorem splicePosition_congr {same : Body} (instructions : same.instructions = body.instructions) (position : Nat) :
    same.splicePosition position = body.splicePosition position := by
  induction position with
  | zero => rfl
  | succ position ih => simp only [splicePosition, instructions, ih]

/-- Everything that was passed going back pushes a value. -/
theorem pushes_of_between {position between : Nat} (after : body.splicePosition position ≤ between)
    (before : between < position) :
    ∃ instruction, body.instructions[between]? = some instruction ∧ instruction.pushesValue = true := by
  induction position with
  | zero => cases before
  | succ position ih =>
      simp only [splicePosition] at after
      split at after
      · rename_i pushes
        rcases Nat.lt_succ_iff_lt_or_eq.mp before with less | rfl
        · exact ih after less
        · simpa [Option.any_eq_true] using pushes
      · exact absurd after (Nat.not_le.mpr before)

/-- The way back ends at the start or behind an instruction that leaves nothing. -/
theorem splicePosition_stops {position : Nat} (inside : position ≤ body.instructions.size) :
    body.splicePosition position = 0 ∨ ∃ before instruction, body.splicePosition position = before + 1 ∧
      body.instructions[before]? = some instruction ∧ instruction.pushesValue = false := by
  induction position with
  | zero => exact .inl rfl
  | succ position ih =>
      obtain ⟨instruction, found⟩ : ∃ instruction, body.instructions[position]? = some instruction :=
        ⟨_, Array.getElem?_eq_getElem inside⟩
      simp only [splicePosition, found, Option.any_some]
      split
      · exact ih (Nat.le_of_lt inside)
      · rename_i leaves
        exact .inr ⟨position, instruction, rfl, found, by simpa using leaves⟩

theorem mem_returnPositions {position : Nat} :
    position ∈ body.returnPositions ↔
      ∃ instruction, body.instructions[position]? = some instruction ∧ instruction.opcode = .ret := by
  simp only [returnPositions, List.mem_filter, List.mem_range, Option.any_eq_true, beq_iff_eq]
  constructor
  · rintro ⟨-, held⟩
    exact held
  · rintro ⟨instruction, found, returns⟩
    exact ⟨(Array.getElem?_eq_some_iff.mp found).1, instruction, found, returns⟩

theorem lt_size_of_returns {position : Nat} (returns : position ∈ body.returnPositions) :
    position < body.instructions.size := by
  obtain ⟨instruction, found, -⟩ := mem_returnPositions.mp returns
  exact (Array.getElem?_eq_some_iff.mp found).1

theorem returnPositions_ordered (body : Body) : body.returnPositions.Pairwise (· < ·) := List.pairwise_lt_range.filter _

/-- The place of a later return lies behind an earlier return. -/
theorem lt_splicePosition {earlier later : Nat} (returns : earlier ∈ body.returnPositions) (less : earlier < later) :
    earlier < body.splicePosition later := by
  rcases Nat.lt_or_ge earlier (body.splicePosition later) with behind | before
  · exact behind
  · obtain ⟨instruction, found, pushes⟩ := pushes_of_between before less
    obtain ⟨same, held, opcode⟩ := mem_returnPositions.mp returns
    rw [found] at held
    cases held
    simp [Instruction.pushesValue, opcode, Opcode.info] at pushes

theorem idAt?_mem {position : Nat} {id : InstrId} (found : body.idAt? position = some id) : id ∈ body.ids := by
  obtain ⟨instruction, held, rfl⟩ := Option.map_eq_some_iff.mp found
  exact List.mem_map_of_mem (List.mem_of_getElem? (by rwa [Array.getElem?_toList]))

theorem idAt?_inj (distinct : body.ids.Nodup) {left right : Nat} {id : InstrId}
    (first : body.idAt? left = some id) (second : body.idAt? right = some id) : left = right := by
  obtain ⟨instruction, held, rfl⟩ := Option.map_eq_some_iff.mp first
  obtain ⟨other, found, same⟩ := Option.map_eq_some_iff.mp second
  have target := target?_of_nodup distinct held
  rw [← same, target?_of_nodup distinct found] at target
  exact (Option.some.inj target).symm

theorem position?_of_idAt? (distinct : body.ids.Nodup) {position : Nat} {id : InstrId}
    (found : body.idAt? position = some id) : body.position? id = some position := by
  obtain ⟨instruction, held, rfl⟩ := Option.map_eq_some_iff.mp found
  obtain ⟨inside, rfl⟩ := Array.getElem?_eq_some_iff.mp held
  refine Array.findIdx?_eq_some_iff_getElem.mpr ⟨inside, beq_self_eq_true _, fun earlier less same => ?_⟩
  have again : body.idAt? earlier = some body.instructions[position].id := by
    rw [idAt?, Array.getElem?_eq_getElem (Nat.lt_trans less inside), Option.map_some, beq_iff_eq.mp same]
  exact Nat.ne_of_lt less (idAt?_inj distinct again found)

theorem mem_locate {location : Location} {id : InstrId} (member : id ∈ body.locate location) : id ∈ body.ids := by
  cases location with
  | head => exact idAt?_mem (by simpa [locate] using member)
  | «return» =>
      obtain ⟨position, -, found⟩ := List.mem_filterMap.mp member
      exact idAt?_mem found
  | instruction text =>
      simp only [locate, Option.mem_toList] at member
      obtain ⟨position, -, found⟩ := Option.bind_eq_some_iff.mp member
      exact idAt?_mem found

/-- No place is found twice. -/
theorem locate_nodup (distinct : body.ids.Nodup) (location : Location) : (body.locate location).Nodup := by
  have single (id : Option InstrId) : id.toList.Nodup := by cases id <;> simp
  cases location with
  | head => exact single _
  | «return» =>
      refine List.pairwise_filterMap.mpr ((returnPositions_ordered body).imp_of_mem ?_)
      intro earlier later returns _ less id found other held same
      subst same
      have behind := lt_splicePosition returns less
      rw [idAt?_inj distinct held found] at behind
      exact absurd behind (Nat.not_lt.mpr (splicePosition_le body earlier))
  | instruction text => exact single _

end CilWeave.Body
