import CilWeave.Body.WellFormed
import CilWeave.Proofs.Stateful

/-!
Identities and positions: what a valid body guarantees, and where its branches go.
-/

namespace CilWeave

theorem lastIndex?_found {id : InstrId} {ids : List InstrId} {position : Nat}
    (found : lastIndex? id ids = some position) : ids[position]? = some id := by
  induction ids generalizing position with
  | nil => simp [lastIndex?] at found
  | cons head rest ih =>
      simp only [lastIndex?] at found
      cases later : lastIndex? id rest with
      | some index =>
          rw [later] at found
          cases found
          exact ih later
      | none =>
          simp only [later] at found
          split at found
          · rename_i same
            cases found
            simp [same]
          · cases found

theorem lastIndex?_of_nodup {ids : List InstrId} {position : Nat} {id : InstrId} (distinct : ids.Nodup)
    (found : ids[position]? = some id) : lastIndex? id ids = some position := by
  induction ids generalizing position with
  | nil => cases found
  | cons head rest ih =>
      obtain ⟨absent, others⟩ := List.nodup_cons.mp distinct
      cases position with
      | zero =>
          cases found
          cases later : lastIndex? id rest with
          | none => simp [lastIndex?, later]
          | some index => exact absurd (List.mem_of_getElem? (lastIndex?_found later)) absent
      | succ position => simp only [lastIndex?, ih others found]

theorem lastIndex?_of_mem {id : InstrId} {ids : List InstrId} (member : id ∈ ids) :
    ∃ position, lastIndex? id ids = some position := by
  induction ids with
  | nil => cases member
  | cons head rest ih =>
      simp only [lastIndex?]
      cases later : lastIndex? id rest with
      | some index => exact ⟨_, rfl⟩
      | none =>
          have first : head = id := by
            refine ((List.mem_cons.mp member).resolve_right fun among => ?_).symm
            obtain ⟨index, found⟩ := ih among
            cases later.symm.trans found
          exact ⟨0, if_pos first⟩

namespace Body

variable {body : Body}

theorem target?_lt {id : InstrId} {position : Nat} (found : body.target? id = some position) :
    position < body.instructions.size := by
  simpa [ids] using (List.getElem?_eq_some_iff.mp (lastIndex?_found found)).1

theorem target?_of_nodup {position : Nat} {instruction : Instruction} (distinct : body.ids.Nodup)
    (found : body.instructions[position]? = some instruction) : body.target? instruction.id = some position :=
  lastIndex?_of_nodup distinct (by simp [ids, found])

theorem target?_found {id : InstrId} {position : Nat} (found : body.target? id = some position) :
    ∃ instruction, body.instructions[position]? = some instruction ∧ instruction.id = id := by
  simpa [ids] using lastIndex?_found found

theorem target?_of_mem {id : InstrId} (member : id ∈ body.ids) : ∃ position, body.target? id = some position :=
  lastIndex?_of_mem member

theorem target?_congr {same : Body} (instructions : same.instructions = body.instructions) (id : InstrId) :
    same.target? id = body.target? id := by
  rw [Body.target?, Body.ids, instructions, Body.target?, Body.ids]

theorem position?_of_split {before after : List Instruction} {own : Instruction}
    (split : body.instructions.toList = before ++ own :: after)
    (earlier : ∀ instruction ∈ before, instruction.id ≠ own.id) : body.position? own.id = some before.length := by
  have absent : before.findIdx? (fun instruction => instruction.id == own.id) = none := by
    rw [List.findIdx?_eq_none_iff]
    exact fun instruction among => beq_false_of_ne (earlier instruction among)
  rw [position?, show body.instructions = (before ++ own :: after).toArray from by simp [← split],
    List.findIdx?_toArray, List.findIdx?_append, absent]
  simp [List.findIdx?_cons]

/-- A sequence put in front of an instruction stands between what was before it and the instruction. -/
theorem insertBefore_ok {before after : List Instruction} {own : Instruction}
    (split : body.instructions.toList = before ++ own :: after)
    (earlier : ∀ instruction ∈ before, instruction.id ≠ own.id) (sequence : Array Instruction) :
    ∃ next, body.insertBefore own.id sequence = .ok next ∧
      next = { body with instructions := next.instructions } ∧
      next.instructions.toList = before ++ sequence.toList ++ own :: after := by
  refine ⟨_, by rw [insertBefore, position?_of_split split earlier], rfl, ?_⟩
  have rest : body.instructions.size - before.length = after.length + 1 := by
    rw [← Array.length_toList, split]
    simp
  simp [insertAt, split, rest]

theorem checkInstruction_ok_iff {instruction : Instruction} : body.checkInstruction instruction = .ok () ↔
    instruction.wellFormed = true ∧ ∀ target ∈ instruction.targets, target ∈ body.ids := by
  have present : (∀ target ∈ instruction.targets, target ∈ body.ids) ↔
      (instruction.targets.find? fun target => !body.ids.contains target) = none := by
    simp [List.find?_eq_none]
  rw [present, checkInstruction, checkTargets]
  split
  · rename_i wellFormed
    cases instruction.targets.find? fun target => !body.ids.contains target <;> simp [wellFormed]
  · rename_i malformed
    simp [malformed]

/-- What a valid body is. -/
theorem validate_ok (valid : body.validate = .ok ()) :
    body.ids.Nodup ∧ ∀ instruction ∈ body.instructions.toList,
      instruction.wellFormed = true ∧ ∀ target ∈ instruction.targets, target ∈ body.ids := by
  unfold validate at valid
  split at valid
  · rename_i distinct
    exact ⟨distinct, fun instruction member => checkInstruction_ok_iff.mp
      (Stateful.forM_ok_iff.mp valid instruction member)⟩
  · cases valid

end Body

end CilWeave
