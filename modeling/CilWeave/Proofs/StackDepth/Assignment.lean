import CilWeave.Proofs.StackDepth.Consistency

/-!
Depths by identity. Stack depths are consistent just when the instructions of a body can be given depths that agree wherever
control leads, and the depths that control brings are the least that do. Instructions keep their identities when code is put
in front of them, so depths that are given by identity carry over from one body to another.
-/

namespace CilWeave

namespace StackContext

/-- Depths of instructions that agree with each other wherever control leads. -/
structure Assigns (context : StackContext) (depth : InstrId → Nat → Prop) : Prop where
  entry : ∀ instruction, context.body.instructions[0]? = some instruction → depth instruction.id 0
  unique : ∀ id ∈ context.body.ids, ∀ held other, depth id held → depth id other → held = other
  usable : ∀ (position held : Nat) (instruction : Instruction), context.body.instructions[position]? = some instruction →
    depth instruction.id held → context.Usable position held instruction
  leads : ∀ (position held next : Nat) (instruction other : Instruction),
    context.body.instructions[position]? = some instruction → depth instruction.id held →
      context.Leads position instruction next → context.body.instructions[next]? = some other →
        depth other.id (context.depthAfter instruction held)

/-- Control comes to the instruction of an identity with a depth. -/
def Comes (context : StackContext) (id : InstrId) (depth : Nat) : Prop :=
  ∃ (position : Nat) (instruction : Instruction), context.body.instructions[position]? = some instruction ∧
    instruction.id = id ∧ context.Reaches position depth

/-- The same room with the instructions of another body. -/
def withCode (context : StackContext) (body : Body) : StackContext :=
  { context with body := { context.body with instructions := body.instructions } }

variable {context other : StackContext} {depth : InstrId → Nat → Prop} {id : InstrId} {held : Nat}

/-- Depths are consistent if they can be assigned. -/
theorem Assigns.consistent (assigns : context.Assigns depth) (nonempty : 0 < context.body.instructions.size) :
    context.Consistent := by
  have known {position held : Nat} (reaches : context.Reaches position held) :
      ∃ instruction, context.body.instructions[position]? = some instruction ∧ depth instruction.id held := by
    refine reaches_induction (motive := fun position held => ∃ instruction,
      context.body.instructions[position]? = some instruction ∧ depth instruction.id held) ?_ ?_ reaches
    · have first := Array.getElem?_eq_getElem nonempty
      exact ⟨_, first, assigns.entry _ first⟩
    · rintro position held instruction next - ⟨own, found, given⟩ same leads
      cases same.symm.trans found
      have inside := (assigns.usable position held instruction found given).target leads
      have there := Array.getElem?_eq_getElem inside
      exact ⟨_, there, assigns.leads position held next instruction _ found given leads there⟩
  refine ⟨nonempty, fun position held reaches => ?_, fun position held other one same => ?_⟩
  · obtain ⟨instruction, found, given⟩ := known reaches
    exact ⟨instruction, found, assigns.usable position held instruction found given⟩
  · obtain ⟨instruction, found, given⟩ := known one
    obtain ⟨_, again, too⟩ := known same
    cases found.symm.trans again
    exact assigns.unique _ (List.mem_map_of_mem (Array.mem_of_getElem? found).val) held other given too

/-- What control brings is an assignment if depths are consistent. -/
theorem Consistent.assigns (consistent : context.Consistent) (distinct : context.body.ids.Nodup) :
    context.Assigns context.Comes := by
  -- Identities are distinct, so control comes to an instruction in its position.
  have here {position held : Nat} {instruction : Instruction} (found : context.body.instructions[position]? = some instruction)
      (comes : context.Comes instruction.id held) : context.Reaches position held := by
    obtain ⟨place, own, there, same, reaches⟩ := comes
    have target := Body.target?_of_nodup distinct there
    rw [same, Body.target?_of_nodup distinct found] at target
    exact Option.some.inj target ▸ reaches
  have listed {position held : Nat} {instruction : Instruction}
      (found : context.body.instructions[position]? = some instruction) (comes : context.Comes instruction.id held) :
      context.Usable position held instruction := by
    obtain ⟨own, there, usable⟩ := consistent.usable position held (here found comes)
    cases found.symm.trans there
    exact usable
  refine ⟨fun instruction found => ⟨0, instruction, found, rfl, .entry⟩, fun id member held other one same => ?_,
    fun position held instruction found comes => listed found comes,
      fun position held next instruction last found comes leads there => ?_⟩
  · obtain ⟨position, instruction, found, rfl, reaches⟩ := one
    exact consistent.unique position held other reaches (here found same)
  · exact ⟨next, last, there, rfl, (here found comes).leads found (listed found comes) leads⟩

end StackContext

end CilWeave
