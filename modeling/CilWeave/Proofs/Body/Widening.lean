import CilWeave.Body.Layout
import CilWeave.Machine.Step

/-!
Widening changes nothing but the opcodes of short branches, which the long forms do just the same.
-/

namespace CilWeave

/-- The same instruction, unless it is a short branch and the other its long form. -/
structure Instruction.Widens (narrow wide : Instruction) : Prop where
  id : wide.id = narrow.id
  operand : wide.operand = narrow.operand
  opcode : wide.opcode = narrow.opcode ∨ narrow.opcode.longForm? = some wide.opcode

/-- Long forms are not widened any more. -/
theorem Opcode.longForm?_longForm {short long : Opcode} (widened : short.longForm? = some long) :
    long.longForm? = none := by
  cases short <;> simp only [Opcode.longForm?, Option.some.injEq, reduceCtorEq] at widened <;> subst widened <;> rfl

namespace Instruction.Widens

theorem refl (instruction : Instruction) : instruction.Widens instruction := ⟨rfl, rfl, .inl rfl⟩

theorem trans {narrow middle wide : Instruction} (first : narrow.Widens middle) (second : middle.Widens wide) :
    narrow.Widens wide := by
  refine ⟨second.id.trans first.id, second.operand.trans first.operand, ?_⟩
  rcases first.opcode with same | widened
  · rw [← same]
    exact second.opcode
  · rcases second.opcode with same | again
    · rw [same]
      exact .inr widened
    · rw [Opcode.longForm?_longForm widened] at again
      cases again

theorem targets {narrow wide : Instruction} (widens : narrow.Widens wide) : wide.targets = narrow.targets := by
  rw [Instruction.targets, widens.operand, Instruction.targets]

/-- A long branch does what the short one does. -/
theorem execute {narrow wide : Instruction} (widens : narrow.Widens wide) (program : Machine.Program) :
    Machine.execute program wide = Machine.execute program narrow := by
  obtain ⟨id, opcode, operand⟩ := narrow
  obtain ⟨wideId, wideOpcode, wideOperand⟩ := wide
  obtain ⟨sameId, sameOperand, changed⟩ := widens
  simp only at sameId sameOperand changed
  subst sameId sameOperand
  rcases changed with rfl | widened
  · rfl
  · cases opcode <;> simp only [Opcode.longForm?, Option.some.injEq, reduceCtorEq] at widened <;> subst widened <;> rfl

end Instruction.Widens

/-- A short branch is widened if it has a distance to go that is too long for it. -/
theorem Layout.widened?_eq_some {layout : Layout} {instruction : Instruction} {long : Opcode} :
    layout.widened? instruction = some long ↔
      instruction.opcode.longForm? = some long ∧ ∃ displacement, layout.displacement? instruction = some displacement ∧
        reachesShort displacement = false := by
  simp only [widened?, Option.bind_eq_bind, Option.bind_eq_some_iff]
  constructor
  · rintro ⟨opcode, form, displacement, goes, chosen⟩
    split at chosen
    · cases chosen
    · rename_i far
      cases chosen
      exact ⟨form, displacement, goes, Bool.not_eq_true _ ▸ far⟩
  · rintro ⟨form, displacement, goes, far⟩
    exact ⟨long, form, displacement, goes, by simp [far]⟩

theorem Layout.widen_widens (layout : Layout) (instruction : Instruction) :
    instruction.Widens (layout.widen instruction) := by
  refine ⟨rfl, rfl, ?_⟩
  cases widened : layout.widened? instruction with
  | none => exact .inl (by simp [Layout.widen, widened])
  | some long => exact .inr (by simp [Layout.widen, widened, (widened?_eq_some.mp widened).1])

namespace Body

variable {body wide : Body}

/-- Two bodies of which the second differs only by widened branches. -/
structure Widens (body wide : Body) : Prop where
  rest : wide = { body with instructions := wide.instructions }
  size : wide.instructions.size = body.instructions.size
  instructions : ∀ (position : Nat) (instruction : Instruction), body.instructions[position]? = some instruction →
    ∃ widened, wide.instructions[position]? = some widened ∧ instruction.Widens widened

theorem Widens.ids (widens : body.Widens wide) : wide.ids = body.ids := by
  refine List.ext_getElem? fun position => ?_
  simp only [Body.ids, List.getElem?_map, Array.getElem?_toList]
  cases found : body.instructions[position]? with
  | some instruction =>
      obtain ⟨widened, same, changed⟩ := widens.instructions position instruction found
      simp [same, changed.id]
  | none =>
      have outside := Array.getElem?_eq_none_iff.mp found
      rw [Array.getElem?_eq_none (widens.size ▸ outside)]

theorem Widens.target? (widens : body.Widens wide) (id : InstrId) : wide.target? id = body.target? id := by
  simp only [Body.target?, widens.ids]

theorem widens_map {widen : Instruction → Instruction}
    (each : ∀ instruction : Instruction, instruction.Widens (widen instruction)) :
    body.Widens { body with instructions := body.instructions.map widen } :=
  ⟨rfl, by simp, fun position instruction found => ⟨widen instruction, by simp [found], each instruction⟩⟩

/-- Widening changes each instruction by itself. -/
theorem relaxWithin_map (bound : Nat) (body : Body) : ∃ widen : Instruction → Instruction,
    (∀ instruction : Instruction, instruction.Widens (widen instruction)) ∧
      (relaxWithin bound body).2 = { body with instructions := body.instructions.map widen } := by
  induction bound generalizing body with
  | zero => exact ⟨id, fun _ => .refl _, by simp [relaxWithin]⟩
  | succ bound ih =>
      unfold relaxWithin
      dsimp only
      split
      · exact ⟨id, fun _ => .refl _, by simp⟩
      · obtain ⟨widen, widens, same⟩ := ih body.widenPass.2
        refine ⟨widen ∘ body.layout.widen, fun instruction => ?_, ?_⟩
        · exact (body.layout.widen_widens instruction).trans (widens _)
        · exact same.trans (by simp [widenPass])

theorem relaxWithin_widens (bound : Nat) (body : Body) : body.Widens (relaxWithin bound body).2 := by
  obtain ⟨widen, widens, same⟩ := relaxWithin_map bound body
  exact same ▸ widens_map widens

theorem relax_widens (body : Body) : body.Widens body.relax.2 := relaxWithin_widens _ body

end Body

end CilWeave
