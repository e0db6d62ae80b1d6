import CilWeave.Proofs.Mixin.Locating
import CilWeave.Proofs.StackDepth.Soundness

/-!
The stack at the places that locations stand for. The way back from an instruction ends at the first one
that leaves nothing on the stack. That one need not take all that the stack holds, so values put there
before it may still lie at the place.
-/

namespace CilWeave

theorem Instruction.pushes_eq_zero {instruction : Instruction} (leaves : instruction.pushesValue = false) :
    instruction.pushes = 0 := by
  unfold pushes
  cases pushed : instruction.opcode.info.push with
  | fixed count => simpa [pushesValue, pushed] using leaves
  | perMethod => simp [leaves]

namespace Body

variable {body : Body}

/-- A place is the end of the way back from some instruction. -/
theorem locate_splice {location : Location} {id : InstrId} (point : id ∈ body.locate location) :
    ∃ position, position < body.instructions.size ∧ body.spliceId? position = some id := by
  have within {position : Nat} (found : body.idAt? position = some id) : position < body.instructions.size := by
    obtain ⟨instruction, held, -⟩ := Option.map_eq_some_iff.mp found
    exact (Array.getElem?_eq_some_iff.mp held).1
  cases location with
  | head =>
      have first : body.idAt? 0 = some id := by simpa [locate] using point
      exact ⟨0, within first, first⟩
  | «return» =>
      obtain ⟨position, returns, found⟩ := List.mem_filterMap.mp point
      exact ⟨position, lt_size_of_returns returns, found⟩
  | instruction text =>
      simp only [locate, Option.mem_toList] at point
      obtain ⟨position, listed, found⟩ := Option.bind_eq_some_iff.mp point
      have bound := (List.findIdx?_eq_some_iff_getElem.mp listed).1
      exact ⟨position, by simpa [listing] using bound, found⟩

end Body

/-- A place that control reaches is the first position, with an empty stack, or it stands behind an
instruction that pushes nothing, and holds what that instruction left of the stack. So it sits on an
empty stack only if the instruction in front of it takes everything. -/
theorem MethodDef.point_depth {method : MethodDef} {body : Body} {greatest : UInt16} (defined : method.body = some body)
    (valid : body.validate = .ok ()) (verified : method.maxDepth = .ok greatest) {location : Location} {id : InstrId}
    (point : id ∈ body.locate location) {position depth : Nat} (target : body.target? id = some position)
    (reached : method.depthAt? position = some depth) :
    (position = 0 ∧ depth = 0) ∨ ∃ before instruction, position = before + 1 ∧
      body.instructions[before]? = some instruction ∧ instruction.pushesValue = false ∧
      ∀ held, method.depthAt? before = some held → instruction.fallsThrough = true →
        held = depth + instruction.pops := by
  obtain ⟨from_, inside, found⟩ := Body.locate_splice point
  obtain ⟨distinct, -⟩ := Body.validate_ok valid
  obtain ⟨own, held, same⟩ := Option.map_eq_some_iff.mp found
  have place := Body.target?_of_nodup distinct held
  rw [same, target, Option.some.injEq] at place
  subst place
  have context := stackContext?_of_body defined
  rw [maxDepth_of_body defined] at verified
  simp only [depthAt?, context, Option.bind_some] at reached ⊢
  rcases Body.splicePosition_stops (Nat.le_of_lt inside) with start | ⟨before, instruction, behind, there, leaves⟩
  · rw [start, StackContext.depthAt?_entry verified] at reached
    exact .inl ⟨start, (Option.some.inj reached).symm⟩
  · refine .inr ⟨before, instruction, behind, there, leaves, fun held given falls => ?_⟩
    obtain ⟨visited, successors, here, used, goes, known, -⟩ := StackContext.depthAt?_settled verified given
    cases there.symm.trans here
    obtain ⟨-, -, covered, -⟩ := StackContext.checkUse_ok used
    have next := known _ ((StackContext.successors_ok goes).2.1 falls).1
    rw [← behind, reached, Option.some.injEq, StackContext.depthAfter, Instruction.pushes_eq_zero leaves] at next
    simp only [StackContext.pops, Machine.fallsThrough_ne_ret falls, if_false] at covered next
    omega

namespace Parked

/-- A method that keeps the value it returns on the stack while it stores another one. -/
def method : MethodDef :=
  ⟨"Keep", ⟨MethodFlags.isStatic⟩, .primitive .int32, [],
    some ⟨8, true, #[.primitive .int32],
      #[⟨0, .ldcI41, .none⟩, ⟨1, .ldcI42, .none⟩, ⟨2, .stloc0, .none⟩, ⟨3, .ret, .none⟩], 0⟩, []⟩

def body : Body := method.body.getD default

/-- The place of its return is the return itself, where the kept value lies. -/
theorem point_depth_return :
    method.maxDepth = .ok 2 ∧ (3 ∈ body.locate .return ∧ method.depthAt? 3 = some 1) ∧
      ((3 = 0 ∧ 1 = 0) ∨ ∃ before instruction, 3 = before + 1 ∧
        body.instructions[before]? = some instruction ∧ instruction.pushesValue = false ∧
        ∀ held, method.depthAt? before = some held → instruction.fallsThrough = true → held = 1 + instruction.pops) := by
  have valid : body.validate = .ok () := rfl
  have verified : method.maxDepth = .ok 2 := rfl
  have point : 3 ∈ body.locate .return := by decide +kernel
  have target : body.target? 3 = some 3 := by decide +kernel
  have reached : method.depthAt? 3 = some 1 := by decide +kernel
  exact ⟨verified, ⟨point, reached⟩, MethodDef.point_depth rfl valid verified point target reached⟩

/-- Not every place that control reaches sits on an empty stack. -/
theorem point_not_empty :
    ¬∀ (method : MethodDef) (body : Body) (greatest : UInt16) (location : Location) (id : InstrId) (position depth : Nat),
      method.body = some body → body.validate = .ok () → method.maxDepth = .ok greatest → id ∈ body.locate location →
        body.target? id = some position → method.depthAt? position = some depth → depth = 0 := by
  intro empty
  have kept : 1 = 0 :=
    empty method body 2 .return 3 3 1 rfl rfl rfl (by decide +kernel) (by decide +kernel) (by decide +kernel)
  exact absurd kept (by decide)

end Parked

end CilWeave
