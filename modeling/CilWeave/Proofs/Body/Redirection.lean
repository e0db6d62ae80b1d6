import CilWeave.Machine.Step
import CilWeave.Proofs.Stateful

/-!
Redirecting branches changes nothing but where jumps go.
-/

namespace CilWeave

/-- The operand with its targets renamed twice. -/
theorem Operand.mapTargets_mapTargets (operand : Operand) (first second : InstrId → InstrId) :
    (operand.mapTargets first).mapTargets second = operand.mapTargets fun id => second (first id) := by
  cases operand <;> simp [Operand.mapTargets]

theorem Operand.targets_mapTargets (operand : Operand) (rename : InstrId → InstrId) :
    (operand.mapTargets rename).targets = operand.targets.map rename := by
  cases operand <;> rfl

theorem Operand.mapTargets_id (operand : Operand) : operand.mapTargets (fun id => id) = operand := by
  cases operand <;> simp [Operand.mapTargets]

/-- The instruction with its targets renamed. -/
def Instruction.redirect (rename : InstrId → InstrId) (instruction : Instruction) : Instruction :=
  { instruction with operand := instruction.operand.mapTargets rename }

namespace Machine

/-- Jumps go to the renamed target. -/
def Control.redirect (rename : InstrId → InstrId) : Control → Control
  | .jump target => .jump (rename target)
  | control => control

namespace Action

variable (rename : InstrId → InstrId) (operand : Operand)

theorem constant?_mapTargets : constant? (operand.mapTargets rename) = constant? operand := by cases operand <;> rfl

theorem defaultOf_mapTargets : defaultOf (operand.mapTargets rename) = defaultOf operand := by cases operand <;> rfl

theorem fieldOperand_mapTargets : fieldOperand (operand.mapTargets rename) = fieldOperand operand := by
  cases operand <;> rfl

theorem loadStatic_mapTargets : loadStatic (operand.mapTargets rename) = loadStatic operand := by
  cases operand <;> rfl

theorem storeStatic_mapTargets : storeStatic (operand.mapTargets rename) = storeStatic operand := by
  cases operand <;> rfl

theorem method?_mapTargets : (operand.mapTargets rename).method? = operand.method? := by cases operand <;> rfl

theorem branch_mapTargets (taken : Bool) :
    branch (operand.mapTargets rename) taken = (branch operand taken).redirect rename := by
  cases operand <;> cases taken <;> rfl

theorem redirect_andNext (action : Action Unit) : Control.redirect rename <$> andNext action = andNext action := by
  simp [andNext, Control.redirect]

theorem redirect_switch :
    Control.redirect rename <$> switch operand = switch (operand.mapTargets rename) := by
  simp only [switch, map_bind]
  congr 1
  funext index
  cases operand
  case switch targets =>
    simp only [Operand.mapTargets, map_pure, List.getElem?_map]
    congr 1
    cases index? index with
    | none => rfl
    | some index =>
        simp only [Option.bind_some]
        cases targets[index]? <;> rfl
  all_goals simp [Operand.mapTargets, Control.redirect]

theorem redirect_branchIf (condition : Bool) :
    Control.redirect rename <$> branchIf operand condition = branchIf (operand.mapTargets rename) condition := by
  simp [branchIf, branch_mapTargets]

theorem redirect_branchCompare (operation : CompareOp) :
    Control.redirect rename <$> branchCompare operand operation =
      branchCompare (operand.mapTargets rename) operation := by
  simp [branchCompare, branch_mapTargets]

theorem call_mapTargets (program : Program) : call program (operand.mapTargets rename) = call program operand := by
  simp only [call, method?_mapTargets]

theorem construct_mapTargets (program : Program) :
    construct program (operand.mapTargets rename) = construct program operand := by
  simp only [construct, method?_mapTargets]

theorem redirect_call (program : Program) : Control.redirect rename <$> call program operand = call program operand := by
  unfold call
  cases operand.method? with
  | none => rfl
  | some reference =>
      simp only [map_bind]
      congr 1
      funext args
      congr 1
      funext result
      cases result with
      | none => simp [Control.redirect]
      | some value =>
          cases reference.returns.isVoid <;> simp [Control.redirect]

theorem redirect_construct (program : Program) :
    Control.redirect rename <$> construct program operand = construct program operand := by
  unfold construct
  cases operand.method? with
  | none => rfl
  | some constructor =>
      simp only [map_bind]
      congr 1
      funext args
      split
      · simp [Control.redirect]
      · simp only [map_bind]
        congr 1
        funext reference
        congr 1
        funext type
        congr 1
        funext object
        cases program.method? constructor <;> simp [Control.redirect]

end Action

open CilWeave.Machine.Action in
/-- A redirected instruction does what it did, and jumps where it was redirected to. -/
theorem execute_redirect (program : Program) (rename : InstrId → InstrId) (instruction : Instruction) :
    execute program (instruction.redirect rename) = Control.redirect rename <$> execute program instruction := by
  obtain ⟨id, opcode, operand⟩ := instruction
  have argument : Instruction.argument? ⟨id, opcode, operand.mapTargets rename⟩ =
    Instruction.argument? ⟨id, opcode, operand⟩ := by
    cases operand <;> rfl
  have slot : Instruction.local? ⟨id, opcode, operand.mapTargets rename⟩ =
    Instruction.local? ⟨id, opcode, operand⟩ := by
    cases operand <;> rfl
  simp only [Instruction.redirect]
  cases opcode <;> simp only [execute, argument, slot, redirect_andNext, constant?_mapTargets, defaultOf_mapTargets]
  case nop | box | unboxAny | castclass | isinst => simp [Control.redirect]
  case ldstr => cases operand <;> rfl
  case br | brS => simp [branch_mapTargets]
  case brtrue | brtrueS | brfalse | brfalseS => exact (redirect_branchIf rename operand _).symm
  case beq | beqS | bneUn | bneUnS | bge | bgeS | bgt | bgtS | ble | bleS | blt | bltS =>
    exact (redirect_branchCompare rename operand _).symm
  case switch => exact (redirect_switch rename operand).symm
  case ldfld => simp only [loadField, fieldOperand_mapTargets]
  case stfld => simp only [storeField, fieldOperand_mapTargets]
  case ldsfld => rw [loadStatic_mapTargets]
  case stsfld => rw [storeStatic_mapTargets]
  case newarr => simp only [newArray, defaultOf_mapTargets]
  case call | callvirt => rw [call_mapTargets, redirect_call]
  case newobj => rw [construct_mapTargets, redirect_construct]
  case ret =>
    simp only [map_bind]
    congr 1
    funext state
    cases state.active.returnsValue <;> simp [Control.redirect]
  case throw => simp
  case ldflda | ldsflda => rfl

theorem mapTargets_of_fixed {rename : InstrId → InstrId} {operand : Operand}
    (fixed : ∀ id ∈ operand.targets, rename id = id) : operand.mapTargets rename = operand := by
  cases operand <;> simp only [Operand.mapTargets, Operand.targets] at fixed ⊢
  case target id => rw [fixed id List.mem_cons_self]
  case switch ids => rw [List.map_congr_left fixed, List.map_id']

/-- Jumps go to targets: a renaming that leaves the targets alone would move any other jump. -/
theorem execute_jump {program : Program} {instruction : Instruction} {state after : State} {target : InstrId}
    (ran : (execute program instruction).run.run state = (.ok (.jump target), after)) :
    target ∈ instruction.targets := by
  let rename : InstrId → InstrId := fun id => if id ∈ instruction.targets then id else id + 1
  have fixed : instruction.redirect rename = instruction := by
    have same : instruction.operand.mapTargets rename = instruction.operand :=
      mapTargets_of_fixed fun id member => if_pos member
    rw [Instruction.redirect, same]
  have moved := execute_redirect program rename instruction
  rw [fixed] at moved
  have again := congrArg (fun action : Action Control => action.run.run state) moved
  simp only [Stateful.run_map, ran, Control.redirect] at again
  have same : target = rename target := Control.jump.inj (Except.ok.inj (Prod.mk.inj again).1)
  by_cases member : target ∈ instruction.targets
  · exact member
  · rw [show rename target = target + 1 from if_neg member] at same
    exact absurd (UInt32.left_eq_add.mp same) (by decide)

end Machine

end CilWeave
