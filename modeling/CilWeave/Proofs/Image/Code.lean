import CilWeave.Image.Code
import CilWeave.Proofs.Body.Restarting
import CilWeave.Proofs.Body.Soundness
import CilWeave.Proofs.Image.Signature

/-!
Code is read back from its image up to the counter of the body. What an image may lose are floating-point constants.
-/

namespace CilWeave

open Image

def Immediate.scalars : Immediate → List Scalar
  | .single value => [.single value]
  | .double value => [.double value]
  | _ => []

/-- The constant as it is read. -/
def Immediate.reread : Immediate → Immediate
  | .single value => .single value.reread
  | .double value => .double value.reread
  | value => value

def Operand.scalars : Operand → List Scalar
  | .immediate value => value.scalars
  | _ => []

def Operand.reread : Operand → Operand
  | .immediate value => .immediate value.reread
  | operand => operand

def Instruction.scalars (instruction : Instruction) : List Scalar := instruction.operand.scalars

def Instruction.reread (instruction : Instruction) : Instruction := { instruction with operand := instruction.operand.reread }

def Body.scalars (body : Body) : List Scalar := body.instructions.toList.flatMap Instruction.scalars

/-- The body as it is read: without its counter, and every constant is what its numeral stands for. -/
def Body.reread (body : Body) : Body := { body.restart with instructions := body.instructions.map Instruction.reread }

theorem Opcode.ofMnemonic?_mnemonic (opcode : Opcode) : Opcode.ofMnemonic? opcode.mnemonic = some opcode := by
  have each : ∀ opcode ∈ Opcode.all, Opcode.ofMnemonic? opcode.mnemonic = some opcode := by decide +kernel
  exact each opcode opcode.mem_all

theorem Opcode.lossless : Lossless Opcode :=
  fun opcode => .scalar (.string opcode.mnemonic) rfl fun _ => opcode.ofMnemonic?_mnemonic

theorem Immediate.kept (value : Immediate) : Kept value value.reread value.scalars := by
  cases value with
  | int8 value => exact ((kept_int8 value).map Immediate.int8).tag rfl fun _ => rfl
  | int32 value => exact ((kept_int32 value).map Immediate.int32).tag rfl fun _ => rfl
  | int64 value => exact ((kept_int64 value).map Immediate.int64).tag rfl fun _ => rfl
  | single value => exact ((kept_single value).map Immediate.single).tag rfl fun _ => rfl
  | double value => exact ((kept_double value).map Immediate.double).tag rfl fun _ => rfl

theorem Operand.kept (operand : Operand) : Kept operand operand.reread operand.scalars := by
  cases operand with
  | none => exact .scalar (.string "None") rfl fun _ => rfl
  | immediate value => exact (value.kept.map Operand.immediate).tag rfl fun _ => rfl
  | string text => exact ((kept_string text).map Operand.string).tag rfl fun _ => rfl
  | method reference => exact ((MethodRef.lossless reference).map Operand.method).tag rfl fun _ => rfl
  | field reference => exact ((FieldRef.lossless reference).map Operand.field).tag rfl fun _ => rfl
  | type sig => exact (sig.kept.map Operand.type).tag rfl fun _ => rfl
  | target id => exact ((kept_uint32 id).map Operand.target).tag rfl fun _ => rfl
  | switch ids => exact ((Lossless.list kept_uint32 ids).map Operand.switch).tag rfl fun _ => rfl
  | «local» index => exact ((kept_uint16 index).map Operand.local).tag rfl fun _ => rfl
  | argument index => exact ((kept_uint16 index).map Operand.argument).tag rfl fun _ => rfl

/-- An operand that is left out is read as none. -/
theorem restores_operand (operand : Operand) :
    Restores [(match operand with
        | .none => none
        | operand => member plain "operand" operand : Option (String × Json)).map fun pair => pair.2]
      (fun room => orElse? room Operand.none ((match operand with
        | .none => none
        | operand => member plain "operand" operand : Option (String × Json)).map fun pair => pair.2))
      operand.scalars operand.reread := by
  cases operand with
  | none => exact .absent fun _ => rfl
  | immediate | string | method | field | type | target | switch | «local» | argument => exact Operand.kept _

theorem fills_operand (operand : Operand) :
    Fills (match operand with
      | .none => none
      | operand => member plain "operand" operand) "operand" := by
  cases operand <;> simp [Fills, member]

theorem Instruction.kept (instruction : Instruction) : Kept instruction instruction.reread instruction.scalars := by
  have named := And.intro (fills_member plain "id" instruction.id) <|
    And.intro (fills_member plain "opcode" instruction.opcode) <|
    And.intro (fills_operand instruction.operand) trivial
  exact .record named (by decide)
    (.field (kept_uint32 _) (.field (Opcode.lossless _) (.field (restores_operand _) (.pure _))))
      (by simp [Instruction.scalars])

theorem Body.kept (body : Body) : Kept body body.reread body.scalars := by
  exact .record (by simp [Named]) (by decide)
    (.field (kept_uint16 _) (.field (kept_bool _) (.field (TypeSig.lossless.array _)
      (.field (kept_array fun instruction _ => instruction.kept) (.pure _))))) (by simp [Body.scalars])

theorem Operand.reread_eq (operand : Operand) (faithful : ∀ scalar ∈ operand.scalars, scalar.Faithful) :
    operand.reread = operand := by
  match operand with
  | .immediate (.single value) => rw [reread, Immediate.reread, Single.reread_eq (faithful _ List.mem_cons_self)]
  | .immediate (.double value) => rw [reread, Immediate.reread, Double.reread_eq (faithful _ List.mem_cons_self)]
  | .immediate (.int8 _) | .immediate (.int32 _) | .immediate (.int64 _) => rfl
  | .none | .string _ | .method _ | .field _ | .type _ | .target _ | .switch _ | .local _ | .argument _ => rfl

theorem Instruction.reread_eq (instruction : Instruction) (faithful : ∀ scalar ∈ instruction.scalars, scalar.Faithful) :
    instruction.reread = instruction := by
  rw [reread, Operand.reread_eq _ faithful]

theorem Body.reread_eq (body : Body) (faithful : ∀ scalar ∈ body.scalars, scalar.Faithful) :
    body.reread = body.restart := by
  have same := map_reread (fun instruction _ => instruction.reread_eq) faithful
  rw [List.map_id', ← Array.toList_map, Array.toList_inj] at same
  rw [reread, same]
  rfl

theorem Operand.targets_reread (operand : Operand) : operand.reread.targets = operand.targets := by
  cases operand <;> rfl

theorem Operand.fits_reread (operand : Operand) (kind : OperandKind) : operand.reread.fits kind = operand.fits kind := by
  match operand with
  | .immediate (.single _) | .immediate (.double _) => cases kind <;> rfl
  | .immediate (.int8 _) | .immediate (.int32 _) | .immediate (.int64 _) => rfl
  | .none | .string _ | .method _ | .field _ | .type _ | .target _ | .switch _ | .local _ | .argument _ => rfl

theorem Body.validate_reread (body : Body) : body.reread.validate = .ok () ↔ body.validate = .ok () := by
  have listed : body.reread.instructions.toList = body.instructions.toList.map Instruction.reread := Array.toList_map
  have ids : body.reread.ids = body.ids := by simp [Body.ids, listed, Instruction.reread]
  rw [Body.validate_iff, Body.validate_iff]
  constructor
  · intro whole
    refine ⟨ids ▸ whole.distinct, fun instruction member => ?_, fun instruction member target among => ?_⟩
    · have fits := whole.operands _ (listed ▸ List.mem_map_of_mem member)
      rwa [Instruction.wellFormed, Instruction.reread, Operand.fits_reread] at fits
    · rw [← ids]
      refine whole.targets _ (listed ▸ List.mem_map_of_mem member) target ?_
      rwa [Instruction.targets, Instruction.reread, Operand.targets_reread]
  · intro whole
    refine ⟨ids ▸ whole.distinct, fun changed member => ?_, fun changed member target among => ?_⟩
    · obtain ⟨instruction, held, rfl⟩ := List.mem_map.mp (listed ▸ member)
      rw [Instruction.wellFormed, Instruction.reread, Operand.fits_reread]
      exact whole.operands instruction held
    · obtain ⟨instruction, held, rfl⟩ := List.mem_map.mp (listed ▸ member)
      rw [Instruction.targets, Instruction.reread, Operand.targets_reread] at among
      exact ids ▸ whole.targets instruction held target among

end CilWeave
