import CilWeave.Proofs.Body.Position
import CilWeave.Proofs.Body.Widening

/-!
Sound bodies: identities are distinct, operands fit, branches stay in the body, and short branches reach
their targets. Widening comes to an end with no short branch out of reach, so it makes every body sound
whose references hold together.
-/

namespace CilWeave

/-- The short branches are the opcodes that have a long form. -/
theorem Opcode.isSome_longForm? (opcode : Opcode) :
    opcode.longForm?.isSome = true ↔ opcode.operandKind = .shortTarget := by
  cases opcode <;> decide

theorem Opcode.operandKind_longForm {short long : Opcode} (widened : short.longForm? = some long) :
    short.operandKind = .shortTarget ∧ long.operandKind = .target := by
  cases short <;> simp only [Opcode.longForm?, Option.some.injEq, reduceCtorEq] at widened <;> subst widened <;>
    exact ⟨rfl, rfl⟩

theorem Operand.fits_shortTarget {operand : Operand} (fits : operand.fits .shortTarget = true) :
    ∃ id, operand = .target id := by
  cases operand with
  | target id => exact ⟨id, rfl⟩
  | immediate value => cases value <;> cases fits
  | none | string _ | method _ | field _ | type _ | switch _ | «local» _ | argument _ => cases fits

/-- A widened branch takes the target that the short one took. -/
theorem Instruction.Widens.wellFormed {narrow wide : Instruction} (widens : narrow.Widens wide)
    (fits : narrow.wellFormed = true) : wide.wellFormed = true := by
  rw [Instruction.wellFormed, widens.operand]
  rcases widens.opcode with same | widened
  · rw [same]
    exact fits
  · obtain ⟨short, long⟩ := Opcode.operandKind_longForm widened
    rw [Instruction.wellFormed, short] at fits
    obtain ⟨id, target⟩ := Operand.fits_shortTarget fits
    rw [long, target]
    rfl

namespace Body

variable {body wide : Body}

/-- The references of a body hold together. -/
structure Coherent (body : Body) : Prop where
  distinct : body.ids.Nodup
  operands : ∀ instruction ∈ body.instructions.toList, instruction.wellFormed = true
  targets : ∀ instruction ∈ body.instructions.toList, ∀ target ∈ instruction.targets, target ∈ body.ids

/-- A coherent body whose short branches all have a distance to go that fits a signed byte. -/
structure Sound (body : Body) : Prop extends body.Coherent where
  short : ∀ instruction ∈ body.instructions.toList, instruction.opcode.operandKind = .shortTarget →
    ∃ displacement, body.layout.displacement? instruction = some displacement ∧ -128 ≤ displacement ∧
      displacement ≤ 127

theorem Coherent.validate (coherent : body.Coherent) : body.validate = .ok () := by
  rw [Body.validate, if_pos coherent.distinct]
  exact Stateful.forM_ok_iff.mpr fun instruction member =>
    checkInstruction_ok_iff.mpr ⟨coherent.operands instruction member, coherent.targets instruction member⟩

/-- Validation accepts exactly the coherent bodies. -/
theorem validate_iff : body.validate = .ok () ↔ body.Coherent := by
  refine ⟨fun valid => ?_, Coherent.validate⟩
  obtain ⟨distinct, held⟩ := validate_ok valid
  exact ⟨distinct, fun instruction member => (held instruction member).1,
    fun instruction member => (held instruction member).2⟩

theorem Widens.mem (widens : body.Widens wide) {instruction : Instruction} (member : instruction ∈ wide.instructions.toList) :
    ∃ narrow ∈ body.instructions.toList, narrow.Widens instruction := by
  obtain ⟨position, held⟩ := List.getElem?_of_mem member
  rw [Array.getElem?_toList] at held
  have inside := (Array.getElem?_eq_some_iff.mp held).1
  rw [widens.size] at inside
  have found := Array.getElem?_eq_getElem inside
  obtain ⟨same, placed, widened⟩ := widens.instructions position _ found
  cases held.symm.trans placed
  exact ⟨_, Array.mem_toList_iff.mpr (Array.getElem_mem inside), widened⟩

theorem Coherent.widens (coherent : body.Coherent) (widens : body.Widens wide) : wide.Coherent := by
  refine ⟨widens.ids ▸ coherent.distinct, fun instruction member => ?_, fun instruction member target among => ?_⟩
  · obtain ⟨narrow, listed, widened⟩ := widens.mem member
    exact widened.wellFormed (coherent.operands narrow listed)
  · obtain ⟨narrow, listed, widened⟩ := widens.mem member
    rw [widened.targets] at among
    exact widens.ids ▸ coherent.targets narrow listed target among

/-- How many short branches there are. -/
def shorts (body : Body) : Nat := body.instructions.countP fun instruction => instruction.opcode.longForm?.isSome

/-- A pass uses up a short branch for each one it widens. -/
theorem shorts_widenPass (body : Body) : body.widenPass.2.shorts + body.widenPass.1 = body.shorts := by
  have each (layout : Layout) (instructions : List Instruction) :
      (instructions.map layout.widen).countP (fun instruction => instruction.opcode.longForm?.isSome) +
          instructions.countP (fun instruction => (layout.widened? instruction).isSome) =
        instructions.countP fun instruction => instruction.opcode.longForm?.isSome := by
    induction instructions with
    | nil => rfl
    | cons instruction rest ih =>
        have here : (if (layout.widen instruction).opcode.longForm?.isSome then 1 else 0) +
            (if (layout.widened? instruction).isSome then 1 else 0) =
              if instruction.opcode.longForm?.isSome then 1 else 0 := by
          cases widened : layout.widened? instruction with
          | none => simp [Layout.widen, widened]
          | some long =>
              have form := (Layout.widened?_eq_some.mp widened).1
              simp [Layout.widen, widened, Opcode.longForm?_longForm form, form]
        simp only [List.map_cons, List.countP_cons]
        omega
  simp only [shorts, widenPass, ← Array.countP_toList, Array.toList_map]
  exact each body.layout body.instructions.toList

/-- With enough passes, the last one widens nothing. -/
theorem relaxWithin_settled {bound : Nat} (enough : body.shorts < bound) :
    (relaxWithin bound body).2.widenPass.1 = 0 := by
  induction bound generalizing body with
  | zero => cases enough
  | succ bound ih =>
      unfold relaxWithin
      dsimp only
      split
      · assumption
      · have fewer := body.shorts_widenPass
        exact ih (by omega)

theorem relax_settled (body : Body) : body.relax.2.widenPass.1 = 0 :=
  relaxWithin_settled (Nat.lt_succ_of_le Array.countP_le_size)

theorem length_offsetsFrom (start : Nat) (sizes : List Nat) : (offsetsFrom start sizes).length = sizes.length := by
  induction sizes generalizing start with
  | nil => rfl
  | cons size rest ih => simp [offsetsFrom, ih]

theorem offset?_of_mem {id : InstrId} (member : id ∈ body.ids) :
    ∃ offset, body.layout.offset? id = some offset := by
  obtain ⟨position, found⟩ := target?_of_mem member
  have inside : position < body.layout.offsets.size := by
    simpa [layout, length_offsetsFrom, sizes] using target?_lt found
  exact ⟨body.layout.offsets[position], by
    rw [Layout.offset?, show lastIndex? id body.layout.ids = some position from found, Option.bind_some,
      Array.getElem?_eq_getElem inside]⟩

/-- A short branch of a coherent body has a distance to go. -/
theorem Coherent.displacement? (coherent : body.Coherent) {instruction : Instruction}
    (member : instruction ∈ body.instructions.toList) (short : instruction.opcode.operandKind = .shortTarget) :
    ∃ displacement, body.layout.displacement? instruction = some displacement := by
  have fits := coherent.operands instruction member
  rw [Instruction.wellFormed, short] at fits
  obtain ⟨id, target⟩ := Operand.fits_shortTarget fits
  obtain ⟨source, from_⟩ := offset?_of_mem (List.mem_map_of_mem member : instruction.id ∈ body.ids)
  obtain ⟨destination, to_⟩ := offset?_of_mem
    (coherent.targets instruction member id (by simp [Instruction.targets, target, Operand.targets]))
  exact ⟨_, by simp only [Layout.displacement?, target, from_, to_]; rfl⟩

/-- Widening a coherent body makes it sound. -/
theorem Coherent.relax (coherent : body.Coherent) : body.relax.2.Sound := by
  have kept := coherent.widens body.relax_widens
  refine ⟨kept, fun instruction member short => ?_⟩
  obtain ⟨displacement, goes⟩ := kept.displacement? member short
  obtain ⟨long, form⟩ := Option.isSome_iff_exists.mp ((Opcode.isSome_longForm? _).mpr short)
  have settled := relax_settled body
  simp only [widenPass, Array.countP_eq_zero] at settled
  have narrow := settled instruction (Array.mem_toList_iff.mp member)
  refine ⟨displacement, goes, ?_⟩
  cases reaches : Layout.reachesShort displacement with
  | true => simpa [Layout.reachesShort] using reaches
  | false => simp [Layout.widened?, form, goes, reaches] at narrow

end Body

end CilWeave
