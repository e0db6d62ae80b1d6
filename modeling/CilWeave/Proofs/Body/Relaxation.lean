import Mathlib.Algebra.GroupWithZero.Nat
import Mathlib.Algebra.Order.BigOperators.Group.List
import Mathlib.Algebra.Order.Group.Nat
import CilWeave.Proofs.Body.Soundness

/-!
Widening is least. Widening a branch moves instructions further apart and never closer together, so a branch
that does not reach its target now reaches it in no wider body either. The branches that are widened are
therefore just those that are long in every body in which all short branches reach.
-/

namespace CilWeave

theorem getElem?_offsetsFrom (start : Nat) (sizes : List Nat) {position : Nat} (inside : position < sizes.length) :
    (offsetsFrom start sizes)[position]? = some (start + (sizes.take position).sum) := by
  induction sizes generalizing start position with
  | nil => cases inside
  | cons size rest ih =>
      cases position with
      | zero => rfl
      | succ position => simp [offsetsFrom, ih _ (Nat.lt_of_succ_lt_succ inside), Nat.add_assoc]

/-- Offsets as a counter of 32 bits comes by them. -/
def wordOffsets (start : UInt32) : List Nat → List UInt32
  | [] => []
  | size :: rest => start :: wordOffsets (start + size.toUInt32) rest

theorem toNat_wordOffsets (start : UInt32) (sizes : List Nat) (room : start.toNat + sizes.sum < UInt32.size) :
    (wordOffsets start sizes).map UInt32.toNat = offsetsFrom start.toNat sizes := by
  induction sizes generalizing start with
  | nil => rfl
  | cons size rest ih =>
      rw [List.sum_cons] at room
      have width : size.toUInt32.toNat = size := UInt32.toNat_ofNat_of_lt' (by omega)
      have next : (start + size.toUInt32).toNat = start.toNat + size := by
        rw [UInt32.toNat_add, width]
        exact Nat.mod_eq_of_lt (by simp only [UInt32.size] at room; omega)
      rw [wordOffsets, List.map_cons, ih _ (by omega), next, offsetsFrom]

/-- What lies between two places grows with the sizes. -/
theorem sum_take_grows {sizes grown : List Nat} (grows : List.Forall₂ (· ≤ ·) sizes grown) {first last : Nat}
    (ordered : first ≤ last) :
    (sizes.take last).sum + (grown.take first).sum ≤ (grown.take last).sum + (sizes.take first).sum := by
  induction grows generalizing first last with
  | nil => simp
  | cons more rest ih =>
      cases last with
      | zero => simp [Nat.le_zero.mp ordered]
      | succ last =>
          cases first with
          | zero =>
              have whole := ih (Nat.zero_le last)
              simp only [List.take_zero, List.sum_nil, List.take_succ_cons, List.sum_cons] at whole ⊢
              omega
          | succ first =>
              have behind := ih (Nat.le_of_succ_le_succ ordered)
              simp only [List.take_succ_cons, List.sum_cons]
              omega

/-- A short branch takes two bytes and a long one five. -/
theorem Opcode.size_longForm {short long : Opcode} (widened : short.longForm? = some long) (targets : Nat) :
    short.size + short.operandKind.size targets = 2 ∧ long.size + long.operandKind.size targets = 5 := by
  cases short <;> simp only [Opcode.longForm?, Option.some.injEq, reduceCtorEq] at widened <;> subst widened <;>
    exact ⟨rfl, rfl⟩

theorem Instruction.size_short {instruction : Instruction} {long : Opcode}
    (short : instruction.opcode.longForm? = some long) : instruction.size = 2 :=
  (Opcode.size_longForm short _).1

theorem Instruction.Widens.size_le {narrow wide : Instruction} (widens : narrow.Widens wide) :
    narrow.size ≤ wide.size := by
  simp only [Instruction.size, widens.operand]
  rcases widens.opcode with same | widened
  · rw [same]
  · have sizes := Opcode.size_longForm widened
    rw [(sizes _).1, (sizes _).2]
    decide

theorem Instruction.Widens.eq_of_opcode {narrow wide : Instruction} (widens : narrow.Widens wide)
    (same : wide.opcode = narrow.opcode) : wide = narrow := by
  obtain ⟨id, opcode, operand⟩ := narrow
  obtain ⟨wideId, wideOpcode, wideOperand⟩ := wide
  simp only [Instruction.mk.injEq]
  exact ⟨widens.id, same, widens.operand⟩

theorem Instruction.Widens.antisymm {narrow wide : Instruction} (widens : narrow.Widens wide) (back : wide.Widens narrow) :
    wide = narrow := by
  rcases widens.opcode with same | widened
  · exact widens.eq_of_opcode same
  · rcases back.opcode with same | again
    · exact widens.eq_of_opcode same.symm
    · cases (Opcode.longForm?_longForm widened).symm.trans again

namespace Body

variable {body wide : Body} {instruction : Instruction} {displacement : Int}

/-- Below 4 GiB of code the offsets of the layout, and the labels that show them, are those of 32 bits. -/
theorem toNat_offsets (body : Body) (small : body.sizes.sum < UInt32.size) :
    (wordOffsets 0 body.sizes).map UInt32.toNat = body.layout.offsets.toList :=
  toNat_wordOffsets 0 body.sizes (by rwa [UInt32.toNat_zero, Nat.zero_add])

theorem offset?_eq (body : Body) (id : InstrId) :
    body.layout.offset? id = (body.target? id).map fun position => (body.sizes.take position).sum := by
  rw [Layout.offset?, show lastIndex? id body.layout.ids = body.target? id from rfl]
  cases found : body.target? id with
  | none => rfl
  | some position =>
      have inside : position < body.sizes.length := by simpa [sizes] using target?_lt found
      simp [layout, getElem?_offsetsFrom 0 body.sizes inside]

/-- A branch has a distance to go if it and its target have a place. -/
theorem displacement?_eq_some : body.layout.displacement? instruction = some displacement ↔
    ∃ target source destination, instruction.operand = .target target ∧
      body.target? instruction.id = some source ∧ body.target? target = some destination ∧
      displacement = (body.sizes.take destination).sum - ((body.sizes.take source).sum + instruction.size : Nat) := by
  unfold Layout.displacement?
  cases operand : instruction.operand
  case target target =>
    simp only [offset?_eq, Operand.target.injEq]
    cases source : body.target? instruction.id <;> cases destination : body.target? target <;>
      simp [eq_comm, destination]
  all_goals simp

theorem Widens.forall₂ (widens : body.Widens wide) :
    List.Forall₂ Instruction.Widens body.instructions.toList wide.instructions.toList := by
  refine List.forall₂_iff_get.mpr ⟨by simp [widens.size], fun position before after => ?_⟩
  have inside : position < body.instructions.size := before
  obtain ⟨widened, held, wider⟩ := widens.instructions position _ (Array.getElem?_eq_getElem inside)
  obtain ⟨_, rfl⟩ := Array.getElem?_eq_some_iff.mp held
  exact wider

theorem Widens.sizes (widens : body.Widens wide) : List.Forall₂ (· ≤ ·) body.sizes wide.sizes :=
  List.forall₂_map_left_iff.mpr
    (List.forall₂_map_right_iff.mpr (widens.forall₂.imp fun _ _ => Instruction.Widens.size_le))

/-- A branch that does not reach its target reaches it in no wider body where it is as short. -/
theorem Widens.out_of_reach (widens : body.Widens wide) {long : Opcode} (short : instruction.opcode.longForm? = some long)
    (goes : body.layout.displacement? instruction = some displacement) (far : Layout.reachesShort displacement = false) :
    ∃ further, wide.layout.displacement? instruction = some further ∧ Layout.reachesShort further = false := by
  obtain ⟨target, source, destination, operand, from_, to_, rfl⟩ := displacement?_eq_some.mp goes
  rw [← widens.target?] at from_ to_
  refine ⟨_, displacement?_eq_some.mpr ⟨target, source, destination, operand, from_, to_, rfl⟩, ?_⟩
  simp only [Layout.reachesShort, Bool.and_eq_false_iff, decide_eq_false_iff_not, Int.not_le,
    Instruction.size_short short] at far ⊢
  rcases Nat.le_total source destination with forwards | backwards
  · have ordered : (body.sizes.take source).sum ≤ (body.sizes.take destination).sum := List.monotone_sum_take _ forwards
    have grown := sum_take_grows widens.sizes forwards
    omega
  · have ordered : (body.sizes.take destination).sum ≤ (body.sizes.take source).sum := List.monotone_sum_take _ backwards
    have grown := sum_take_grows widens.sizes backwards
    omega

/-- Every short branch to an instruction of the body has a distance to go that fits a signed byte. -/
def InReach (body : Body) : Prop :=
  ∀ instruction ∈ body.instructions.toList, ∀ target, instruction.opcode.longForm?.isSome = true →
    instruction.operand = .target target → target ∈ body.ids →
      ∃ displacement, body.layout.displacement? instruction = some displacement ∧ -128 ≤ displacement ∧
        displacement ≤ 127

/-- Nothing is left to widen just when all short branches reach. -/
theorem inReach_iff : body.InReach ↔ ∀ instruction ∈ body.instructions.toList,
      body.layout.widened? instruction = none := by
  constructor
  · intro reach instruction member
    refine Option.eq_none_iff_forall_ne_some.mpr fun long widened => ?_
    obtain ⟨form, displacement, goes, far⟩ := Layout.widened?_eq_some.mp widened
    obtain ⟨target, source, destination, operand, -, to_, -⟩ := displacement?_eq_some.mp goes
    obtain ⟨other, same, lower, upper⟩ := reach instruction member target (by simp [form]) operand
      (List.mem_of_getElem? (lastIndex?_found to_))
    cases goes.symm.trans same
    simp [Layout.reachesShort, lower, upper] at far
  · intro settled instruction member target short operand listed
    obtain ⟨long, form⟩ := Option.isSome_iff_exists.mp short
    obtain ⟨source, from_⟩ := target?_of_mem (List.mem_map_of_mem member : instruction.id ∈ body.ids)
    obtain ⟨destination, to_⟩ := target?_of_mem listed
    have goes := displacement?_eq_some.mpr ⟨target, source, destination, operand, from_, to_, rfl⟩
    refine ⟨_, goes, ?_⟩
    have narrow := settled instruction member
    cases reaches : Layout.reachesShort _ with
    | true => simpa only [Layout.reachesShort, Bool.and_eq_true, decide_eq_true_eq] using reaches
    | false => simp [Layout.widened?_eq_some.mpr ⟨form, _, goes, reaches⟩] at narrow

theorem inReach_iff_widenPass : body.InReach ↔ body.widenPass.1 = 0 := by
  rw [inReach_iff]
  simp [widenPass, Array.countP_eq_zero]

/-- A pass widens only what is wide in every wider body whose branches reach. -/
theorem Widens.widenPass (widens : body.Widens wide) (reach : wide.InReach) : body.widenPass.2.Widens wide := by
  refine ⟨widens.rest, by simpa [Body.widenPass] using widens.size, fun position instruction found => ?_⟩
  simp only [Body.widenPass, Array.getElem?_map, Option.map_eq_some_iff] at found
  obtain ⟨own, held, rfl⟩ := found
  obtain ⟨widened, there, wider⟩ := widens.instructions position own held
  refine ⟨widened, there, ?_⟩
  cases chosen : body.layout.widened? own with
  | none => simpa [Layout.widen, chosen] using wider
  | some long =>
      obtain ⟨form, displacement, goes, far⟩ := Layout.widened?_eq_some.mp chosen
      rcases wider.opcode with same | opcode
      · -- A branch that stayed short would be out of reach in the wider body too.
        have equal := wider.eq_of_opcode same
        obtain ⟨further, goes', far'⟩ := widens.out_of_reach form goes far
        have settled := inReach_iff.mp reach own (equal ▸ Array.mem_toList_iff.mpr (Array.mem_of_getElem? there))
        simp [Layout.widened?_eq_some.mpr ⟨form, further, goes', far'⟩] at settled
      · cases form.symm.trans opcode
        exact ⟨wider.id, wider.operand, .inl (by simp [Layout.widen, chosen])⟩

theorem Widens.relaxWithin (widens : body.Widens wide) (reach : wide.InReach) (bound : Nat) :
    (Body.relaxWithin bound body).2.Widens wide := by
  induction bound generalizing body with
  | zero => exact widens
  | succ bound ih =>
      unfold Body.relaxWithin
      dsimp only
      split
      · exact widens
      · exact ih (widens.widenPass reach)

theorem Widens.antisymm (widens : body.Widens wide) (back : wide.Widens body) : wide = body := by
  have same : wide.instructions = body.instructions := by
    refine Array.ext widens.size fun position before after => ?_
    obtain ⟨other, held, wider⟩ := widens.instructions position _ (Array.getElem?_eq_getElem after)
    obtain ⟨own, found, narrower⟩ := back.instructions position other held
    cases (Array.getElem?_eq_getElem after).symm.trans found
    obtain ⟨_, rfl⟩ := Array.getElem?_eq_some_iff.mp held
    exact wider.antisymm narrower
  rw [widens.rest, same]

/-- How many branches are other than they were. -/
def changes (body wide : Body) : Nat :=
  (body.instructions.toList.zip wide.instructions.toList).countP fun pair => pair.1.opcode != pair.2.opcode

/-- Each branch that is other than it was used to be short. -/
theorem Widens.shorts (widens : body.Widens wide) : wide.shorts + body.changes wide = body.shorts := by
  have all := widens.forall₂
  simp only [Body.shorts, changes, ← Array.countP_toList]
  generalize body.instructions.toList = before, wide.instructions.toList = after at all ⊢
  induction all with
  | nil => rfl
  | @cons narrow wider _ _ widens _ ih =>
      have here : (if wider.opcode.longForm?.isSome then 1 else 0) + (if narrow.opcode != wider.opcode then 1 else 0) =
          if narrow.opcode.longForm?.isSome then 1 else 0 := by
        rcases widens.opcode with same | widened
        · simp [same]
        · have long := Opcode.longForm?_longForm widened
          have other : narrow.opcode ≠ wider.opcode := fun same => by cases (same ▸ widened).symm.trans long
          simp [widened, long, other]
      simp only [List.zip_cons_cons, List.countP_cons]
      omega

/-- Each branch that is other than it was takes three bytes more. -/
theorem Widens.sum_sizes (widens : body.Widens wide) : wide.sizes.sum = body.sizes.sum + 3 * body.changes wide := by
  have all := widens.forall₂
  simp only [Body.sizes, changes]
  generalize body.instructions.toList = before, wide.instructions.toList = after at all ⊢
  induction all with
  | nil => rfl
  | @cons narrow wider _ _ widens _ ih =>
      have here : wider.size = narrow.size + 3 * if narrow.opcode != wider.opcode then 1 else 0 := by
        rcases widens.opcode with same | widened
        · simp [widens.eq_of_opcode same]
        · have long := Opcode.longForm?_longForm widened
          have other : narrow.opcode ≠ wider.opcode := fun same => by cases (same ▸ widened).symm.trans long
          simp only [Instruction.size, widens.operand, Opcode.size_longForm widened, bne_iff_ne, ne_eq, other,
            not_false_eq_true, if_true]
      simp only [List.map_cons, List.sum_cons, List.zip_cons_cons, List.countP_cons]
      omega

/-- Below 4 GiB of code, with room for every short branch to become long, offsets of 32 bits are those of the
layout: in the body, after any number of passes, and in every wider body that the least one is compared to. -/
theorem Widens.toNat_offsets (widens : body.Widens wide) (small : body.sizes.sum + 3 * body.shorts < UInt32.size) :
    (wordOffsets 0 wide.sizes).map UInt32.toNat = wide.layout.offsets.toList := by
  have counted := widens.shorts
  have total := widens.sum_sizes
  exact wide.toNat_offsets (by omega)

theorem shorts_relaxWithin (bound : Nat) (body : Body) :
    (relaxWithin bound body).2.shorts + (relaxWithin bound body).1 = body.shorts := by
  induction bound generalizing body with
  | zero => rfl
  | succ bound ih =>
      unfold relaxWithin
      dsimp only
      split
      · rfl
      · have pass := body.shorts_widenPass
        have rest := ih body.widenPass.2
        dsimp only at rest ⊢
        omega

/-- Once there are enough passes, more of them change nothing. -/
theorem relaxWithin_enough {bound other : Nat} (enough : body.shorts < bound) (more : body.shorts < other) :
    relaxWithin bound body = relaxWithin other body := by
  induction bound generalizing body other with
  | zero => cases enough
  | succ bound ih =>
      cases other with
      | zero => cases more
      | succ other =>
          have fewer := body.shorts_widenPass
          unfold relaxWithin
          dsimp only
          split
          · rfl
          · have same : relaxWithin bound body.widenPass.2 = relaxWithin other body.widenPass.2 := ih (by omega) (by omega)
            rw [same]

theorem relax_of_settled (settled : body.widenPass.1 = 0) : body.relax = (0, body) := by
  unfold relax relaxWithin
  simp [settled]

/-- Widening ends with the least body, among those that differ by widened branches only, whose short branches all
reach. The number answered is that of the widened branches, and nothing is left for a second time. Offsets are without
a bound here, and those of 32 bits below 4 GiB of code (`Widens.toNat_offsets`). -/
theorem relax_least (body : Body) :
    body.Widens body.relax.2 ∧ body.relax.2.InReach ∧
      (∀ wide, body.Widens wide → wide.InReach → body.relax.2.Widens wide) ∧
      (∀ least, body.Widens least → least.InReach → (∀ wide, body.Widens wide → wide.InReach →
        least.Widens wide) →
        least = body.relax.2) ∧
      body.relax.1 = body.changes body.relax.2 ∧ body.relax.2.relax = (0, body.relax.2) ∧
      ∀ passes, body.instructions.size < passes → relaxWithin passes body = body.relax := by
  have widens := body.relax_widens
  have settled := body.relax_settled
  have reach := inReach_iff_widenPass.mpr settled
  have least (wide : Body) (wider : body.Widens wide) (reaches : wide.InReach) : body.relax.2.Widens wide :=
    wider.relaxWithin reaches _
  have shorts : body.shorts ≤ body.instructions.size := Array.countP_le_size
  refine ⟨widens, reach, least, fun other wider reaches below => ?_, ?_, relax_of_settled settled, fun passes enough => ?_⟩
  · exact (least other wider reaches).antisymm (below _ widens reach)
  · have counted := widens.shorts
    have answered : body.relax.2.shorts + body.relax.1 = body.shorts := shorts_relaxWithin _ body
    omega
  · exact relaxWithin_enough (by omega) (by omega)

end Body

end CilWeave
