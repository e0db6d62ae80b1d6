import Mathlib.Data.List.Nodup
import Mathlib.Data.List.Pairwise
import CilWeave.Proofs.Body.Widening
import CilWeave.Proofs.Mixin.Splicing

/-!
Where everything lies once callbacks are spliced in. Each instruction of the original body has a block: the
code that was put in front of it, then the instruction itself. Blocks follow each other in the order of
the original instructions.
-/

namespace CilWeave

/-- A callback's code, the places it was put in front of, and the bodies before and after. -/
structure Splice where
  site : CallbackSite
  cancel : CancelAction
  points : List InstrId
  original : Body
  woven : Body

namespace Splice

variable (splice : Splice)

/-- The code in front of the instruction at a position, where its first identity is given for each
place. -/
def code (entry : InstrId → InstrId) (position : Nat) : List Instruction :=
  match splice.original.idAt? position with
  | some id => if id ∈ splice.points then splice.site.codeAt splice.cancel (entry id) else []
  | none => []

/-- The layout of a woven body. Branches to an instruction of the original body now go to its entry. -/
structure Layered (entry : InstrId → InstrId) (start : Nat → Nat) : Prop where
  first : start 0 = 0
  next : ∀ position < splice.original.instructions.size,
    start (position + 1) = start position + (splice.code entry position).length + 1
  last : start splice.original.instructions.size = splice.woven.instructions.size
  own : ∀ (position : Nat) (instruction : Instruction), splice.original.instructions[position]? = some instruction →
    ∃ wide, splice.woven.instructions[start position + (splice.code entry position).length]? = some wide ∧
      (instruction.redirect entry).Widens wide
  injected : ∀ (position offset : Nat) (instruction : Instruction),
    (splice.code entry position)[offset]? = some instruction →
      instruction.id ∉ splice.original.ids ∧
        ∃ wide, splice.woven.instructions[start position + offset]? = some wide ∧ instruction.Widens wide
  distinct : splice.woven.ids.Nodup
  enter : ∀ (id : InstrId) (position : Nat), splice.original.target? id = some position →
    splice.woven.target? (entry id) = some (start position)
  stays : ∀ id, id ∉ splice.points → entry id = id

variable {splice} {entry : InstrId → InstrId} {start : Nat → Nat}

namespace Layered

/-- A branch that was not moved goes past the code in front of its target. -/
theorem skip (layered : splice.Layered entry start) {id : InstrId} {position : Nat}
    (found : splice.original.target? id = some position) :
    splice.woven.target? id = some (start position + (splice.code entry position).length) := by
  obtain ⟨instruction, held, same⟩ := Body.target?_found found
  obtain ⟨wide, placed, widens⟩ := layered.own position instruction held
  have target := Body.target?_of_nodup layered.distinct placed
  rwa [widens.id, show (instruction.redirect entry).id = id from same] at target

/-- Branches within injected code stay within it. -/
theorem inner (layered : splice.Layered entry start) {position offset : Nat} {instruction : Instruction}
    (found : (splice.code entry position)[offset]? = some instruction) :
    splice.woven.target? instruction.id = some (start position + offset) := by
  obtain ⟨-, wide, placed, widens⟩ := layered.injected position offset instruction found
  have target := Body.target?_of_nodup layered.distinct placed
  rwa [widens.id] at target

end Layered

end Splice

namespace Entries

variable {code : InstrId → List Instruction} {entries : Entries} {instructions : List Instruction} {position : Nat}
  {instruction : Instruction}

theorem length_block : (entries.block code instruction).length = (entries.codeOf code instruction.id).length + 1 := by
  simp [block]

theorem interleave_take (found : instructions[position]? = some instruction) :
    entries.interleave code (instructions.take (position + 1)) =
      entries.interleave code (instructions.take position) ++ entries.block code instruction := by
  rw [List.take_add_one, found, interleave_append]
  simp [interleave]

/-- A block starts where the blocks before it end. -/
theorem getElem?_interleave (found : instructions[position]? = some instruction) {offset : Nat}
    (within : offset < (entries.block code instruction).length) :
    (entries.interleave code instructions)[(entries.interleave code (instructions.take position)).length + offset]? =
      (entries.block code instruction)[offset]? := by
  have whole : entries.interleave code instructions =
      entries.interleave code (instructions.take position) ++
        (entries.block code instruction ++ entries.interleave code (instructions.drop (position + 1))) := by
    rw [← List.append_assoc, ← interleave_take found, ← interleave_append, List.take_append_drop]
  rw [whole, List.getElem?_append_right (Nat.le_add_right _ _), Nat.add_sub_cancel_left,
    List.getElem?_append_left within]

end Entries

namespace MixinContext

variable {site : CallbackSite} {cancel : CancelAction} {original : Body} {low : InstrId} {entries : Entries} {body : Body}

/-- The identities of a block: the instruction's own, and those of the code in front of it. -/
theorem mem_ids_block {instruction : Instruction} {id : InstrId} :
    id ∈ (entries.block (site.codeAt cancel) instruction).map (·.id) ↔
      id = instruction.id ∨ ∃ first, entries.lookup instruction.id = some first ∧
        id ∈ (List.range (site.length cancel)).map (counting first) := by
  cases found : entries.lookup instruction.id with
  | none => simp [Entries.block, Entries.codeOf, Instruction.redirect, found]
  | some first =>
      simp only [Entries.block, Entries.codeOf, found, Option.map_some, Option.getD_some, List.map_append,
        CallbackSite.ids_codeAt, List.map_cons, List.map_nil, List.mem_append, List.mem_singleton, Option.some.injEq,
        exists_eq_left']
      exact or_comm

theorem lookup_mem {id first : InstrId} (found : entries.lookup id = some first) : (id, first) ∈ entries := by
  obtain ⟨before, after, split, -⟩ := List.lookup_eq_some_iff.mp found
  simp [split]

/-- Codes of two places have no identities in common. -/
theorem Spliced.codes_apart (spliced : Spliced site cancel original low entries body) {one other first second : InstrId}
    (differ : one ≠ other) (left : entries.lookup one = some first) (right : entries.lookup other = some second) :
    first.toNat + site.length cancel ≤ second.toNat ∨ second.toNat + site.length cancel ≤ first.toNat := by
  exact spliced.apart.forall (lookup_mem left) (lookup_mem right) fun same => differ (congrArg Prod.fst same)

theorem Spliced.nodup (spliced : Spliced site cancel original low entries body)
    (distinct : original.ids.Nodup) (below : ∀ id ∈ original.ids, id.toNat < low.toNat) : body.ids.Nodup := by
  rw [Body.ids, spliced.instructions, Entries.interleave, List.map_flatMap, List.nodup_flatMap]
  constructor
  · intro instruction own
    have less := below _ (List.mem_map_of_mem own)
    cases found : entries.lookup instruction.id with
    | none => simp [Entries.block, Entries.codeOf, found]
    | some first =>
        have lower := (spliced.within _ (lookup_mem found)).1
        have room := spliced.room (lookup_mem found)
        simp only [Entries.block, Entries.codeOf, found, Option.map_some, Option.getD_some, List.map_append,
          CallbackSite.ids_codeAt, List.map_cons, List.map_nil]
        refine List.nodup_append.mpr ⟨nodup_counting room, List.nodup_singleton _, ?_⟩
        intro id inside other same equal
        have least := ((mem_counting room).mp inside).1
        rw [List.mem_singleton.mp same] at equal
        exact absurd less (Nat.not_lt.mpr (Nat.le_trans lower (equal ▸ least)))
  · refine (List.pairwise_map.mp distinct).imp_of_mem fun {one other} left right differ id first second => ?_
    have oneBelow := below _ (List.mem_map_of_mem left)
    have otherBelow := below _ (List.mem_map_of_mem right)
    rcases mem_ids_block.mp first with rfl | ⟨start, found, code⟩
    · rcases mem_ids_block.mp second with same | ⟨start, found, code⟩
      · exact differ same
      · have least := ((mem_counting (spliced.room (lookup_mem found))).mp code).1
        exact absurd oneBelow (Nat.not_lt.mpr (Nat.le_trans (spliced.within _ (lookup_mem found)).1 least))
    · obtain ⟨least, most⟩ := (mem_counting (spliced.room (lookup_mem found))).mp code
      rcases mem_ids_block.mp second with rfl | ⟨begin, held, code⟩
      · exact absurd otherBelow (Nat.not_lt.mpr (Nat.le_trans (spliced.within _ (lookup_mem found)).1 least))
      · obtain ⟨from_, to_⟩ := (mem_counting (spliced.room (lookup_mem held))).mp code
        rcases spliced.codes_apart differ found held with apart | apart
        · exact absurd (Nat.lt_of_lt_of_le most apart) (Nat.not_lt.mpr from_)
        · exact absurd (Nat.lt_of_lt_of_le to_ apart) (Nat.not_lt.mpr least)

/-- The code in front of a position is the one of the instruction there. -/
theorem code_eq {points : List InstrId} {woven : Body} (keys : ∀ id, (entries.lookup id).isSome ↔ id ∈ points)
    {position : Nat} {instruction : Instruction} (found : original.instructions[position]? = some instruction) :
    (Splice.mk site cancel points original woven).code entries.entry position =
      entries.codeOf (site.codeAt cancel) instruction.id := by
  simp only [Splice.code, Body.idAt?, found, Option.map_some]
  cases held : entries.lookup instruction.id with
  | none =>
      have other : instruction.id ∉ points := fun point => by simpa [held] using (keys _).mpr point
      simp [Entries.codeOf, held, other]
  | some first =>
      have point : instruction.id ∈ points := (keys _).mp (by simp [held])
      simp [Entries.codeOf, Entries.entry, held, point]

theorem code_none {points : List InstrId} {woven : Body} {position : Nat}
    (outside : original.instructions[position]? = none) :
    (Splice.mk site cancel points original woven).code entries.entry position = [] := by
  simp [Splice.code, Body.idAt?, outside]

/-- The block of an instruction stands behind the blocks of those before it. -/
theorem Spliced.getElem?_block (spliced : Spliced site cancel original low entries body) {position : Nat}
    {instruction : Instruction} (found : original.instructions[position]? = some instruction) {offset : Nat}
    (within : offset < (entries.block (site.codeAt cancel) instruction).length) :
    body.instructions[(entries.interleave (site.codeAt cancel)
        (original.instructions.toList.take position)).length + offset]? =
      (entries.block (site.codeAt cancel) instruction)[offset]? := by
  rw [← Array.getElem?_toList, spliced.instructions]
  exact Entries.getElem?_interleave (by rwa [Array.getElem?_toList]) within

/-- What branched to an instruction goes to the start of its block. -/
theorem Spliced.target?_entry (spliced : Spliced site cancel original low entries body)
    (distinct : original.ids.Nodup) (below : ∀ id ∈ original.ids, id.toNat < low.toNat) {id : InstrId} {position : Nat}
    (found : original.target? id = some position) :
    body.target? (entries.entry id) =
      some (entries.interleave (site.codeAt cancel) (original.instructions.toList.take position)).length := by
  have nodup := spliced.nodup distinct below
  obtain ⟨instruction, held, rfl⟩ := Body.target?_found found
  have within : 0 < (entries.block (site.codeAt cancel) instruction).length := by
    rw [Entries.length_block]
    exact Nat.succ_pos _
  have first := spliced.getElem?_block held within
  cases unused : entries.lookup instruction.id with
  | none =>
      have none : entries.codeOf (site.codeAt cancel) instruction.id = [] := by simp [Entries.codeOf, unused]
      rw [Entries.block, none] at first
      have target := Body.target?_of_nodup nodup first
      rwa [show entries.entry instruction.id = instruction.id from by simp [Entries.entry, unused]]
  | some start =>
      obtain ⟨head, found, starts⟩ := site.codeAt_head cancel start
      have code : entries.codeOf (site.codeAt cancel) instruction.id = site.codeAt cancel start := by
        simp [Entries.codeOf, unused]
      rw [Entries.block, code, List.getElem?_append_left (List.getElem?_eq_some_iff.mp found).1, found] at first
      have target := Body.target?_of_nodup nodup first
      rwa [starts, show start = entries.entry instruction.id from by simp [Entries.entry, unused]] at target

/-- A body with the code of all places, once widened, is laid out in blocks. -/
theorem Spliced.layered (spliced : Spliced site cancel original low entries body)
    (distinct : original.ids.Nodup) (below : ∀ id ∈ original.ids, id.toNat < low.toNat) {points : List InstrId}
    (keys : ∀ id, (entries.lookup id).isSome ↔ id ∈ points) :
    (Splice.mk site cancel points original body.relax.2).Layered entries.entry fun position =>
      (entries.interleave (site.codeAt cancel) (original.instructions.toList.take position)).length := by
  have widens := body.relax_widens
  have wideNodup : body.relax.2.ids.Nodup := widens.ids ▸ spliced.nodup distinct below
  refine
    { first := rfl, distinct := wideNodup, next := ?next, last := ?last, own := ?own, injected := ?injected,
      enter := ?enter, stays := ?stays }
  case next =>
    intro position inside
    have found := Array.getElem?_eq_getElem inside
    have listed : original.instructions.toList[position]? = some original.instructions[position] := by
      rwa [Array.getElem?_toList]
    rw [code_eq keys found, Entries.interleave_take listed, List.length_append, Entries.length_block, Nat.add_assoc]
  case last =>
    dsimp only
    rw [← Array.length_toList, List.take_length, ← spliced.instructions, Array.length_toList, widens.size]
  case own =>
    intro position instruction found
    dsimp only at found ⊢
    rw [code_eq keys found]
    have within : (entries.codeOf (site.codeAt cancel) instruction.id).length <
        (entries.block (site.codeAt cancel) instruction).length := by
      rw [Entries.length_block]
      exact Nat.lt_succ_self _
    have held := spliced.getElem?_block found within
    rw [Entries.block, List.getElem?_append_right (Nat.le_refl _), Nat.sub_self] at held
    exact widens.instructions _ _ held
  case injected =>
    intro position offset instruction found
    dsimp only
    cases outside : original.instructions[position]? with
    | none => simp [code_none outside] at found
    | some own =>
        rw [code_eq keys outside] at found
        have within : offset < (entries.codeOf (site.codeAt cancel) own.id).length :=
          (List.getElem?_eq_some_iff.mp found).1
        have held := spliced.getElem?_block outside
          (Nat.lt_trans within (by rw [Entries.length_block]; exact Nat.lt_succ_self _))
        rw [Entries.block, List.getElem?_append_left within, found] at held
        exact ⟨spliced.not_own below (List.mem_of_getElem? found), widens.instructions _ _ held⟩
  case enter =>
    intro id position found
    rw [widens.target?]
    exact spliced.target?_entry distinct below found
  case stays =>
    intro id elsewhere
    cases unused : entries.lookup id with
    | none => simp [Entries.entry, unused]
    | some start => exact absurd ((keys id).mp (by rw [unused]; rfl)) elsewhere

end MixinContext

end CilWeave
