import CilWeave.Proofs.Mixin.Locating

/-!
The places of returns. Each return has one place of its own: the ways back from two returns never meet, since a return
pushes nothing and every way back ends behind it at the latest.
-/

namespace CilWeave

namespace Body

variable {body : Body} {position start : Nat}

/-- Everything from the start up to the position pushes a value, and nothing more in front of it does. -/
structure FedFrom (body : Body) (start position : Nat) : Prop where
  before : start ≤ position
  pushing : ∀ between, start ≤ between → between < position →
    ∃ instruction, body.instructions[between]? = some instruction ∧ instruction.pushesValue = true
  stops : start = 0 ∨ ∃ last instruction, start = last + 1 ∧ body.instructions[last]? = some instruction ∧
    instruction.pushesValue = false

/-- Of two starts of one position the first is not in front of the other, where something pushes nothing. -/
theorem FedFrom.le {other : Nat} (first : body.FedFrom start position) (second : body.FedFrom other position) :
    start ≤ other := by
  rcases first.stops with rfl | ⟨last, instruction, rfl, found, nothing⟩
  · exact Nat.zero_le other
  · refine Nat.lt_of_not_le fun passed => ?_
    obtain ⟨same, held, pushes⟩ := second.pushing last passed first.before
    cases found.symm.trans held
    cases nothing.symm.trans pushes

/-- The way back from a position finds the one start that it has. -/
theorem fedFrom_iff (inside : position ≤ body.instructions.size) :
    body.FedFrom start position ↔ start = body.splicePosition position := by
  have found : body.FedFrom (body.splicePosition position) position :=
    ⟨splicePosition_le body position, fun _ => pushes_of_between, splicePosition_stops inside⟩
  refine ⟨fun fed => Nat.le_antisymm (fed.le found) (found.le fed), ?_⟩
  rintro rfl
  exact found

theorem length_returnPositions (body : Body) :
    body.returnPositions.length = body.instructions.countP fun instruction => instruction.opcode == .ret := by
  have listed : (List.range body.instructions.size).map (fun position => body.instructions[position]?) =
      body.instructions.toList.map some := by
    refine List.ext_getElem (by simp) fun index _ _ => ?_
    simp_all
  have counted := congrArg
    (List.countP fun held : Option Instruction => held.any fun instruction => instruction.opcode == .ret) listed
  rw [List.countP_map, List.countP_map] at counted
  rw [returnPositions, ← List.countP_eq_length_filter, ← Array.countP_toList]
  exact counted

/-- No return is without a place. -/
theorem map_locate_return (body : Body) :
    (body.locate .return).map some = body.returnPositions.map body.spliceId? := by
  rw [locate, List.map_filterMap_some_eq_filter_map_isSome, List.filter_eq_self]
  intro place member
  obtain ⟨position, returns, rfl⟩ := List.mem_map.mp member
  have inside := Nat.lt_of_le_of_lt (splicePosition_le body position) (lt_size_of_returns returns)
  rw [spliceId?, idAt?, Array.getElem?_eq_getElem inside]
  rfl

/-- An instruction stands in front of another one. -/
def Precedes (body : Body) (left right : InstrId) : Prop :=
  ∃ first second, body.position? left = some first ∧ body.position? right = some second ∧ first < second

theorem locate_return_ordered (distinct : body.ids.Nodup) : (body.locate .return).Pairwise body.Precedes := by
  refine List.pairwise_filterMap.mpr ((returnPositions_ordered body).imp_of_mem ?_)
  intro earlier later returns _ less left found right held
  have behind : earlier < body.splicePosition later := lt_splicePosition returns less
  exact ⟨_, _, position?_of_idAt? distinct found, position?_of_idAt? distinct held,
    Nat.lt_of_le_of_lt (splicePosition_le body earlier) behind⟩

/-- There are as many places as returns, and the place of a return is the one start that it has: everything from there to
the return pushes a value, and what stands in front pushes nothing. Each return stands in front of the place of the next,
so places are distinct and in the order of the code where identities are. -/
theorem returns_located (body : Body) :
    (body.locate .return).length = body.instructions.countP (fun instruction => instruction.opcode == .ret) ∧
      body.returnPositions.Pairwise (· < ·) ∧
      (∀ position, position ∈ body.returnPositions ↔
        ∃ instruction, body.instructions[position]? = some instruction ∧ instruction.opcode = .ret) ∧
      (body.locate .return).map some = body.returnPositions.map (fun position => body.idAt? (body.splicePosition position)) ∧
      (∀ position ∈ body.returnPositions, ∀ start, body.FedFrom start position ↔
        start = body.splicePosition position) ∧
      body.returnPositions.Pairwise (fun earlier later => earlier < body.splicePosition later) ∧
      (body.ids.Nodup → (body.locate .return).Nodup ∧ (body.locate .return).Pairwise body.Precedes) := by
  have places := map_locate_return body
  have count := congrArg List.length places
  rw [List.length_map, List.length_map] at count
  have apart : body.returnPositions.Pairwise (fun earlier later => earlier < body.splicePosition later) :=
    (returnPositions_ordered body).imp_of_mem fun returns _ less => lt_splicePosition returns less
  exact ⟨count.trans (length_returnPositions body), returnPositions_ordered body, fun _ => mem_returnPositions, places,
    fun position returns start => fedFrom_iff (Nat.le_of_lt (lt_size_of_returns returns)), apart,
    fun distinct => ⟨locate_nodup distinct .return, locate_return_ordered distinct⟩⟩

end Body

namespace Magnitude

/-- The larger of a number and its negative, with a return for either. -/
def body : Body :=
  ⟨8, true, #[],
    #[⟨0, .ldarg0, .none⟩, ⟨1, .ldcI40, .none⟩, ⟨2, .bgeS, .target 6⟩, ⟨3, .ldarg0, .none⟩,
      ⟨4, .neg, .none⟩,
      ⟨5, .ret, .none⟩, ⟨6, .ldarg0, .none⟩, ⟨7, .ret, .none⟩], 0⟩

theorem returns_located_magnitude : body.ids.Nodup ∧ body.locate .return = [3, 6] ∧
    body.FedFrom (body.splicePosition 5) 5 ∧ (body.locate .return).Nodup ∧
    (body.locate .return).Pairwise body.Precedes := by
  obtain ⟨-, -, -, -, starts, -, ordered⟩ := body.returns_located
  have distinct : body.ids.Nodup := by decide +kernel
  have returns : 5 ∈ body.returnPositions := by decide +kernel
  exact ⟨distinct, by decide +kernel, (starts 5 returns _).mpr rfl, ordered distinct⟩

end Magnitude

end CilWeave
