import CilWeave.Proofs.Body.Redirection
import CilWeave.Proofs.Body.Widening
import CilWeave.Proofs.StackDepth.Soundness

/-!
When the search for stack depths succeeds: just when control brings one depth to every position it reaches,
at which the instruction there may be used. Its result is then the least bound of those depths.
-/

namespace CilWeave

namespace StackContext

/-- An instruction that may be used at a depth and whose successors are in the body. -/
structure Usable (context : StackContext) (position depth : Nat) (instruction : Instruction) : Prop where
  slots : ∀ index, instruction.local? = some index → index.toNat < context.body.locals.size
  arguments : ∀ index, instruction.argument? = some index → index.toNat < context.argumentCount
  covered : context.pops instruction ≤ depth
  returns : instruction.opcode = .ret → depth = context.pops instruction
  targets : ∀ target ∈ instruction.targets, ∃ next, context.body.target? target = some next
  falls : instruction.fallsThrough = true → position + 1 < context.body.instructions.size

/-- Where control may go from an instruction. -/
def Leads (context : StackContext) (position : Nat) (instruction : Instruction) (next : Nat) : Prop :=
  (∃ target ∈ instruction.targets, context.body.target? target = some next) ∨
    (instruction.fallsThrough = true ∧ next = position + 1)

variable {context : StackContext} {position depth : Nat} {instruction : Instruction}

theorem checkUse_of_usable (usable : context.Usable position depth instruction) :
    context.checkUse instruction depth = .ok () := by
  have covered := Nat.not_lt.mpr usable.covered
  have remains : ¬(instruction.opcode = .ret ∧ depth ≠ context.pops instruction) :=
    fun broken => broken.2 (usable.returns broken.1)
  unfold checkUse
  cases slot : instruction.local? with
  | none =>
      cases argument : instruction.argument? with
      | none => simp only [if_neg covered, if_neg remains]; rfl
      | some index =>
          simp only [if_neg (Nat.not_le.mpr (usable.arguments index argument)), if_neg covered, if_neg remains]
          rfl
  | some other =>
      simp only [if_neg (Nat.not_le.mpr (usable.slots other slot))]
      cases argument : instruction.argument? with
      | none => simp only [if_neg covered, if_neg remains]; rfl
      | some index =>
          simp only [if_neg (Nat.not_le.mpr (usable.arguments index argument)), if_neg covered, if_neg remains]
          rfl

theorem targetPositions_of_found {targets : List InstrId}
    (found : ∀ target ∈ targets, ∃ next, context.body.target? target = some next) :
    ∃ positions, context.targetPositions instruction targets = .ok positions := by
  induction targets with
  | nil => exact ⟨[], rfl⟩
  | cons target rest ih =>
      obtain ⟨next, first⟩ := found target List.mem_cons_self
      obtain ⟨positions, others⟩ := ih fun other member => found other (List.mem_cons_of_mem _ member)
      exact ⟨next :: positions, by simp only [targetPositions, first, others, Except.map]⟩

theorem successors_of_usable (usable : context.Usable position depth instruction) :
    ∃ successors, context.successors position instruction = .ok successors := by
  obtain ⟨positions, found⟩ : ∃ positions, context.targetPositions instruction instruction.targets = .ok positions :=
    targetPositions_of_found usable.targets
  unfold StackContext.successors
  simp only [found, bind, Except.bind]
  cases falls : instruction.fallsThrough with
  | false => exact ⟨positions, rfl⟩
  | true => exact ⟨positions ++ [position + 1], by simp only [usable.falls falls, if_true]; rfl⟩

/-- The successors of an instruction are the positions it leads to. -/
theorem mem_successors {successors : List Nat} (found : context.successors position instruction = .ok successors)
    {next : Nat} : next ∈ successors ↔ context.Leads position instruction next := by
  constructor
  · intro member
    unfold StackContext.successors at found
    cases targets : context.targetPositions instruction instruction.targets with
    | error fault => simp [targets, bind, Except.bind] at found
    | ok positions =>
        simp only [targets, bind, Except.bind] at found
        have branch (among : next ∈ positions) : context.Leads position instruction next := by
          have image : some next ∈ instruction.targets.map context.body.target? :=
            targetPositions_ok targets ▸ List.mem_map_of_mem among
          obtain ⟨target, listed, same⟩ := List.mem_map.mp image
          exact .inl ⟨target, listed, same⟩
        cases falls : instruction.fallsThrough with
        | false =>
            simp only [falls, Bool.false_eq_true, if_false, pure, Except.pure, Except.ok.injEq] at found
            exact branch (found ▸ member)
        | true =>
            simp only [falls, if_true] at found
            split at found
            · cases found
              rcases List.mem_append.mp member with among | last
              · exact branch among
              · exact .inr ⟨falls, List.mem_singleton.mp last⟩
            · cases found
  · obtain ⟨goes, through, -⟩ := successors_ok found
    rintro (⟨target, listed, same⟩ | ⟨falls, rfl⟩)
    · obtain ⟨other, among, equal⟩ := goes target listed
      cases same.symm.trans equal
      exact among
    · exact (through falls).1

/-- What the search checks of an instruction. -/
theorem usable_iff : context.Usable position depth instruction ↔
    context.checkUse instruction depth = .ok () ∧ ∃ successors, context.successors position instruction =
      .ok successors := by
  constructor
  · exact fun usable => ⟨checkUse_of_usable usable, successors_of_usable usable⟩
  · rintro ⟨used, successors, found⟩
    obtain ⟨slots, arguments, covered, returns⟩ := checkUse_ok used
    obtain ⟨goes, through, -⟩ := successors_ok found
    refine ⟨slots, arguments, covered, returns, fun target listed => ?_, fun falls => (through falls).2⟩
    obtain ⟨next, -, same⟩ := goes target listed
    exact ⟨next, same⟩

theorem Usable.target {next : Nat} (usable : context.Usable position depth instruction)
    (leads : context.Leads position instruction next) : next < context.body.instructions.size := by
  rcases leads with ⟨target, -, found⟩ | ⟨falls, rfl⟩
  · exact Body.target?_lt found
  · exact usable.falls falls

/-- Control brings one depth to each position it reaches, and the instruction there may be used at it. -/
structure Consistent (context : StackContext) : Prop where
  nonempty : 0 < context.body.instructions.size
  usable : ∀ position depth, context.Reaches position depth → ∃ instruction,
    context.body.instructions[position]? = some instruction ∧ context.Usable position depth instruction
  unique : ∀ position depth other, context.Reaches position depth → context.Reaches position other → depth = other

/-- A bound of all depths before and after instructions that control reaches. -/
def Bounds (context : StackContext) (bound : Nat) : Prop :=
  ∀ position depth instruction, context.Reaches position depth →
    context.body.instructions[position]? = some instruction →
    depth ≤ bound ∧ context.depthAfter instruction depth ≤ bound

theorem Reaches.leads {next : Nat} (reaches : context.Reaches position depth)
    (found : context.body.instructions[position]? = some instruction)
    (usable : context.Usable position depth instruction) (leads : context.Leads position instruction next) :
    context.Reaches next (context.depthAfter instruction depth) := by
  obtain ⟨successors, goes⟩ := successors_of_usable usable
  exact reaches.next found goes ((mem_successors goes).mpr leads)

/-- Depths that are kept from each instruction to those it leads to hold wherever control comes. -/
theorem reaches_induction {motive : Nat → Nat → Prop} (start : motive 0 0)
    (step : ∀ position depth instruction next, context.Reaches position depth → motive position depth →
      context.body.instructions[position]? = some instruction → context.Leads position instruction next →
      motive next (context.depthAfter instruction depth))
    (reaches : context.Reaches position depth) : motive position depth := by
  induction reaches with
  | entry => exact start
  | next earlier found goes member ih => exact step _ _ _ _ earlier ih found ((mem_successors goes).mp member)

end StackContext

namespace DepthSearch

open StackContext

variable {context : StackContext} {search after : DepthSearch} {atWork : List Nat}

theorem reach_greatest {depth position : Nat} (ran : context.reach depth search position = .ok after) :
    after.greatest = search.greatest := by
  unfold StackContext.reach at ran
  split at ran
  · cases ran
    rfl
  · split at ran
    · cases ran
      rfl
    · cases ran

theorem reachAll_greatest {depth : Nat} {positions : List Nat}
    (ran : positions.foldlM (context.reach depth) search = .ok after) : after.greatest = search.greatest := by
  induction positions generalizing search with
  | nil =>
      cases ran
      rfl
  | cons position rest ih =>
      rw [List.foldlM_cons] at ran
      obtain ⟨middle, first, ran⟩ := Stateful.bind_ok ran
      exact (ih ran).trans (reach_greatest first)

/-- Positions that control reaches with the depth they are given do not clash with what is known. -/
theorem reachAll_ok {depth : Nat} {positions : List Nat} (consistent : context.Consistent)
    (valid : search.Valid context atWork)
    (inside : ∀ position ∈ positions, position < context.body.instructions.size)
    (reaches : ∀ position ∈ positions, context.Reaches position depth) :
    ∃ after, positions.foldlM (context.reach depth) search = .ok after := by
  induction positions generalizing search with
  | nil => exact ⟨search, rfl⟩
  | cons position rest ih =>
      have own := reaches position List.mem_cons_self
      obtain ⟨middle, first⟩ : ∃ middle, context.reach depth search position = .ok middle := by
        unfold StackContext.reach
        cases found : search.depths[position]?.join with
        | none => exact ⟨_, rfl⟩
        | some known =>
            have same := consistent.unique _ _ _ (valid.reached position known found) own
            exact ⟨search, if_pos same⟩
      have middleValid := (reach_valid valid (inside position List.mem_cons_self) own first).1
      obtain ⟨after, rest⟩ := ih middleValid (fun other member => inside other (List.mem_cons_of_mem _ member))
        (fun other member => reaches other (List.mem_cons_of_mem _ member))
      exact ⟨after, by rw [List.foldlM_cons, first]; exact rest⟩

/-- A pending position is visited without a fault. -/
theorem visit_ok {position : Nat} {pending : List Nat} (consistent : context.Consistent)
    (valid : search.Valid context []) (next : search.pending = position :: pending) :
    ∃ after, context.visit { search with pending } position = .ok after := by
  obtain ⟨depth, known⟩ := valid.pending position (by simp [next])
  have reaches := valid.reached position depth known
  obtain ⟨instruction, found, usable⟩ := consistent.usable position depth reaches
  obtain ⟨used, successors, goes⟩ := usable_iff.mp usable
  have held : search.depths[position]?.join = some depth := known
  have raised := valid.work next depth (context.depthAfter instruction depth)
  obtain ⟨after, ran⟩ := reachAll_ok consistent raised (successors_ok goes).2.2
    fun successor member => reaches.next found goes member
  refine ⟨after, ?_⟩
  simp only [StackContext.visit, found, held, used, goes, bind, Except.bind]
  exact ran

theorem explore_ok {rounds : Nat} (consistent : context.Consistent) (valid : search.Valid context []) :
    ∃ after, context.explore rounds search = .ok after := by
  induction rounds generalizing search with
  | zero => exact ⟨search, rfl⟩
  | succ rounds ih =>
      cases next : search.pending with
      | nil => exact ⟨search, by simp only [StackContext.explore, next]⟩
      | cons position pending =>
          obtain ⟨middle, visited⟩ := visit_ok consistent valid next
          obtain ⟨after, rest⟩ := ih (visit_valid valid next visited).1
          exact ⟨after, by simp only [StackContext.explore, next, visited, bind, Except.bind]; exact rest⟩

/-- A visit raises the greatest depth to no more than bounds the depths. -/
theorem visit_le {bound position depth : Nat} (bounds : context.Bounds bound) (reaches : context.Reaches position depth)
    (known : search.known? position = some depth) (below : search.greatest ≤ bound)
    (ran : context.visit search position = .ok after) : after.greatest ≤ bound := by
  have held : search.depths[position]?.join = some depth := known
  unfold StackContext.visit at ran
  cases found : context.body.instructions[position]? with
  | none =>
      simp only [found] at ran
      cases ran
      exact below
  | some instruction =>
      simp only [found, held] at ran
      obtain ⟨-, -, ran⟩ := Stateful.bind_ok ran
      obtain ⟨successors, -, ran⟩ := Stateful.bind_ok ran
      obtain ⟨before, left⟩ := bounds position depth instruction reaches found
      rw [reachAll_greatest ran]
      exact Nat.max_le.mpr ⟨below, Nat.max_le.mpr ⟨before, left⟩⟩

theorem explore_le {bound rounds : Nat} (bounds : context.Bounds bound) (valid : search.Valid context [])
    (below : search.greatest ≤ bound) (ran : context.explore rounds search = .ok after) : after.greatest ≤ bound := by
  induction rounds generalizing search with
  | zero =>
      cases ran
      exact below
  | succ rounds ih =>
      unfold StackContext.explore at ran
      cases next : search.pending with
      | nil =>
          simp only [next] at ran
          cases ran
          exact below
      | cons position pending =>
          simp only [next] at ran
          obtain ⟨middle, visited, ran⟩ := Stateful.bind_ok ran
          obtain ⟨depth, known⟩ := valid.pending position (by simp [next])
          have taken : ({ search with pending } : DepthSearch).known? position = some depth := known
          exact ih (visit_valid valid next visited).1
            (visit_le bounds (valid.reached position depth known) taken below visited) ran

/-! A search with nothing left to visit knows exactly the depths that control brings. -/

namespace Valid

variable {position depth : Nat} (valid : search.Valid context []) (done : search.pending = [])

include valid done

theorem known (reaches : context.Reaches position depth) : search.known? position = some depth := by
  induction reaches with
  | entry => exact valid.entry
  | next _ held goes member ih =>
      obtain ⟨instruction, successors, same, -, goes', known, -⟩ :=
        (valid.settled _ _ ih nofun (by simp [done])).visited
      cases held.symm.trans same
      cases goes.symm.trans goes'
      exact known _ member

theorem reaches_settled (reaches : context.Reaches position depth) : search.Settled context position depth :=
  valid.settled position depth (valid.known done reaches) nofun (by simp [done])

theorem consistent (nonempty : 0 < context.body.instructions.size) : context.Consistent := by
  refine ⟨nonempty, fun position depth reaches => ?_, fun position depth other one same => ?_⟩
  · obtain ⟨instruction, successors, held, used, goes, -⟩ := (valid.reaches_settled done reaches).visited
    exact ⟨instruction, held, usable_iff.mpr ⟨used, successors, goes⟩⟩
  · exact Option.some.inj ((valid.known done one).symm.trans (valid.known done same))

theorem bounds {bound : Nat} (above : search.greatest ≤ bound) : context.Bounds bound := by
  intro position depth instruction reaches held
  obtain ⟨other, successors, same, -, -, -, before, left⟩ := (valid.reaches_settled done reaches).visited
  cases held.symm.trans same
  exact ⟨Nat.le_trans before above, Nat.le_trans left above⟩

end Valid

end DepthSearch

namespace StackContext

variable {context : StackContext}

theorem Consistent.search (consistent : context.Consistent) : ∃ found, context.search = .ok found :=
  DepthSearch.explore_ok consistent (DepthSearch.start_valid consistent.nonempty)

/-- The search ends only if depths are consistent. -/
theorem consistent_of_search {found : DepthSearch} (nonempty : 0 < context.body.instructions.size)
    (ran : context.search = .ok found) : context.Consistent :=
  (search_valid nonempty ran).1.consistent (search_valid nonempty ran).2 nonempty

/-- The greatest depth that the search notes is the least bound of all depths. -/
theorem bounds_iff {found : DepthSearch} (nonempty : 0 < context.body.instructions.size)
    (ran : context.search = .ok found) (bound : Nat) : context.Bounds bound ↔ found.greatest ≤ bound := by
  obtain ⟨valid, done⟩ := search_valid nonempty ran
  refine ⟨fun bounds => ?_, valid.bounds done⟩
  exact DepthSearch.explore_le bounds (DepthSearch.start_valid nonempty) (Nat.zero_le bound) ran

/-- What the depth of a body comes to: it is the least bound of the depths, unless that is too great. -/
theorem maxDepth_eq (consistent : context.Consistent) : ∃ greatest,
    (∀ bound, context.Bounds bound ↔ greatest ≤ bound) ∧
      context.maxDepth = if greatest ≤ 65535 then .ok greatest.toUInt16 else .error (.tooDeep greatest) := by
  obtain ⟨found, ran⟩ := consistent.search
  refine ⟨found.greatest, bounds_iff consistent.nonempty ran, ?_⟩
  have some : context.body.instructions.isEmpty = false := by
    simpa [Array.isEmpty, Nat.pos_iff_ne_zero] using consistent.nonempty
  unfold search at ran
  unfold maxDepth
  simp only [some, Bool.false_eq_true, if_false, ran, pure, Except.pure, bind, Except.bind]
  split <;> rfl

/-- Consistent depths are found, unless they are too great. -/
theorem Consistent.tooDeep (consistent : context.Consistent) {cause : StackFault} (failed : context.maxDepth = .error cause) :
    ∃ depth, cause = .tooDeep depth ∧ 65535 < depth := by
  obtain ⟨greatest, -, depth⟩ := maxDepth_eq consistent
  rw [depth] at failed
  split at failed
  · cases failed
  · cases failed
    exact ⟨greatest, rfl, Nat.lt_of_not_le ‹_›⟩

/-- A body has a depth only if depths are consistent, and the depth is their least bound. -/
theorem consistent_of_maxDepth {greatest : UInt16} (accepted : context.maxDepth = .ok greatest) :
    context.Consistent ∧ ∀ bound, context.Bounds bound ↔ greatest.toNat ≤ bound := by
  obtain ⟨nonempty, found, ran, most⟩ := maxDepth_ok accepted
  exact ⟨consistent_of_search nonempty ran, most ▸ bounds_iff nonempty ran⟩

/-- The depth of a body with consistent depths, from any number that bounds just what bounds them. -/
theorem maxDepth_of_bounds {greatest : Nat} (consistent : context.Consistent)
    (least : ∀ bound, context.Bounds bound ↔ greatest ≤ bound) :
    context.maxDepth = if greatest ≤ 65535 then .ok greatest.toUInt16 else .error (.tooDeep greatest) := by
  obtain ⟨other, same, depth⟩ := maxDepth_eq consistent
  have equal : other = greatest :=
    Nat.le_antisymm ((same greatest).mp ((least greatest).mpr (Nat.le_refl _)))
      ((least other).mp ((same other).mpr (Nat.le_refl _)))
  exact equal ▸ depth

end StackContext

/-- Instructions that do the same to the stack. -/
structure Instruction.Resembles (instruction other : Instruction) : Prop where
  returns : other.opcode = .ret ↔ instruction.opcode = .ret
  falls : other.fallsThrough = instruction.fallsThrough
  slot : other.local? = instruction.local?
  argument : other.argument? = instruction.argument?
  pops : other.pops = instruction.pops
  pushes : other.pushes = instruction.pushes

theorem Instruction.Resembles.trans {instruction middle other : Instruction} (first : instruction.Resembles middle)
    (second : middle.Resembles other) : instruction.Resembles other :=
  ⟨second.returns.trans first.returns, second.falls.trans first.falls, second.slot.trans first.slot,
    second.argument.trans first.argument, second.pops.trans first.pops, second.pushes.trans first.pushes⟩

theorem Instruction.Resembles.symm {instruction other : Instruction} (same : instruction.Resembles other) :
    other.Resembles instruction :=
  ⟨same.returns.symm, same.falls.symm, same.slot.symm, same.argument.symm, same.pops.symm, same.pushes.symm⟩

/-- A long branch does to the stack what the short one does. -/
theorem Instruction.Widens.resembles {narrow wide : Instruction} (widens : narrow.Widens wide) :
    narrow.Resembles wide := by
  obtain ⟨id, opcode, operand⟩ := narrow
  obtain ⟨wideId, wideOpcode, wideOperand⟩ := wide
  obtain ⟨sameId, sameOperand, changed⟩ := widens
  simp only at sameId sameOperand changed
  subst sameId sameOperand
  rcases changed with rfl | widened
  · exact ⟨.rfl, rfl, rfl, rfl, rfl, rfl⟩
  · cases opcode <;> simp only [Opcode.longForm?, Option.some.injEq, reduceCtorEq] at widened <;> subst widened <;>
      exact ⟨by simp only [reduceCtorEq], rfl, rfl, rfl, rfl, rfl⟩

theorem Instruction.redirect_resembles (rename : InstrId → InstrId) (instruction : Instruction) :
    instruction.Resembles (instruction.redirect rename) := by
  obtain ⟨id, opcode, operand⟩ := instruction
  cases operand <;> exact ⟨.rfl, rfl, rfl, rfl, rfl, rfl⟩

namespace StackContext

/-- Contexts in which the same may be taken, stored and returned. -/
structure SameRoom (context other : StackContext) : Prop where
  argumentCount : other.argumentCount = context.argumentCount
  returnsValue : other.returnsValue = context.returnsValue
  slots : other.body.locals.size = context.body.locals.size

/-- Contexts that only differ in what does not matter to the stack. -/
structure Resembles (context other : StackContext) : Prop extends SameRoom context other where
  ids : other.body.ids = context.body.ids
  instructions : ∀ (position : Nat) (instruction : Instruction), other.body.instructions[position]? = some instruction →
    ∃ own : Instruction, context.body.instructions[position]? = some own ∧ own.Resembles instruction ∧
      instruction.targets = own.targets

variable {context other : StackContext} {position depth : Nat} {own instruction : Instruction}

namespace SameRoom

variable (room : context.SameRoom other) (same : own.Resembles instruction)

include room same

theorem pops : other.pops instruction = context.pops own := by
  simp only [StackContext.pops, same.returns, same.pops, room.returnsValue]

theorem depthAfter (depth : Nat) : other.depthAfter instruction depth = context.depthAfter own depth := by
  simp only [StackContext.depthAfter, room.pops same, same.pushes]

/-- What may be used may be used in another place whose successors are in the body. -/
theorem usable {place : Nat} (usable : context.Usable position depth own)
    (targets : ∀ target ∈ instruction.targets, ∃ next, other.body.target? target = some next)
    (falls : instruction.fallsThrough = true → place + 1 < other.body.instructions.size) :
    other.Usable place depth instruction := by
  refine ⟨?_, ?_, ?_, ?_, targets, falls⟩
  · rw [same.slot, room.slots]
    exact usable.slots
  · rw [same.argument, room.argumentCount]
    exact usable.arguments
  · rw [room.pops same]
    exact usable.covered
  · rw [room.pops same, same.returns]
    exact usable.returns

end SameRoom

namespace Resembles

theorem leads (resembles : context.Resembles other) (same : own.Resembles instruction)
    (targets : instruction.targets = own.targets) {next : Nat} (leads : other.Leads position instruction next) :
    context.Leads position own next := by
  unfold Leads at leads ⊢
  simpa only [targets, same.falls, Body.target?, resembles.ids] using leads

theorem reaches (resembles : context.Resembles other) (consistent : context.Consistent)
    (reaches : other.Reaches position depth) : context.Reaches position depth := by
  refine reaches_induction .entry ?_ reaches
  intro position depth instruction next _ before found leads
  obtain ⟨own, held, same, targets⟩ := resembles.instructions position instruction found
  obtain ⟨used, there, usable⟩ := consistent.usable position depth before
  cases held.symm.trans there
  exact resembles.depthAfter same depth ▸ before.leads held usable (resembles.leads same targets leads)

theorem size (resembles : context.Resembles other) : other.body.instructions.size = context.body.instructions.size := by
  simpa [Body.ids] using congrArg List.length resembles.ids

theorem symm (resembles : context.Resembles other) : other.Resembles context := by
  refine ⟨⟨resembles.argumentCount.symm, resembles.returnsValue.symm, resembles.slots.symm⟩, resembles.ids.symm,
    fun position own found => ?_⟩
  have inside := (Array.getElem?_eq_some_iff.mp found).1
  have there := Array.getElem?_eq_getElem (resembles.size ▸ inside)
  obtain ⟨same, held, like, targets⟩ := resembles.instructions position _ there
  cases found.symm.trans held
  exact ⟨_, there, like.symm, targets.symm⟩

/-- Consistency depends only on what matters to the stack. -/
theorem consistent (resembles : context.Resembles other) (consistent : context.Consistent) : other.Consistent := by
  have size := resembles.size
  refine ⟨size ▸ consistent.nonempty, fun position depth reaches => ?_, fun position depth others one same => ?_⟩
  · obtain ⟨own, held, usable⟩ := consistent.usable position depth (resembles.reaches consistent reaches)
    have inside : position < other.body.instructions.size := size ▸ (Array.getElem?_eq_some_iff.mp held).1
    have found := Array.getElem?_eq_getElem inside
    obtain ⟨same, there, like, targets⟩ := resembles.instructions position _ found
    cases held.symm.trans there
    refine ⟨_, found, resembles.usable like usable ?_ ?_⟩
    · simpa only [targets, Body.target?, resembles.ids] using usable.targets
    · simpa only [like.falls, size] using usable.falls
  · exact consistent.unique position depth others (resembles.reaches consistent one) (resembles.reaches consistent same)

end Resembles

end StackContext

end CilWeave
