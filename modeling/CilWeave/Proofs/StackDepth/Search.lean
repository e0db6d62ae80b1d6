import CilWeave.Proofs.Body.Position
import CilWeave.StackDepth

/-!
The search for stack depths finds exactly the depths that control can bring to a position: each position
is visited once, and when nothing is left to visit the depths found agree along every way control may
take.
-/

namespace CilWeave

namespace StackContext

variable (context : StackContext)

/-- The depth an instruction leaves. -/
def depthAfter (instruction : Instruction) (depth : Nat) : Nat := depth - context.pops instruction + instruction.pushes

/-- The depths that control brings to positions, from an empty stack at the first. -/
inductive Reaches : Nat → Nat → Prop
  | entry : Reaches 0 0
  | next {position depth successor : Nat} {instruction : Instruction} {successors : List Nat} :
      Reaches position depth → context.body.instructions[position]? = some instruction →
      context.successors position instruction = .ok successors → successor ∈ successors →
      Reaches successor (context.depthAfter instruction depth)

/-- The search for depths, run to its end. -/
def search : Except StackFault DepthSearch := context.explore (context.body.instructions.size + 1) context.start

/-- The depth that the search finds for a position. -/
def depthAt? (position : Nat) : Option Nat :=
  match context.search with
  | .ok found => found.depths[position]?.join
  | .error _ => none

variable {context}

theorem targetPositions_ok {instruction : Instruction} {targets : List InstrId} {positions : List Nat}
    (found : context.targetPositions instruction targets = .ok positions) :
    targets.map context.body.target? = positions.map some := by
  induction targets generalizing positions with
  | nil => cases found; rfl
  | cons target rest ih =>
      simp only [targetPositions] at found
      cases first : context.body.target? target with
      | none => simp [first] at found
      | some position =>
          cases others : context.targetPositions instruction rest with
          | error fault => simp [first, others, Except.map] at found
          | ok positions =>
              simp only [first, others, Except.map, Except.ok.injEq] at found
              subst found
              simp [first, ih others]

/-- Where control may go next. -/
theorem successors_ok {position : Nat} {instruction : Instruction} {successors : List Nat}
    (found : context.successors position instruction = .ok successors) :
    (∀ target ∈ instruction.targets, ∃ next ∈ successors, context.body.target? target = some next) ∧
      (instruction.fallsThrough = true →
        position + 1 ∈ successors ∧ position + 1 < context.body.instructions.size) ∧
      ∀ next ∈ successors, next < context.body.instructions.size := by
  unfold StackContext.successors at found
  cases targets : context.targetPositions instruction instruction.targets with
  | error fault => simp [targets, bind, Except.bind] at found
  | ok positions =>
      simp only [targets, bind, Except.bind] at found
      have same := targetPositions_ok targets
      have goes : ∀ target ∈ instruction.targets, ∃ next ∈ positions, context.body.target? target = some next := by
        intro target member
        have image : context.body.target? target ∈ positions.map some := same ▸ List.mem_map_of_mem member
        obtain ⟨next, inside, equal⟩ := List.mem_map.mp image
        exact ⟨next, inside, equal.symm⟩
      have inside : ∀ next ∈ positions, next < context.body.instructions.size := by
        intro next member
        have image : some next ∈ instruction.targets.map context.body.target? := same ▸ List.mem_map_of_mem member
        obtain ⟨target, -, equal⟩ := List.mem_map.mp image
        exact Body.target?_lt equal
      cases falls : instruction.fallsThrough with
      | false =>
          simp only [falls, Bool.false_eq_true, if_false, pure, Except.pure, Except.ok.injEq] at found
          subst found
          exact ⟨goes, nofun, inside⟩
      | true =>
          simp only [falls, if_true] at found
          split at found
          · rename_i bound
            cases found
            refine ⟨fun target member => ?_, fun _ => ⟨by simp, bound⟩, fun next member => ?_⟩
            · obtain ⟨next, among, equal⟩ := goes target member
              exact ⟨next, by simp [among], equal⟩
            · rcases List.mem_append.mp member with among | last
              · exact inside next among
              · simp only [List.mem_singleton] at last
                omega
          · cases found

end StackContext

namespace DepthSearch

/-- The depth found for a position so far. -/
def known? (search : DepthSearch) (position : Nat) : Option Nat := search.depths[position]?.join

/-- The visits that are left: those pending and those of positions without a depth. -/
def remaining (search : DepthSearch) : Nat := search.pending.length + search.depths.toList.count none

/-- A known position that has been visited: its instruction was checked and all its successors are known. -/
structure Settled (context : StackContext) (search : DepthSearch) (position depth : Nat) : Prop where
  visited : ∃ instruction successors, context.body.instructions[position]? = some instruction ∧
    context.checkUse instruction depth = .ok () ∧ context.successors position instruction = .ok successors ∧
    (∀ next ∈ successors, search.known? next = some (context.depthAfter instruction depth)) ∧
    depth ≤ search.greatest ∧ context.depthAfter instruction depth ≤ search.greatest

/-- What holds of a search all the time, but for the positions at work. -/
structure Valid (context : StackContext) (atWork : List Nat) (search : DepthSearch) : Prop where
  size : search.depths.size = context.body.instructions.size
  entry : search.known? 0 = some 0
  reached : ∀ position depth, search.known? position = some depth → context.Reaches position depth
  pending : ∀ position ∈ search.pending, ∃ depth, search.known? position = some depth
  settled : ∀ position depth, search.known? position = some depth → position ∉ atWork → position ∉ search.pending →
    search.Settled context position depth

variable {context : StackContext} {search after : DepthSearch} {atWork : List Nat}

/-- A search that knows all that another knows. -/
def Extends (search after : DepthSearch) : Prop :=
  search.greatest ≤ after.greatest ∧ ∀ position depth, search.known? position = some depth →
    after.known? position = some depth

theorem Settled.extend {position depth : Nat} (settled : search.Settled context position depth)
    (extended : search.Extends after) : after.Settled context position depth := by
  obtain ⟨instruction, successors, found, used, goes, known, before, left⟩ := settled.visited
  refine ⟨instruction, successors, found, used, goes, fun next member => ?_, ?_, ?_⟩
  · exact extended.2 next _ (known next member)
  · exact Nat.le_trans before extended.1
  · exact Nat.le_trans left extended.1

/-- The search after a position without a depth is given one. -/
def assign (search : DepthSearch) (position depth : Nat) : DepthSearch :=
  { search with
    depths := search.depths.setIfInBounds position (some depth)
    pending := search.pending ++ [position] }

theorem known?_assign {position : Nat} (depth : Nat) (inside : position < search.depths.size) (other : Nat) :
    (search.assign position depth).known? other = if position = other then some depth else search.known? other := by
  simp only [known?, assign, Array.getElem?_setIfInBounds, inside, if_true]
  split <;> rfl

theorem remaining_assign {position : Nat} (depth : Nat) (inside : position < search.depths.size)
    (unknown : search.known? position = none) : (search.assign position depth).remaining = search.remaining := by
  have bound : position < search.depths.toList.length := by simpa using inside
  have held : search.depths.toList[position] = none := by
    simpa [known?, Array.getElem?_eq_getElem inside] using unknown
  have present : none ∈ search.depths.toList := held ▸ List.getElem_mem _
  have counted := List.count_pos_iff.mpr present
  simp only [remaining, assign, Array.toList_setIfInBounds, List.length_append, List.length_singleton,
    List.count_set bound, held]
  simp only [beq_self_eq_true, if_true, beq_iff_eq, reduceCtorEq, if_false]
  omega

theorem assign_extends {position : Nat} (depth : Nat) (inside : position < search.depths.size)
    (unknown : search.known? position = none) : search.Extends (search.assign position depth) := by
  refine ⟨Nat.le_refl _, fun other held known => ?_⟩
  rw [known?_assign depth inside]
  split
  · rename_i same
    rw [← same, unknown] at known
    cases known
  · exact known

/-- Reaching a position makes it known and leaves as many visits to do. -/
theorem reach_valid {depth position : Nat} (valid : search.Valid context atWork)
    (inside : position < context.body.instructions.size) (reaches : context.Reaches position depth)
    (ran : context.reach depth search position = .ok after) :
    after.Valid context atWork ∧ search.Extends after ∧ after.known? position = some depth ∧
      after.remaining = search.remaining := by
  have bound : position < search.depths.size := valid.size ▸ inside
  unfold StackContext.reach at ran
  cases unknown : search.known? position with
  | some known =>
      simp only [known?] at unknown
      simp only [unknown] at ran
      split at ran
      · rename_i same
        cases ran
        exact ⟨valid, ⟨Nat.le_refl _, fun _ _ found => found⟩, same ▸ unknown, rfl⟩
      · cases ran
  | none =>
      have extended := assign_extends depth bound unknown
      have left := remaining_assign depth bound unknown
      have known := known?_assign depth bound
      simp only [known?] at unknown
      simp only [unknown, Except.ok.injEq] at ran
      change search.assign position depth = after at ran
      subst ran
      refine ⟨⟨?_, ?_, ?_, ?_, ?_⟩, extended, by simp [known], left⟩
      · simpa [assign] using valid.size
      · exact extended.2 0 0 valid.entry
      · intro other held found
        rw [known] at found
        split at found
        · rename_i same
          cases found
          exact same ▸ reaches
        · exact valid.reached other held found
      · intro other member
        rcases List.mem_append.mp member with earlier | last
        · obtain ⟨held, found⟩ := valid.pending other earlier
          exact ⟨held, extended.2 other held found⟩
        · exact ⟨depth, by simp [known, List.mem_singleton.mp last]⟩
      · intro other held found working waiting
        rw [known] at found
        split at found
        · rename_i same
          exact absurd (List.mem_append.mpr (.inr (List.mem_singleton.mpr same.symm))) waiting
        · refine (valid.settled other held found working fun earlier => ?_).extend extended
          exact waiting (List.mem_append.mpr (.inl earlier))

/-- Reaching several positions. -/
theorem reachAll_valid {depth : Nat} {positions : List Nat} (valid : search.Valid context atWork)
    (inside : ∀ position ∈ positions, position < context.body.instructions.size)
    (reaches : ∀ position ∈ positions, context.Reaches position depth)
    (ran : positions.foldlM (context.reach depth) search = .ok after) :
    after.Valid context atWork ∧ search.Extends after ∧ (∀ position ∈ positions, after.known? position = some depth) ∧
      after.remaining = search.remaining := by
  induction positions generalizing search with
  | nil =>
      cases ran
      exact ⟨valid, ⟨Nat.le_refl _, fun _ _ found => found⟩, nofun, rfl⟩
  | cons position rest ih =>
      rw [List.foldlM_cons] at ran
      cases first : context.reach depth search position with
      | error fault => simp [first, bind, Except.bind] at ran
      | ok middle =>
          simp only [first, bind, Except.bind] at ran
          obtain ⟨middleValid, toMiddle, known, left⟩ := reach_valid valid (inside _ List.mem_cons_self)
            (reaches _ List.mem_cons_self) first
          obtain ⟨afterValid, toAfter, others, same⟩ := ih middleValid
            (fun other member => inside other (List.mem_cons_of_mem _ member))
            (fun other member => reaches other (List.mem_cons_of_mem _ member)) ran
          refine ⟨afterValid, ⟨Nat.le_trans toMiddle.1 toAfter.1, fun other held found => ?_⟩, fun other member => ?_,
            same.trans left⟩
          · exact toAfter.2 other held (toMiddle.2 other held found)
          · rcases List.mem_cons.mp member with rfl | later
            · exact toAfter.2 _ _ known
            · exact others other later

/-- A pending position may be taken up; the greatest depth may be raised for it. -/
theorem Valid.work {position : Nat} {pending : List Nat} (valid : search.Valid context [])
    (next : search.pending = position :: pending) (depth after : Nat) :
    Valid context [position] ⟨search.depths, pending, max search.greatest (max depth after)⟩ := by
  refine ⟨valid.size, valid.entry, valid.reached, fun other member => ?_, fun other held found working waiting => ?_⟩
  · exact valid.pending other (by simp [next, member])
  · refine (valid.settled other held found nofun ?_).extend ⟨Nat.le_max_left _ _, fun _ _ same => same⟩
    simp only [List.mem_singleton] at working
    simpa [next, working] using waiting

/-- Visiting a pending position settles it. -/
theorem visit_valid {position : Nat} {pending : List Nat} (valid : search.Valid context [])
    (next : search.pending = position :: pending)
    (ran : context.visit { search with pending } position = .ok after) :
    after.Valid context [] ∧ after.remaining + 1 = search.remaining := by
  obtain ⟨depth, known⟩ := valid.pending position (by simp [next])
  have bound : position < context.body.instructions.size := by
    rcases Nat.lt_or_ge position search.depths.size with inside | outside
    · exact valid.size ▸ inside
    · simp [known?, Array.getElem?_eq_none outside] at known
  obtain ⟨instruction, found⟩ : ∃ instruction, context.body.instructions[position]? = some instruction :=
    ⟨_, Array.getElem?_eq_getElem bound⟩
  have held : search.depths[position]?.join = some depth := known
  simp only [StackContext.visit, found, held] at ran
  cases used : context.checkUse instruction depth with
  | error fault => simp [used, bind, Except.bind] at ran
  | ok _ =>
      cases goes : context.successors position instruction with
      | error fault => simp [used, goes, bind, Except.bind] at ran
      | ok successors =>
          simp only [used, goes, bind, Except.bind] at ran
          obtain ⟨-, -, inside⟩ := StackContext.successors_ok goes
          have reaches := valid.reached position depth known
          have raised := valid.work next depth (context.depthAfter instruction depth)
          obtain ⟨afterValid, extended, all, same⟩ := reachAll_valid raised inside
            (fun successor member => reaches.next found goes member) ran
          refine ⟨⟨afterValid.size, afterValid.entry, afterValid.reached, afterValid.pending,
            fun other given current _ waiting => ?_⟩, ?_⟩
          · by_cases own : other = position
            · subst own
              obtain rfl : given = depth := Option.some.inj (current.symm.trans (extended.2 other depth known))
              exact ⟨instruction, successors, found, used, goes, all,
                Nat.le_trans (Nat.le_trans (Nat.le_max_left _ _) (Nat.le_max_right _ _)) extended.1,
                Nat.le_trans (Nat.le_trans (Nat.le_max_right _ _) (Nat.le_max_right _ _)) extended.1⟩
            · exact afterValid.settled other given current (by simpa using own) waiting
          · rw [same]
            simp only [remaining, next, List.length_cons]
            omega

theorem explore_valid {rounds : Nat} (valid : search.Valid context []) (enough : search.remaining ≤ rounds)
    (ran : context.explore rounds search = .ok after) : after.Valid context [] ∧ after.pending = [] := by
  induction rounds generalizing search with
  | zero =>
      cases ran
      refine ⟨valid, List.eq_nil_of_length_eq_zero ?_⟩
      simp only [remaining] at enough
      omega
  | succ rounds ih =>
      unfold StackContext.explore at ran
      cases next : search.pending with
      | nil =>
          simp only [next] at ran
          cases ran
          exact ⟨valid, next⟩
      | cons position pending =>
          simp only [next] at ran
          cases visited : context.visit { search with pending } position with
          | error fault => simp [visited, bind, Except.bind] at ran
          | ok middle =>
              simp only [visited, bind, Except.bind] at ran
              obtain ⟨middleValid, fewer⟩ := visit_valid valid next visited
              exact ih middleValid (by omega) ran

theorem start_valid (nonempty : 0 < context.body.instructions.size) : context.start.Valid context [] := by
  have known (position : Nat) : context.start.known? position = if position = 0 then some 0 else none := by
    simp only [known?, StackContext.start, Array.getElem?_setIfInBounds, Array.size_replicate, nonempty, if_true]
    by_cases first : 0 = position
    · simp [first]
    · simp only [first, Ne.symm first, Array.getElem?_replicate, if_false]
      split <;> rfl
  refine ⟨by simp [StackContext.start], by simp [known], fun position depth found => ?_, fun position member => ?_,
    fun position depth found _ waiting => ?_⟩
  · rw [known] at found
    split at found
    · rename_i first
      subst first
      cases found
      exact .entry
    · cases found
  · exact ⟨0, by simp [known, List.mem_singleton.mp member]⟩
  · rw [known] at found
    split at found
    · rename_i first
      exact absurd (by simp [StackContext.start, first]) waiting
    · cases found

theorem start_remaining : context.start.remaining ≤ context.body.instructions.size + 1 := by
  have most : context.start.depths.toList.count none ≤ context.start.depths.toList.length := List.count_le_length
  simp only [StackContext.start, Array.length_toList, Array.size_setIfInBounds, Array.size_replicate] at most
  simp only [remaining, StackContext.start, List.length_singleton]
  omega

end DepthSearch

namespace StackContext

variable {context : StackContext}

/-- A search that ends has settled every position it knows. -/
theorem search_valid {found : DepthSearch} (nonempty : 0 < context.body.instructions.size)
    (ran : context.search = .ok found) : found.Valid context [] ∧ found.pending = [] :=
  DepthSearch.explore_valid (DepthSearch.start_valid nonempty) DepthSearch.start_remaining ran

/-- What `maxDepth` accepts has been searched to the end, and its result is the greatest depth. -/
theorem maxDepth_ok {greatest : UInt16} (accepted : context.maxDepth = .ok greatest) :
    0 < context.body.instructions.size ∧ ∃ found, context.search = .ok found ∧ found.greatest = greatest.toNat := by
  unfold maxDepth at accepted
  cases empty : context.body.instructions.isEmpty with
  | true => simp [empty, bind, Except.bind, throw, throwThe, MonadExceptOf.throw] at accepted
  | false =>
      have nonempty : 0 < context.body.instructions.size := by
        simpa [Array.isEmpty, Nat.pos_iff_ne_zero] using empty
      refine ⟨nonempty, ?_⟩
      simp only [empty, Bool.false_eq_true, if_false, pure, Except.pure, bind, Except.bind] at accepted
      cases ran : context.search with
      | error fault =>
          simp only [search] at ran
          simp [ran] at accepted
      | ok found =>
          simp only [search] at ran
          simp only [ran] at accepted
          split at accepted
          · rename_i bounded
            cases accepted
            exact ⟨found, rfl, by simp [Nat.mod_eq_of_lt (show found.greatest < 65536 by omega)]⟩
          · cases accepted

/-- A position that the search gives a depth holds an instruction that may be used there, and its
successors are given the depth it leaves. -/
theorem depthAt?_settled {greatest : UInt16} {position depth : Nat} (accepted : context.maxDepth = .ok greatest)
    (given : context.depthAt? position = some depth) :
    ∃ instruction successors, context.body.instructions[position]? = some instruction ∧
      context.checkUse instruction depth = .ok () ∧ context.successors position instruction = .ok successors ∧
      (∀ next ∈ successors, context.depthAt? next = some (context.depthAfter instruction depth)) ∧
      depth ≤ greatest.toNat := by
  obtain ⟨nonempty, found, ran, most⟩ := maxDepth_ok accepted
  obtain ⟨valid, done⟩ := search_valid nonempty ran
  have same (other : Nat) : context.depthAt? other = found.known? other := by
    simp only [depthAt?, ran, DepthSearch.known?]
  rw [same] at given
  obtain ⟨instruction, successors, held, used, goes, known, bounded, -⟩ :=
    (valid.settled position depth given nofun (by simp [done])).visited
  exact ⟨instruction, successors, held, used, goes, fun next member => (same next).trans (known next member),
    most ▸ bounded⟩

theorem depthAt?_entry {greatest : UInt16} (accepted : context.maxDepth = .ok greatest) :
    context.depthAt? 0 = some 0 := by
  obtain ⟨nonempty, found, ran, -⟩ := maxDepth_ok accepted
  simp only [depthAt?, ran]
  exact (search_valid nonempty ran).1.entry

/-- The depth given to a position is the only one that control can bring there. -/
theorem depthAt?_iff_reaches {greatest : UInt16} (accepted : context.maxDepth = .ok greatest) {position depth : Nat} :
    context.depthAt? position = some depth ↔ context.Reaches position depth := by
  constructor
  · intro given
    obtain ⟨nonempty, found, ran, -⟩ := maxDepth_ok accepted
    simp only [depthAt?, ran] at given
    exact (search_valid nonempty ran).1.reached position depth given
  · intro reaches
    induction reaches with
    | entry => exact depthAt?_entry accepted
    | next _ held goes member ih =>
        obtain ⟨instruction, successors, same, -, goes', known, -⟩ := depthAt?_settled accepted ih
        rw [held] at same
        cases same
        rw [goes] at goes'
        cases goes'
        exact known _ member

end StackContext

end CilWeave
