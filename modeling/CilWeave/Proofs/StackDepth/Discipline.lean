import Mathlib.Order.Lattice.Nat
import CilWeave.Proofs.StackDepth.Consistency

/-!
The search for stack depths decides the stack discipline: it accepts just the bodies whose reachable
positions can be given depths that agree along every way control may take, and answers the greatest of
them. In which order pending positions are visited makes no difference to that.
-/

namespace CilWeave

namespace StackContext

/-- The positions that control may come to: the first one and those that they lead to. -/
inductive Reachable (context : StackContext) : Nat → Prop
  | entry : context.Reachable 0
  | next {position next : Nat} {instruction : Instruction} : context.Reachable position →
      context.body.instructions[position]? = some instruction → context.Leads position instruction next →
      context.Reachable next

/-- The depths before and after the instructions that control may come to. -/
def heights (context : StackContext) (depth : Nat → Nat) : Set Nat :=
  { height | ∃ position instruction, context.Reachable position ∧
      context.body.instructions[position]? = some instruction ∧
      (height = depth position ∨ height = context.depthAfter instruction (depth position)) }

/-- Depths of positions that keep the stack discipline wherever control may come. -/
structure Disciplined (context : StackContext) (depth : Nat → Nat) : Prop where
  entry : depth 0 = 0
  usable : ∀ position instruction, context.Reachable position →
    context.body.instructions[position]? = some instruction → context.Usable position (depth position) instruction
  leads : ∀ position next instruction, context.Reachable position →
    context.body.instructions[position]? = some instruction → context.Leads position instruction next →
    depth next = context.depthAfter instruction (depth position)
  bounded : ∀ height ∈ context.heights depth, height ≤ 65535

variable {context : StackContext} {depth : Nat → Nat} {position : Nat}

theorem Reaches.reachable {held : Nat} (reaches : context.Reaches position held) : context.Reachable position :=
  reaches_induction (motive := fun position _ => context.Reachable position) .entry
    (fun _ _ _ _ _ earlier found leads => earlier.next found leads) reaches

/-- Where depths are consistent, control brings a depth to every position that it may come to. -/
theorem Consistent.reaches (consistent : context.Consistent) (reachable : context.Reachable position) :
    ∃ held, context.Reaches position held := by
  induction reachable with
  | entry => exact ⟨0, .entry⟩
  | next _ found leads ih =>
      obtain ⟨held, earlier⟩ := ih
      obtain ⟨instruction, same, usable⟩ := consistent.usable _ _ earlier
      cases found.symm.trans same
      exact ⟨_, earlier.leads found usable leads⟩

/-- Control brings the depths of the discipline. -/
theorem Disciplined.reaches (disciplined : context.Disciplined depth) {held : Nat}
    (reaches : context.Reaches position held) : held = depth position := by
  refine reaches_induction (motive := fun position held => held = depth position) disciplined.entry.symm ?_ reaches
  intro position held instruction next earlier same found leads
  rw [disciplined.leads position next instruction earlier.reachable found leads, same]

theorem Disciplined.inside (disciplined : context.Disciplined depth) (nonempty : 0 < context.body.instructions.size)
    (reachable : context.Reachable position) : position < context.body.instructions.size := by
  cases reachable with
  | entry => exact nonempty
  | next earlier found leads => exact (disciplined.usable _ _ earlier found).target leads

theorem Disciplined.consistent (disciplined : context.Disciplined depth)
    (nonempty : 0 < context.body.instructions.size) : context.Consistent := by
  refine ⟨nonempty, fun position held reaches => ?_, fun position held other one same => ?_⟩
  · have found := Array.getElem?_eq_getElem (disciplined.inside nonempty reaches.reachable)
    rw [disciplined.reaches reaches]
    exact ⟨_, found, disciplined.usable _ _ reaches.reachable found⟩
  · rw [disciplined.reaches one, disciplined.reaches same]

/-- What bounds the depths that control brings bounds the depths of the discipline. -/
theorem Disciplined.bounds_iff (disciplined : context.Disciplined depth) (consistent : context.Consistent) (bound : Nat) :
    context.Bounds bound ↔ bound ∈ upperBounds (context.heights depth) := by
  constructor
  · rintro bounds height ⟨position, instruction, reachable, found, height⟩
    obtain ⟨held, reaches⟩ := consistent.reaches reachable
    obtain ⟨before, after⟩ := bounds position held instruction reaches found
    rw [disciplined.reaches reaches] at before after
    rcases height with rfl | rfl
    · exact before
    · exact after
  · intro above position held instruction reaches found
    rw [disciplined.reaches reaches]
    exact ⟨above ⟨position, instruction, reaches.reachable, found, .inl rfl⟩,
      above ⟨position, instruction, reaches.reachable, found, .inr rfl⟩⟩

/-- The depths that the search finds keep the discipline. -/
theorem Consistent.disciplined (consistent : context.Consistent) (bounds : context.Bounds 65535) :
    ∃ depth, context.Disciplined depth := by
  classical
  have brought : ∀ position, ∃ held, context.Reachable position → context.Reaches position held := by
    intro position
    by_cases reachable : context.Reachable position
    · obtain ⟨held, reaches⟩ := consistent.reaches reachable
      exact ⟨held, fun _ => reaches⟩
    · exact ⟨0, fun reached => absurd reached reachable⟩
  obtain ⟨depth, reaches⟩ := Classical.axiomOfChoice brought
  have usable {position : Nat} {instruction : Instruction} (reachable : context.Reachable position)
      (found : context.body.instructions[position]? = some instruction) :
      context.Usable position (depth position) instruction := by
    obtain ⟨other, same, usable⟩ := consistent.usable _ _ (reaches position reachable)
    cases found.symm.trans same
    exact usable
  refine ⟨depth, ⟨?_, fun position instruction => usable, ?_, ?_⟩⟩
  · exact consistent.unique 0 _ _ (reaches 0 .entry) .entry
  · intro position next instruction reachable found leads
    exact consistent.unique next _ _ (reaches next (reachable.next found leads))
      ((reaches position reachable).leads found (usable reachable found) leads)
  · rintro height ⟨position, instruction, reachable, found, height⟩
    obtain ⟨before, after⟩ := bounds position _ instruction (reaches position reachable) found
    rcases height with rfl | rfl
    · exact before
    · exact after

/-- A search carried to its end, with the pending positions taken up in any order. -/
inductive Explores (context : StackContext) : DepthSearch → Except StackFault DepthSearch → Prop
  | done {search : DepthSearch} : search.pending = [] → context.Explores search (.ok search)
  | fault {search : DepthSearch} {position : Nat} {pending : List Nat} {fault : StackFault} :
      search.pending.Perm (position :: pending) → context.visit { search with pending } position = .error fault →
      context.Explores search (.error fault)
  | visit {search next : DepthSearch} {position : Nat} {pending : List Nat} {outcome : Except StackFault DepthSearch} :
      search.pending.Perm (position :: pending) → context.visit { search with pending } position = .ok next →
      context.Explores next outcome → context.Explores search outcome

end StackContext

namespace DepthSearch

open StackContext

variable {context : StackContext} {search found : DepthSearch} {outcome : Except StackFault DepthSearch}

/-- What is pending may be put in another order. -/
theorem Valid.rearrange (valid : search.Valid context []) {pending : List Nat} (same : search.pending.Perm pending) :
    Valid context [] { search with pending } :=
  ⟨valid.size, valid.entry, valid.reached, fun position member => valid.pending position (same.mem_iff.mpr member),
    fun position depth known working waiting =>
      ⟨(valid.settled position depth known working fun member => waiting (same.mem_iff.mp member)).visited⟩⟩

/-- The search in order is one of those in any order: its rounds are enough to visit all positions. -/
theorem explores_explore {rounds : Nat} (valid : search.Valid context []) (enough : search.remaining ≤ rounds) :
    context.Explores search (context.explore rounds search) := by
  induction rounds generalizing search with
  | zero => exact .done (List.eq_nil_of_length_eq_zero (by simp only [remaining] at enough; omega))
  | succ rounds ih =>
      unfold StackContext.explore
      cases next : search.pending with
      | nil => exact .done next
      | cons position pending =>
          dsimp only
          cases visited : context.visit { search with pending } position with
          | error fault => exact .fault (.of_eq next) visited
          | ok middle =>
              obtain ⟨after, fewer⟩ := visit_valid valid next visited
              exact .visit (.of_eq next) visited (ih after (by omega))

/-- Whatever the order, a search that ends without a fault has settled everything. -/
theorem explores_valid (valid : search.Valid context []) (explores : context.Explores search outcome)
    (ended : outcome = .ok found) : found.Valid context [] ∧ found.pending = [] := by
  induction explores with
  | done none =>
      cases ended
      exact ⟨valid, none⟩
  | fault _ _ => cases ended
  | visit same visited _ ih => exact ih (visit_valid (valid.rearrange same) rfl visited).1 ended

/-- Whatever the order, there is no fault if depths are consistent, and no more than bounds the depths is noted. -/
theorem explores_le {bound : Nat} (consistent : context.Consistent) (bounds : context.Bounds bound)
    (valid : search.Valid context []) (below : search.greatest ≤ bound) (explores : context.Explores search outcome) :
    ∃ found, outcome = .ok found ∧ found.greatest ≤ bound := by
  induction explores with
  | done _ => exact ⟨_, rfl, below⟩
  | fault same failed =>
      obtain ⟨after, ran⟩ := visit_ok consistent (valid.rearrange same) rfl
      cases failed.symm.trans ran
  | @visit search next position pending outcome same visited _ ih =>
      have arranged := valid.rearrange same
      obtain ⟨depth, known⟩ := arranged.pending position List.mem_cons_self
      have brought := arranged.reached position depth known
      have kept : ({ search with pending } : DepthSearch).known? position = some depth := known
      have least := visit_le bounds brought kept below visited
      exact ih (visit_valid arranged rfl visited).1 least

end DepthSearch

namespace StackContext

variable {context : StackContext}

/-- A body has a depth just when its depths are consistent and it is their least bound. -/
theorem maxDepth_iff {greatest : UInt16} : context.maxDepth = .ok greatest ↔
    context.Consistent ∧ ∀ bound, context.Bounds bound ↔ greatest.toNat ≤ bound := by
  refine ⟨consistent_of_maxDepth, fun ⟨consistent, least⟩ => ?_⟩
  rw [maxDepth_of_bounds consistent least, if_pos (Nat.le_of_lt_succ greatest.toNat_lt)]
  simp

/-- Whatever the order of visits, a search ends with the depth of the body, or with a fault if there is none. -/
theorem explores_iff (nonempty : 0 < context.body.instructions.size) {outcome : Except StackFault DepthSearch}
    (explores : context.Explores context.start outcome) (greatest : UInt16) :
    context.maxDepth = .ok greatest ↔ ∃ found, outcome = .ok found ∧ found.greatest = greatest.toNat := by
  have valid : context.start.Valid context [] := DepthSearch.start_valid nonempty
  have least {found : DepthSearch} (ended : outcome = .ok found) :
      context.Consistent ∧ ∀ bound, context.Bounds bound ↔ found.greatest ≤ bound := by
    obtain ⟨settled, done⟩ := DepthSearch.explores_valid valid explores ended
    have consistent := settled.consistent done nonempty
    refine ⟨consistent, fun bound => ⟨fun bounds => ?_, settled.bounds done⟩⟩
    obtain ⟨other, same, below⟩ := DepthSearch.explores_le consistent bounds valid (Nat.zero_le bound) explores
    cases ended.symm.trans same
    exact below
  rw [maxDepth_iff]
  constructor
  · rintro ⟨consistent, bounds⟩
    obtain ⟨found, ended, below⟩ := DepthSearch.explores_le consistent ((bounds _).mpr (Nat.le_refl _)) valid
      (Nat.zero_le _) explores
    have above := (bounds _).mp (((least ended).2 _).mpr (Nat.le_refl _))
    exact ⟨found, ended, Nat.le_antisymm below above⟩
  · rintro ⟨found, ended, same⟩
    exact same ▸ least ended

/-- The depth of a body is the greatest depth of the discipline. -/
theorem Disciplined.isGreatest {depth : Nat → Nat} {greatest : UInt16} (disciplined : context.Disciplined depth)
    (accepted : context.maxDepth = .ok greatest) : IsGreatest (context.heights depth) greatest.toNat := by
  obtain ⟨consistent, least⟩ := maxDepth_iff.mp accepted
  have found := Array.getElem?_eq_getElem consistent.nonempty
  have inhabited : (context.heights depth).Nonempty := ⟨depth 0, 0, _, .entry, found, .inl rfl⟩
  have bound : IsLUB (context.heights depth) greatest.toNat :=
    isLUB_iff_le_iff.mpr fun bound => (least bound).symm.trans (disciplined.bounds_iff consistent bound)
  exact ⟨bound.csSup_eq inhabited ▸ Nat.sSup_mem inhabited bound.bddAbove, bound.1⟩

/-- The search accepts exactly the bodies that keep the stack discipline, and answers their greatest depth, in
whatever order positions are visited. -/
theorem maxDepth_decides (context : StackContext) :
    ((∃ greatest, context.maxDepth = .ok greatest) ↔
      0 < context.body.instructions.size ∧ ∃ depth, context.Disciplined depth) ∧
    (∀ greatest depth, context.maxDepth = .ok greatest → context.Disciplined depth →
      IsGreatest (context.heights depth) greatest.toNat) ∧
    (0 < context.body.instructions.size →
      context.Explores context.start context.search ∧
      ∀ outcome, context.Explores context.start outcome → ∀ greatest,
        context.maxDepth = .ok greatest ↔ ∃ found, outcome = .ok found ∧ found.greatest = greatest.toNat) := by
  refine ⟨⟨?_, ?_⟩, fun greatest depth accepted disciplined => disciplined.isGreatest accepted,
    fun nonempty => ⟨?_, ?_⟩⟩
  · rintro ⟨greatest, accepted⟩
    obtain ⟨consistent, least⟩ := maxDepth_iff.mp accepted
    exact ⟨consistent.nonempty, consistent.disciplined ((least _).mpr (Nat.le_of_lt_succ greatest.toNat_lt))⟩
  · rintro ⟨nonempty, depth, disciplined⟩
    have consistent := disciplined.consistent nonempty
    obtain ⟨greatest, least, same⟩ := maxDepth_eq consistent
    have bounded := (least _).mp ((disciplined.bounds_iff consistent _).mpr disciplined.bounded)
    exact ⟨_, same.trans (if_pos bounded)⟩
  · exact DepthSearch.explores_explore (DepthSearch.start_valid nonempty) DepthSearch.start_remaining
  · exact fun outcome explores greatest => explores_iff nonempty explores greatest

end StackContext

end CilWeave
