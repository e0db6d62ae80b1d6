import Mathlib.Data.List.Nodup
import CilWeave.Mixin.Application
import CilWeave.Proofs.Body.Position
import CilWeave.Proofs.Body.Redirection
import CilWeave.Proofs.Mixin.InjectedCode

/-!
Splicing callbacks into a body: the body's own instructions stay in order, the code of each place stands
in front of its instruction, and branches of the body's own instructions to a place go to its code.
-/

namespace CilWeave

/-- The places that have code already, each with the first identity of its code. -/
abbrev Entries := List (InstrId × InstrId)

namespace Entries

variable (code : InstrId → List Instruction) (entries : Entries)

/-- Where a branch to an instruction goes. -/
def entry (id : InstrId) : InstrId := (entries.lookup id).getD id

/-- The code in front of an instruction. -/
def codeOf (id : InstrId) : List Instruction := ((entries.lookup id).map code).getD []

/-- An instruction with the code in front of it. -/
def block (instruction : Instruction) : List Instruction :=
  entries.codeOf code instruction.id ++ [instruction.redirect entries.entry]

/-- A body's own instructions with the code of all places. -/
def interleave (instructions : List Instruction) : List Instruction := instructions.flatMap (entries.block code)

variable {code entries} {point first : InstrId}

theorem entry_cons (id : InstrId) :
    entry ((point, first) :: entries) id = if id = point then first else entries.entry id := by
  unfold entry
  rw [List.lookup_cons]
  by_cases same : id = point
  · simp [same]
  · simp [same, beq_false_of_ne same]

theorem codeOf_cons (id : InstrId) :
    codeOf code ((point, first) :: entries) id = if id = point then code first else entries.codeOf code id := by
  unfold codeOf
  rw [List.lookup_cons]
  by_cases same : id = point
  · simp [same]
  · simp [same, beq_false_of_ne same]

theorem mem_codeOf {id : InstrId} {instruction : Instruction} (member : instruction ∈ entries.codeOf code id) :
    ∃ start, (id, start) ∈ entries ∧ instruction ∈ code start := by
  unfold codeOf at member
  cases found : entries.lookup id with
  | none => simp [found] at member
  | some start =>
      simp only [found, Option.map_some, Option.getD_some] at member
      refine ⟨start, ?_, member⟩
      obtain ⟨before, after, split, -⟩ := List.lookup_eq_some_iff.mp found
      simp [split]

/-- Renaming a new place on top of the earlier ones. -/
theorem redirect_cons {low : InstrId} (instruction : Instruction) (below : point.toNat < low.toNat)
    (above : ∀ pair ∈ entries, low.toNat ≤ pair.2.toNat) (unused : entries.lookup point = none) :
    (instruction.redirect entries.entry).redirect (fun id => if id = point then first else id) =
      instruction.redirect (entry ((point, first) :: entries)) := by
  simp only [Instruction.redirect, Operand.mapTargets_mapTargets]
  congr 2
  funext id
  rw [entry_cons]
  by_cases same : id = point
  · simp [same, entry, unused]
  · rw [if_neg same, if_neg]
    unfold entry
    cases found : entries.lookup id with
    | none => simpa using same
    | some start =>
        obtain ⟨before, after, split, -⟩ := List.lookup_eq_some_iff.mp found
        have lower := above (id, start) (by simp [split])
        rintro rfl
        exact Nat.lt_irrefl _ (Nat.lt_of_lt_of_le below lower)

@[simp] theorem interleave_append (instructions others : List Instruction) :
    entries.interleave code (instructions ++ others) =
      entries.interleave code instructions ++ entries.interleave code others := List.flatMap_append

@[simp] theorem interleave_cons (instruction : Instruction) (rest : List Instruction) :
    entries.interleave code (instruction :: rest) =
      entries.codeOf code instruction.id ++ instruction.redirect entries.entry :: entries.interleave code rest := by
  simp [interleave, block]

theorem interleave_none (instructions : List Instruction) : interleave code [] instructions = instructions := by
  induction instructions with
  | nil => rfl
  | cons instruction rest ih =>
      have same : instruction.redirect (entry []) = instruction := by
        simp only [Instruction.redirect, show entry [] = fun id => id from rfl, Operand.mapTargets_id]
      rw [interleave_cons, ih, same]
      rfl

/-- Codes of the given length do not overlap. -/
def Apart (length : Nat) (one other : InstrId × InstrId) : Prop :=
  one.2.toNat + length ≤ other.2.toNat ∨ other.2.toNat + length ≤ one.2.toNat

instance (length : Nat) : Std.Symm (Apart length) := ⟨fun _ _ => Or.symm⟩

end Entries

namespace MixinContext

variable (site : CallbackSite) (cancel : CancelAction) (original : Body) (low : InstrId)

/-- A body with the code of some places, which are given with the first identities of their code. -/
structure Spliced (entries : Entries) (body : Body) : Prop where
  instructions : body.instructions.toList = entries.interleave (site.codeAt cancel) original.instructions.toList
  locals : body.locals = original.locals
  reached : low.toNat ≤ body.nextFresh.toNat
  within : ∀ pair ∈ entries, low.toNat ≤ pair.2.toNat ∧ pair.2.toNat + site.length cancel ≤ body.nextFresh.toNat
  apart : entries.Pairwise (Entries.Apart (site.length cancel))

variable {site cancel original low} {entries : Entries} {body : Body} {point : InstrId}

theorem spliced_none (site : CallbackSite) (cancel : CancelAction) (body : Body) :
    Spliced site cancel body body.nextFresh [] body :=
  ⟨(Entries.interleave_none _).symm, rfl, Nat.le_refl _, by simp, .nil⟩

theorem Spliced.room (spliced : Spliced site cancel original low entries body) {pair : InstrId × InstrId}
    (among : pair ∈ entries) :
    pair.2.toNat + site.length cancel ≤ UInt32.size :=
  Nat.le_trans (spliced.within pair among).2 (Nat.le_of_lt (UInt32.toNat_lt_size _))

/-- Code that was put in has none of the identities below a bound that its own are above. -/
theorem Spliced.not_own (spliced : Spliced site cancel original low entries body)
    (below : ∀ id ∈ original.ids, id.toNat < low.toNat) {id : InstrId} {instruction : Instruction}
    (member : instruction ∈ entries.codeOf (site.codeAt cancel) id) : instruction.id ∉ original.ids := by
  intro own
  obtain ⟨start, entry, injected⟩ := Entries.mem_codeOf member
  have ids : instruction.id ∈ (site.codeAt cancel start).map (·.id) := List.mem_map_of_mem injected
  rw [CallbackSite.ids_codeAt, mem_counting (spliced.room entry)] at ids
  exact absurd (below _ own) (Nat.not_lt.mpr (Nat.le_trans (spliced.within _ entry).1 ids.1))

/-- Moving the own branches to a new place leaves the code of the earlier places alone. -/
theorem Spliced.retarget (spliced : Spliced site cancel original low entries body)
    (below : ∀ id ∈ original.ids, id.toNat < low.toNat) (unused : entries.lookup point = none)
    (member : point ∈ original.ids)
    (first : InstrId) :
    (body.retargetWhere point first original.ids.contains).2.instructions.toList =
      original.instructions.toList.flatMap fun instruction =>
        entries.codeOf (site.codeAt cancel) instruction.id ++
          [instruction.redirect (Entries.entry ((point, first) :: entries))] := by
  simp only [Body.retargetWhere, Array.toList_map, spliced.instructions, Entries.interleave, List.map_flatMap]
  refine List.flatMap_congr fun instruction own => ?_
  rw [Entries.block, List.map_append]
  congr 1
  · refine (List.map_congr_left fun injected place => ?_).trans (List.map_id _)
    have absent := spliced.not_own below place
    simp [absent]
  · have listed : instruction.id ∈ original.ids := List.mem_map_of_mem own
    have moved : (instruction.redirect entries.entry).redirect (fun id => if id = point then first else id) = _ :=
      Entries.redirect_cons instruction (below point member) (fun pair among => (spliced.within pair among).1) unused
    simp only [List.map_cons, List.map_nil, ← moved]
    simp [Instruction.redirect, listed]

theorem Spliced.elsewhere (spliced : Spliced site cancel original low entries body)
    (below : ∀ id ∈ original.ids, id.toNat < low.toNat) (member : point ∈ original.ids) {instructions : List Instruction}
    {rename : InstrId → InstrId} (others : ∀ instruction ∈ instructions, instruction.id ≠ point) :
    ∀ found ∈ instructions.flatMap fun instruction =>
      entries.codeOf (site.codeAt cancel) instruction.id ++ [instruction.redirect rename], found.id ≠ point := by
  intro found among same
  obtain ⟨instruction, listed, place⟩ := List.mem_flatMap.mp among
  rcases List.mem_append.mp place with injected | own
  · exact spliced.not_own below injected (same ▸ member)
  · rw [List.mem_singleton.mp own] at same
    exact others instruction listed same

/-- Around a new place, its code goes in front of its instruction. -/
theorem Spliced.insert (spliced : Spliced site cancel original low entries body)
    (distinct : original.ids.Nodup) (below : ∀ id ∈ original.ids, id.toNat < low.toNat)
    (unused : entries.lookup point = none)
    (member : point ∈ original.ids) (first : InstrId) :
    ∃ next, (body.retargetWhere point first original.ids.contains).2.insertBefore point
        (site.codeAt cancel first).toArray = .ok next ∧
      next = { body with instructions := next.instructions } ∧
      next.instructions.toList =
        Entries.interleave (site.codeAt cancel) ((point, first) :: entries) original.instructions.toList := by
  obtain ⟨own, listed, rfl⟩ := List.mem_map.mp member
  obtain ⟨before, after, split⟩ := List.append_of_mem listed
  have ids : (before.map (·.id) ++ own.id :: after.map (·.id)).Nodup := by
    simpa [Body.ids, split] using distinct
  obtain ⟨-, tail, apart⟩ := List.nodup_append.mp ids
  have earlier : ∀ instruction ∈ before, instruction.id ≠ own.id := fun instruction among =>
    apart _ (List.mem_map_of_mem among) _ List.mem_cons_self
  have later : ∀ instruction ∈ after, instruction.id ≠ own.id := fun instruction among same =>
    (List.nodup_cons.mp tail).1 (same ▸ List.mem_map_of_mem among)
  have blocks {instructions : List Instruction} (others : ∀ instruction ∈ instructions, instruction.id ≠ own.id) :
      (instructions.flatMap fun instruction => entries.codeOf (site.codeAt cancel) instruction.id ++
          [instruction.redirect (Entries.entry ((own.id, first) :: entries))]) =
        Entries.interleave (site.codeAt cancel) ((own.id, first) :: entries) instructions := by
    refine List.flatMap_congr fun instruction among => ?_
    rw [Entries.block, Entries.codeOf_cons, if_neg (others instruction among)]
  have none : entries.codeOf (site.codeAt cancel) own.id = [] := by simp [Entries.codeOf, unused]
  have moved := spliced.retarget below unused member first
  have clear : ∀ found ∈ before.flatMap fun instruction =>
      entries.codeOf (site.codeAt cancel) instruction.id ++
        [instruction.redirect (Entries.entry ((own.id, first) :: entries))], found.id ≠ own.id :=
    spliced.elsewhere below member earlier
  rw [split, List.flatMap_append, List.flatMap_cons, blocks earlier, blocks later, none, List.nil_append] at moved
  rw [blocks earlier] at clear
  have stands : (body.retargetWhere own.id first original.ids.contains).2.instructions.toList =
      Entries.interleave (site.codeAt cancel) ((own.id, first) :: entries) before ++
        own.redirect (Entries.entry ((own.id, first) :: entries)) ::
          Entries.interleave (site.codeAt cancel) ((own.id, first) :: entries) after := moved
  obtain ⟨next, inserted, rest, placed⟩ := Body.insertBefore_ok stands clear (site.codeAt cancel first).toArray
  refine ⟨next, inserted, rest, ?_⟩
  rw [placed, split]
  simp [Entries.codeOf_cons]

theorem Spliced.handOut (spliced : Spliced site cancel original low entries body) {count : Nat}
    (room : body.nextFresh.toNat + count < UInt32.size) : Spliced site cancel original low entries (body.handOut count) := by
  have counted : (body.handOut count).nextFresh.toNat = body.nextFresh.toNat + count := by
    rw [← toNat_counting room, ← Body.upcoming_eq room, Body.upcoming]
  refine ⟨by simpa using spliced.instructions, by simpa using spliced.locals, ?_, ?_, spliced.apart⟩
  · rw [counted]
    exact Nat.le_add_right_of_le spliced.reached
  · intro pair among
    rw [counted]
    exact ⟨(spliced.within pair among).1, Nat.le_add_right_of_le (spliced.within pair among).2⟩

/-- Splicing one more place succeeds. -/
theorem splice_ok (spliced : Spliced site cancel original low entries body)
    (distinct : original.ids.Nodup) (below : ∀ id ∈ original.ids, id.toNat < low.toNat)
    (unused : entries.lookup point = none)
    (member : point ∈ original.ids) (room : body.nextFresh.toNat + site.length cancel < UInt32.size) :
    ∃ next, splice site cancel original.ids body point = .ok next ∧
      next.nextFresh.toNat = body.nextFresh.toNat + site.length cancel ∧
      Spliced site cancel original low ((point, body.nextFresh) :: entries) next := by
  have positive := site.length_pos cancel
  obtain ⟨next, inserted, rest, placed⟩ := (spliced.handOut room).insert distinct below unused member body.nextFresh
  obtain ⟨first, found, starts⟩ := site.codeAt_head cancel body.nextFresh
  have fresh : next.nextFresh.toNat = body.nextFresh.toNat + site.length cancel := by
    rw [rest, Body.nextFresh, Body.nextId_handOut room positive, if_neg (counting_ne_zero room positive), toNat_counting room]
  refine ⟨next, ?_, fresh, placed, ?_, ?_, ?_, ?_⟩
  · simp only [splice, CallbackSite.build_ok, site.codeBy_upcoming room, Except.mapError, bind, Except.bind,
      List.getElem?_toArray, found, starts, inserted]
  · rw [rest]
    simpa using spliced.locals
  · rw [fresh]
    exact Nat.le_add_right_of_le spliced.reached
  · intro pair among
    rw [fresh]
    rcases List.mem_cons.mp among with rfl | earlier
    · exact ⟨spliced.reached, Nat.le_refl _⟩
    · exact ⟨(spliced.within pair earlier).1, Nat.le_add_right_of_le (spliced.within pair earlier).2⟩
  · exact List.pairwise_cons.mpr ⟨fun pair earlier => .inr (spliced.within pair earlier).2, spliced.apart⟩

/-- Splicing places one after the other succeeds. -/
theorem spliceAll_ok (points : List InstrId) (spliced : Spliced site cancel original low entries body)
    (distinct : original.ids.Nodup) (below : ∀ id ∈ original.ids, id.toNat < low.toNat) (once : points.Nodup)
    (members : ∀ point ∈ points, point ∈ original.ids) (unused : ∀ point ∈ points, entries.lookup point = none)
    (room : body.nextFresh.toNat + points.length * site.length cancel < UInt32.size) :
    ∃ woven all, points.foldlM (splice site cancel original.ids) body = .ok woven ∧
      Spliced site cancel original low all woven ∧
      ∀ id, (all.lookup id).isSome ↔ id ∈ points ∨ (entries.lookup id).isSome := by
  induction points generalizing entries body with
  | nil => exact ⟨body, entries, rfl, spliced, by simp⟩
  | cons point rest ih =>
      obtain ⟨absent, others⟩ := List.nodup_cons.mp once
      rw [List.length_cons, Nat.add_one_mul] at room
      obtain ⟨next, first, counted, placed⟩ := splice_ok spliced distinct below (unused point List.mem_cons_self)
        (members point List.mem_cons_self) (by omega)
      have free : ∀ other ∈ rest, List.lookup other ((point, body.nextFresh) :: entries) = none := by
        intro other among
        have differs : other ≠ point := fun same => absent (same ▸ among)
        rw [List.lookup_cons, beq_false_of_ne differs]
        exact unused other (List.mem_cons_of_mem _ among)
      obtain ⟨woven, all, later, done, keys⟩ := ih placed others
        (fun other among => members other (List.mem_cons_of_mem _ among)) free (by omega)
      refine ⟨woven, all, by rw [List.foldlM_cons, first]; exact later, done, fun id => ?_⟩
      rw [keys, List.lookup_cons, List.mem_cons]
      by_cases same : id = point
      · simp [same]
      · simp [same, beq_false_of_ne same]

end MixinContext

namespace Body

variable {body : Body} {id : InstrId}

theorem ids_retargetWhere (source destination : InstrId) (chosen : InstrId → Bool) :
    (body.retargetWhere source destination chosen).2.ids = body.ids := by
  rw [ids, retargetWhere, Array.toList_map, List.map_map, ids]
  refine List.map_congr_left fun instruction _ => ?_
  rw [Function.comp_apply]
  split <;> rfl

/-- Code can be put in front of an instruction that is there. -/
theorem insertBefore_of_mem (member : id ∈ body.ids) (sequence : Array Instruction) :
    ∃ next, body.insertBefore id sequence = .ok next := by
  obtain ⟨own, listed, rfl⟩ := List.mem_map.mp member
  obtain ⟨position, found⟩ : ∃ position, body.position? own.id = some position := by
    refine Option.isSome_iff_exists.mp ?_
    rw [position?, Array.findIdx?_isSome, Array.any_eq_true']
    exact ⟨own, Array.mem_toList_iff.mp listed, beq_self_eq_true _⟩
  exact ⟨body.insertAt position sequence, by rw [insertBefore, found]⟩

theorem mem_ids_insertAt {position : Nat} {sequence : Array Instruction} :
    id ∈ (body.insertAt position sequence).ids ↔ id ∈ body.ids ∨ id ∈ sequence.toList.map (·.id) := by
  have split : id ∈ body.ids ↔ id ∈ body.ids.take position ∨ id ∈ body.ids.drop position := by
    rw [← List.mem_append, List.take_append_drop]
  rw [split, or_right_comm]
  simp [ids, insertAt, List.map_take, List.map_drop, List.take_of_length_le, or_assoc]

end Body

namespace MixinContext

variable {site : CallbackSite} {cancel : CancelAction} {own points : List InstrId} {body next woven : Body} {point : InstrId}

/-- A splice adds the identities that were handed out for it. -/
theorem splice_leaves (spliced : splice site cancel own body point = .ok next) :
    (∀ id, id ∈ next.ids ↔ id ∈ body.ids ∨ id ∈ (List.range (site.length cancel)).map body.upcoming) ∧
      next.nextId = (body.handOut (site.length cancel)).nextId := by
  obtain ⟨first, head, -⟩ := site.codeBy_head cancel body.upcoming
  simp only [splice, CallbackSite.build_ok, Except.mapError, bind, Except.bind, List.getElem?_toArray, head,
    Body.insertBefore] at spliced
  cases found : ((body.handOut (site.length cancel)).retargetWhere point first.id own.contains).2.position? point with
  | none => simp [found] at spliced
  | some position =>
      simp only [found, Except.ok.injEq] at spliced
      subst spliced
      refine ⟨fun id => ?_, rfl⟩
      rw [Body.mem_ids_insertAt, Body.ids_retargetWhere, Body.ids_handOut, site.ids_codeBy]

theorem splice_subset (spliced : splice site cancel own body point = .ok next) : body.ids ⊆ next.ids :=
  fun id member => ((splice_leaves spliced).1 id).mpr (.inl member)

theorem spliceAll_subset (spliced : points.foldlM (splice site cancel own) body = .ok woven) : body.ids ⊆ woven.ids := by
  induction points generalizing body with
  | nil =>
      cases spliced
      exact List.Subset.refl _
  | cons point rest ih =>
      rw [List.foldlM_cons] at spliced
      obtain ⟨next, one, others⟩ := Stateful.bind_ok spliced
      exact List.Subset.trans (splice_subset one) (ih others)

/-- If the last identity is not in use behind a splice, there was room for the code, and what comes next follows it. -/
theorem splice_room (spliced : splice site cancel own body point = .ok next) (spare : next.Spare) :
    body.nextFresh.toNat + site.length cancel < UInt32.size ∧
      next.nextFresh = counting body.nextFresh (site.length cancel) := by
  obtain ⟨ids, counter⟩ := splice_leaves spliced
  have positive := site.length_pos cancel
  have room : body.nextFresh.toNat + site.length cancel < UInt32.size := by
    by_contra short
    exact spare ((ids _).mpr (.inr (Body.last_handed short)))
  refine ⟨room, ?_⟩
  rw [Body.nextFresh, counter, Body.nextId_handOut room positive, if_neg (counting_ne_zero room positive)]

/-- If the last identity is not in use when all places have their code, then there was room for the code. -/
theorem spliceAll_room (spliced : points.foldlM (splice site cancel own) body = .ok woven) (spare : woven.Spare) :
    body.nextFresh.toNat + points.length * site.length cancel < UInt32.size := by
  induction points generalizing body with
  | nil => simpa using body.nextFresh.toNat_lt_size
  | cons point rest ih =>
      rw [List.foldlM_cons] at spliced
      obtain ⟨next, one, others⟩ := Stateful.bind_ok spliced
      obtain ⟨room, fresh⟩ := splice_room one fun last => spare (spliceAll_subset others last)
      have later := ih others
      rw [fresh, toNat_counting room] at later
      rw [List.length_cons, Nat.add_one_mul]
      omega

/-- A callback can be put in front of each instruction that is there. -/
theorem splice_of_mem (site : CallbackSite) (cancel : CancelAction) (own : List InstrId) (member : point ∈ body.ids) :
    ∃ next, splice site cancel own body point = .ok next := by
  obtain ⟨first, head, -⟩ := site.codeBy_head cancel body.upcoming
  have among : point ∈ ((body.handOut (site.length cancel)).retargetWhere point first.id own.contains).2.ids := by
    rwa [Body.ids_retargetWhere, Body.ids_handOut]
  obtain ⟨next, inserted⟩ := Body.insertBefore_of_mem among (site.codeBy cancel body.upcoming).toArray
  refine ⟨next, ?_⟩
  simp only [splice, CallbackSite.build_ok, Except.mapError, bind, Except.bind, List.getElem?_toArray, head, inserted]

theorem spliceAll_of_mem (members : ∀ point ∈ points, point ∈ body.ids) :
    ∃ woven, points.foldlM (splice site cancel own) body = .ok woven := by
  induction points generalizing body with
  | nil => exact ⟨body, rfl⟩
  | cons point rest ih =>
      obtain ⟨next, one⟩ := splice_of_mem site cancel own (members point List.mem_cons_self)
      obtain ⟨woven, others⟩ := ih fun other member => splice_subset one (members other (List.mem_cons_of_mem _ member))
      exact ⟨woven, by rw [List.foldlM_cons, one]; exact others⟩

end MixinContext

end CilWeave
