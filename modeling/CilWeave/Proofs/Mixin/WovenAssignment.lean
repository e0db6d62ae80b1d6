import CilWeave.Proofs.Mixin.WovenBodies
import CilWeave.Proofs.Mixin.WovenDepth
import CilWeave.Proofs.StackDepth.Assignment

/-!
Depths of bodies with injected code that may be cancelled. Where injected code goes on, it leaves the stack as it found it;
where it is cancelled, the stack has to be as it is where the method goes on. So depths can be given to the instructions of a
woven body just when they can be given to those of the body before.
-/

namespace CilWeave

namespace Draft

/-- What an instruction takes in a method that returns a value or nothing. -/
def taken (returnsValue : Bool) (draft : Draft) : Nat :=
  if draft.opcode = .ret then returnsValue.toNat else (draft.withId 0).pops

/-- The depth behind an instruction. -/
def depthAfter (returnsValue : Bool) (draft : Draft) (held : Nat) : Nat :=
  held - draft.taken returnsValue + (draft.withId 0).pushes

/-- Instructions that are used one after the other take the stack from one depth to another. -/
inductive Runs (returnsValue : Bool) : List Draft → Nat → Nat → Prop
  | nil (held : Nat) : Runs returnsValue [] held held
  | cons {draft : Draft} {rest : List Draft} {held left : Nat} : draft.taken returnsValue ≤ held →
      (draft.opcode = .ret → held = draft.taken returnsValue) →
      Runs returnsValue rest (draft.depthAfter returnsValue held) left → Runs returnsValue (draft :: rest) held left

namespace Runs

variable {returnsValue : Bool} {drafts others : List Draft} {draft : Draft} {held middle left : Nat}

theorem append (first : Runs returnsValue drafts held middle) (second : Runs returnsValue others middle left) :
    Runs returnsValue (drafts ++ others) held left := by
  induction first with
  | nil => exact second
  | cons covered returns _ ih => exact .cons covered returns (ih second)

/-- The depth that code begins with decides the depth it ends with. -/
theorem det {other : Nat} (runs : Runs returnsValue drafts held left) (also : Runs returnsValue drafts held other) :
    left = other := by
  induction runs with
  | nil =>
      cases also
      rfl
  | cons _ _ _ ih =>
      cases also with
      | cons _ _ rest => exact ih rest

/-- The depth in front of an instruction, and behind it. -/
theorem split {offset : Nat} (runs : Runs returnsValue drafts held left) (found : drafts[offset]? = some draft) :
    ∃ reached, Runs returnsValue (drafts.take offset) held reached ∧ draft.taken returnsValue ≤ reached ∧
      (draft.opcode = .ret → reached = draft.taken returnsValue) ∧
      Runs returnsValue (drafts.take (offset + 1)) held (draft.depthAfter returnsValue reached) := by
  induction runs generalizing offset with
  | nil => cases found
  | @cons head rest held left covered returns _ ih =>
      cases offset with
      | zero =>
          cases found
          exact ⟨held, .nil held, covered, returns, .cons covered returns (.nil _)⟩
      | succ offset =>
          obtain ⟨reached, before, fits, ends, behind⟩ := ih found
          exact ⟨reached, .cons covered returns before, fits, ends, .cons covered returns behind⟩

/-- One instruction that goes on to the next. -/
theorem use {pops pushes : Nat} (uses : (draft.withId 0).Uses pops pushes) (held : Nat) :
    Runs returnsValue [draft] (held + pops) (held + pushes) := by
  have other : draft.opcode ≠ .ret := Machine.fallsThrough_ne_ret uses.falls
  have taken : draft.taken returnsValue = pops := by rw [Draft.taken, if_neg other, uses.pops]
  refine .cons (taken ▸ Nat.le_add_left _ _) (fun returns => absurd returns other) ?_
  rw [depthAfter, taken, uses.pushes, Nat.add_sub_cancel]
  exact .nil _

end Runs

end Draft

namespace StackContext

variable {context : StackContext} {depth : InstrId → Nat → Prop}

/-- Drafts stand in a body from a position on, under these identities. -/
def Writes (context : StackContext) (place : Nat) (ids : Nat → InstrId) (drafts : List Draft) : Prop :=
  ∀ (offset : Nat) (draft : Draft), drafts[offset]? = some draft →
    ∃ wide, context.body.instructions[place + offset]? = some wide ∧ (draft.withId (ids offset)).Widens wide

theorem Writes.tail {place : Nat} {ids : Nat → InstrId} {draft : Draft} {rest : List Draft}
    (writes : context.Writes place ids (draft :: rest)) : context.Writes (place + 1) (fun offset => ids (offset + 1)) rest := by
  intro offset other held
  obtain ⟨wide, found, widens⟩ := writes (offset + 1) other held
  rw [← Nat.add_assoc, Nat.add_right_comm] at found
  exact ⟨wide, found, widens⟩

theorem Writes.append {place : Nat} {ids : Nat → InstrId} {drafts others : List Draft}
    (writes : context.Writes place ids (drafts ++ others)) :
    context.Writes place ids drafts ∧
      context.Writes (place + drafts.length) (fun offset => ids (drafts.length + offset)) others := by
  refine ⟨fun offset draft held => writes offset draft ?_, fun offset draft held => ?_⟩
  · rw [List.getElem?_append_left (List.getElem?_eq_some_iff.mp held).1, held]
  · obtain ⟨wide, found, widens⟩ := writes (drafts.length + offset) draft (by
      rw [List.getElem?_append_right (Nat.le_add_right _ _), Nat.add_sub_cancel_left, held])
    rw [← Nat.add_assoc] at found
    exact ⟨wide, found, widens⟩

/-- What a draft takes and leaves does not depend on its identity, nor on the width of a branch. -/
theorem takes (context : StackContext) {draft : Draft} {id : InstrId} {wide : Instruction}
    (widens : (draft.withId id).Widens wide) :
    context.pops wide = draft.taken context.returnsValue ∧
      ∀ held, context.depthAfter wide held = draft.depthAfter context.returnsValue held := by
  have like := widens.resembles
  have room : context.SameRoom context := ⟨rfl, rfl, rfl⟩
  exact ⟨room.pops like, room.depthAfter like⟩

/-- Control goes through drafts that fall through, and brings what they leave to what follows them. -/
theorem Assigns.through (assigns : context.Assigns depth) {drafts : List Draft} {place held : Nat} {ids : Nat → InstrId}
    {start : Instruction} (writes : context.Writes place ids drafts)
    (falls : ∀ draft ∈ drafts, (draft.withId 0).fallsThrough = true)
    (found : context.body.instructions[place]? = some start) (given : depth start.id held) :
    ∃ last left, context.body.instructions[place + drafts.length]? = some last ∧ depth last.id left ∧
      Draft.Runs context.returnsValue drafts held left := by
  induction drafts generalizing place held ids start with
  | nil => exact ⟨start, held, found, given, .nil held⟩
  | cons draft rest ih =>
      obtain ⟨wide, here, widens⟩ := writes 0 draft rfl
      cases found.symm.trans here
      have through : start.fallsThrough = true := widens.resembles.falls.trans (falls draft List.mem_cons_self)
      have usable := assigns.usable place held start found given
      have there := Array.getElem?_eq_getElem (usable.falls through)
      have next := assigns.leads place held (place + 1) start _ found given (.inr ⟨through, rfl⟩) there
      obtain ⟨pops, after⟩ := takes context widens
      rw [after] at next
      obtain ⟨last, left, end_, reached, runs⟩ :=
        ih writes.tail (fun other member => falls other (List.mem_cons_of_mem _ member))
        there next
      refine ⟨last, left, by rw [List.length_cons, ← Nat.add_assoc, Nat.add_right_comm]; exact end_, reached, ?_⟩
      refine .cons (pops ▸ usable.covered) (fun returns => ?_) runs
      exact absurd returns (Machine.fallsThrough_ne_ret (falls draft List.mem_cons_self))

/-- A branch brings what it leaves to the instruction that it goes to. -/
theorem Assigns.jumps (assigns : context.Assigns depth) (distinct : context.body.ids.Nodup) {place goal held : Nat}
    {branch last : Instruction} (found : context.body.instructions[place]? = some branch) (given : depth branch.id held)
    (there : context.body.instructions[goal]? = some last) (goes : last.id ∈ branch.targets) :
    depth last.id (context.depthAfter branch held) :=
  assigns.leads place held goal branch last found given (.inl ⟨last.id, goes, Body.target?_of_nodup distinct there⟩) there

end StackContext

theorem Draft.storeLocal_uses (index : UInt16) : ((storeLocal index).withId 0).Uses 1 0 ∧
    ((storeLocal index).withId 0).local? = some index ∧ ((storeLocal index).withId 0).argument? = none := by
  refine Draft.indexed_cases (motive := fun draft => (draft.withId 0).Uses 1 0 ∧ (draft.withId 0).local? = some index ∧
      (draft.withId 0).argument? = none)
    ⟨⟨⟨rfl, rfl, rfl, rfl⟩, rfl, rfl⟩, ⟨rfl, rfl, rfl, rfl⟩, rfl, rfl⟩ (Nat.le_refl 4) ?_ ?_ ?_ ?_
  all_goals
    intro opcode found same
    cases found
    subst same
    exact ⟨⟨rfl, rfl, rfl, rfl⟩, rfl, rfl⟩

namespace CallbackSite

/-- A call takes what is loaded for it; a carrier is made of nothing and tells whether it is cancelled. -/
structure Balanced (site : CallbackSite) : Prop where
  fills : site.Fills
  made : ∀ slot members, site.carrier = some (slot, members) → members.constructor.params = []
  asked : ∀ slot members, site.carrier = some (slot, members) → members.isCancelled.params = [] ∧
    members.isCancelled.hasThis = true ∧ members.isCancelled.returns.isVoid = false

variable {site : CallbackSite} {returnsValue : Bool}

theorem sources_runs (sources : List Source) (held : Nat) :
    Draft.Runs returnsValue (sources.map Source.draft) held (held + sources.length) := by
  induction sources generalizing held with
  | nil => exact .nil held
  | cons source rest ih =>
      have one : Draft.Runs returnsValue [source.draft] (held + 0) (held + 1) := .use (source.draft_loads 0).toUses held
      rw [List.map_cons, List.length_cons, Nat.add_comm rest.length, ← Nat.add_assoc]
      exact one.append (ih (held + 1))

/-- A call leaves the stack as it found it. -/
theorem callDrafts_runs (fills : site.Fills) (held : Nat) : Draft.Runs returnsValue site.callDrafts held held := by
  have calls : (Draft.withId ⟨.call, .method site.callback⟩ 0).Uses site.sources.length
    (!site.callback.returns.isVoid).toNat :=
    ⟨fills, rfl, rfl, rfl⟩
  have dropped : Draft.Runs returnsValue (if site.callback.returns.isVoid then [] else [⟨.pop, .none⟩])
      (held + (!site.callback.returns.isVoid).toNat) held := by
    cases site.callback.returns.isVoid with
    | true => exact .nil held
    | false => exact .use ⟨rfl, rfl, rfl, rfl⟩ held
  exact ((sources_runs site.sources held).append (.use calls held)).append dropped

theorem callDrafts_falls {draft : Draft} (member : draft ∈ site.callDrafts) :
    (draft.withId 0).fallsThrough = true ∧ draft.operand.targets = [] := by
  simp only [callDrafts, List.mem_append, List.mem_map, List.mem_singleton] at member
  rcases member with (⟨source, -, rfl⟩ | rfl) | drops
  · exact ⟨(source.draft_loads 0).falls, (source.draft_loads 0).targets⟩
  · exact ⟨rfl, rfl⟩
  · split at drops
    · cases drops
    · cases List.mem_singleton.mp drops
      exact ⟨rfl, rfl⟩

/-- The code up to the question whether the carrier is cancelled. -/
def askedDrafts (site : CallbackSite) (slot : UInt16) (members : CarrierMembers) : List Draft :=
  site.carrierDrafts ++ site.callDrafts ++ questionDrafts slot members

variable {slot : UInt16} {members : CarrierMembers}

theorem drafts_plain (plain : site.carrier = none) (resume : InstrId) (cancel : CancelAction) :
    site.drafts resume cancel = site.callDrafts := by
  simp [drafts, carrierDrafts, askDrafts, plain]

variable (held : site.carrier = some (slot, members))

include held

theorem drafts_branch (resume target : InstrId) :
    site.drafts resume (.branch target) = site.askedDrafts slot members ++ [⟨.brtrueS, .target target⟩] := by
  simp [drafts, askedDrafts, askDrafts, cancelDrafts, held]

theorem drafts_return (resume : InstrId) (withValue : Bool) : site.drafts resume (.return withValue) =
    site.askedDrafts slot members ++ (⟨.brfalseS, .target resume⟩ :: valueDrafts slot members withValue ++
      [⟨.ret, .none⟩]) ++
      [⟨.nop, .none⟩] := by
  simp [drafts, askedDrafts, askDrafts, cancelDrafts, held]

/-- The question leaves its answer. -/
theorem askedDrafts_runs (balanced : site.Balanced) (depth : Nat) :
    Draft.Runs returnsValue (site.askedDrafts slot members) depth (depth + 1) := by
  obtain ⟨params, this_, returns⟩ := balanced.asked slot members held
  have carrier : Draft.Runs returnsValue site.carrierDrafts depth depth := by
    simp only [carrierDrafts, held]
    have makes : (Draft.withId ⟨.newobj, .method members.constructor⟩ 0).Uses 0 1 :=
      ⟨congrArg List.length (balanced.made slot members held), rfl, rfl, rfl⟩
    have made : Draft.Runs returnsValue [⟨.newobj, .method members.constructor⟩] (depth + 0) (depth + 1) := .use makes depth
    exact made.append (.use (Draft.storeLocal_uses slot).1 depth)
  have question : Draft.Runs returnsValue (questionDrafts slot members) depth (depth + 1) := by
    have loads : Draft.Runs returnsValue [.loadLocal slot] (depth + 0) (depth + 1) :=
      .use ((Source.slot slot).draft_loads 0).toUses depth
    have asks : (Draft.withId ⟨.callvirt, .method members.isCancelled⟩ 0).Uses 1 1 := by
      refine ⟨?_, ?_, rfl, rfl⟩
      · show members.isCancelled.params.length + members.isCancelled.hasThis.toNat = 1
        rw [params, this_]
        rfl
      · show (!members.isCancelled.returns.isVoid).toNat = 1
        rw [returns]
        rfl
    exact loads.append (.use asks depth)
  exact (carrier.append (callDrafts_runs balanced.fills depth)).append question

theorem askedDrafts_falls {draft : Draft} (member : draft ∈ site.askedDrafts slot members) :
    (draft.withId 0).fallsThrough = true ∧ draft.operand.targets = [] := by
  rcases List.mem_append.mp member with earlier | question
  · rcases List.mem_append.mp earlier with carrier | call
    · simp only [carrierDrafts, held] at carrier
      obtain rfl | rfl := List.mem_pair.mp carrier
      · exact ⟨rfl, rfl⟩
      · exact ⟨(Draft.storeLocal_uses slot).1.falls, (Draft.storeLocal_uses slot).1.targets⟩
    · exact callDrafts_falls call
  · obtain rfl | rfl := List.mem_pair.mp question
    · exact ⟨((Source.slot slot).draft_loads 0).falls, ((Source.slot slot).draft_loads 0).targets⟩
    · exact ⟨rfl, rfl⟩

end CallbackSite

namespace Splice

variable {splice : Splice} {entry : InstrId → InstrId} {start : Nat → Nat} {context : StackContext}
  {depth : InstrId → Nat → Prop} {position held : Nat} {own : Instruction}

theorem length_code (found : splice.original.instructions[position]? = some own) (point : own.id ∈ splice.points)
    (entry : InstrId → InstrId) : (splice.code entry position).length = splice.site.length splice.cancel := by
  simp [code, Body.idAt?, found, point]

/-- Where the code for a place resumes. -/
def resume (splice : Splice) (first : InstrId) : InstrId := counting first (splice.site.length splice.cancel - 1)

theorem code_drafts (found : splice.original.instructions[position]? = some own) (point : own.id ∈ splice.points)
    {offset : Nat} {draft : Draft}
    (drafted : (splice.site.drafts (splice.resume (entry own.id)) splice.cancel)[offset]? = some draft) :
    (splice.code entry position)[offset]? = some (draft.withId (counting (entry own.id) offset)) := by
  simp only [code, Body.idAt?, found, Option.map_some, if_pos point, CallbackSite.codeAt, CallbackSite.codeBy,
    getElem?_numbered]
  rw [← resume, drafted]
  rfl

namespace Layered

/-- A block starts with what branches to its instruction go to. -/
theorem head (layered : splice.Layered entry start) (distinct : splice.original.ids.Nodup)
    (found : splice.original.instructions[position]? = some own) :
    ∃ first, splice.woven.instructions[start position]? = some first ∧ first.id = entry own.id :=
  Body.target?_found (layered.enter own.id position (Body.target?_of_nodup distinct found))

theorem writes (layered : splice.Layered entry start) (found : splice.original.instructions[position]? = some own)
    (point : own.id ∈ splice.points) : (context.withCode splice.woven).Writes (start position) (counting (entry own.id))
      (splice.site.drafts (splice.resume (entry own.id)) splice.cancel) :=
  fun offset _ drafted => (layered.injected position offset _ (code_drafts found point drafted)).2

section Behind

variable {slot : UInt16} {members : CarrierMembers} {first : Instruction}

/-- Behind the code of a place without a carrier, the stack is as it was in front of it. -/
theorem behind_plain (layered : splice.Layered entry start) (balanced : splice.site.Balanced)
    (assigns : (context.withCode splice.woven).Assigns depth) (found : splice.original.instructions[position]? = some own)
    (point : own.id ∈ splice.points) (carrier : splice.site.carrier = none)
    (here : splice.woven.instructions[start position]? = some first) (given : depth first.id held) :
    ∃ last, splice.woven.instructions[start position + splice.site.length splice.cancel]? = some last ∧
      depth last.id held := by
  have writes : (context.withCode splice.woven).Writes (start position) (counting (entry own.id)) _ :=
    layered.writes found point
  have drafted := splice.site.length_drafts (splice.resume (entry own.id)) splice.cancel
  rw [CallbackSite.drafts_plain carrier] at writes drafted
  obtain ⟨last, left, there, reached, runs⟩ :=
    assigns.through writes (fun _ member => (CallbackSite.callDrafts_falls member).1) here given
  cases runs.det (CallbackSite.callDrafts_runs balanced.fills held)
  exact ⟨last, drafted ▸ there, reached⟩

/-- Where a cancelled callback goes elsewhere, the branch that is not taken takes the answer from the stack. -/
theorem behind_branch (layered : splice.Layered entry start) (balanced : splice.site.Balanced)
    (assigns : (context.withCode splice.woven).Assigns depth) (found : splice.original.instructions[position]? = some own)
    (point : own.id ∈ splice.points) (carrier : splice.site.carrier = some (slot, members)) {target : InstrId}
    (cancel : splice.cancel = .branch target) (here : splice.woven.instructions[start position]? = some first)
    (given : depth first.id held) :
    ∃ last, splice.woven.instructions[start position + splice.site.length splice.cancel]? = some last ∧
      depth last.id held := by
  have writes : (context.withCode splice.woven).Writes (start position) (counting (entry own.id)) _ :=
    layered.writes found point
  have drafted := splice.site.length_drafts (splice.resume (entry own.id)) splice.cancel
  rw [cancel, CallbackSite.drafts_branch carrier] at writes drafted
  have asks : Draft.Runs context.returnsValue (splice.site.askedDrafts slot members) held (held + 1) :=
    CallbackSite.askedDrafts_runs carrier balanced held
  have tests : Draft.Runs context.returnsValue [⟨.brtrueS, .target target⟩] (held + 1) held :=
    .cons (Nat.le_add_left 1 held) nofun (.nil held)
  obtain ⟨last, left, there, reached, runs⟩ := assigns.through writes (fun draft member => by
    rcases List.mem_append.mp member with asked | last
    · exact (CallbackSite.askedDrafts_falls carrier asked).1
    · cases List.mem_singleton.mp last
      rfl) here given
  cases runs.det (asks.append tests)
  rw [drafted, ← cancel] at there
  exact ⟨last, there, reached⟩

/-- Where a cancelled callback returns, the branch goes over the return to the last instruction of the code, and takes the
answer from the stack. -/
theorem behind_return (layered : splice.Layered entry start) (balanced : splice.site.Balanced)
    (assigns : (context.withCode splice.woven).Assigns depth) (found : splice.original.instructions[position]? = some own)
    (point : own.id ∈ splice.points) (carrier : splice.site.carrier = some (slot, members)) {withValue : Bool}
    (cancel : splice.cancel = .return withValue) (here : splice.woven.instructions[start position]? = some first)
    (given : depth first.id held) :
    ∃ last, splice.woven.instructions[start position + splice.site.length splice.cancel]? = some last ∧
      depth last.id held := by
  have writes : (context.withCode splice.woven).Writes (start position) (counting (entry own.id)) _ :=
    layered.writes found point
  have drafted := splice.site.length_drafts (splice.resume (entry own.id)) splice.cancel
  rw [cancel, CallbackSite.drafts_return carrier] at writes drafted
  rw [List.length_append, List.length_singleton] at drafted
  generalize same : splice.resume (entry own.id) = resume at writes drafted
  obtain ⟨front, back⟩ := writes.append
  obtain ⟨asked, rest⟩ := front.append
  obtain ⟨branch, after, there, reached, runs⟩ :=
    assigns.through asked (fun draft member => (CallbackSite.askedDrafts_falls carrier member).1) here given
  cases runs.det (CallbackSite.askedDrafts_runs carrier balanced held)
  obtain ⟨_, placed, branches⟩ := rest 0 _ rfl
  cases there.symm.trans placed
  obtain ⟨nop, resumed, resumes⟩ := back 0 _ rfl
  have goes : nop.id ∈ branch.targets := by
    rw [branches.targets]
    refine List.mem_singleton.mpr (resumes.id.trans (Eq.trans ?_ same))
    rw [Splice.resume, cancel, ← drafted, Nat.add_sub_cancel]
    rfl
  have landed := assigns.jumps layered.distinct there reached resumed goes
  rw [(StackContext.takes _ branches).2] at landed
  obtain ⟨last, left, there, reached, runs⟩ := assigns.through back
    (fun draft member => by cases List.mem_singleton.mp member; rfl) resumed landed
  have tests : Draft.Runs context.returnsValue [⟨.nop, .none⟩] held held := .cons (Nat.zero_le held) nofun (.nil held)
  cases runs.det tests
  rw [Nat.add_assoc, List.length_singleton, drafted, ← cancel] at there
  exact ⟨last, there, reached⟩

end Behind

/-- Where control goes on behind injected code, the stack is as it was in front of it. -/
theorem passes (layered : splice.Layered entry start) (balanced : splice.site.Balanced) (distinct : splice.original.ids.Nodup)
    (assigns : (context.withCode splice.woven).Assigns depth) (found : splice.original.instructions[position]? = some own)
    (given : depth (entry own.id) held) : depth own.id held := by
  by_cases point : own.id ∈ splice.points
  swap
  · rwa [layered.stays own.id point] at given
  obtain ⟨first, here, same⟩ := layered.head distinct found
  rw [← same] at given
  have behind : ∃ last, splice.woven.instructions[start position + splice.site.length splice.cancel]? = some last ∧
      depth last.id held := by
    cases carrier : splice.site.carrier with
    | none => exact layered.behind_plain balanced assigns found point carrier here given
    | some kept =>
        cases cancel : splice.cancel with
        | branch target => exact cancel ▸ layered.behind_branch balanced assigns found point carrier cancel here given
        | «return» withValue => exact cancel ▸ layered.behind_return balanced assigns found point carrier cancel here given
  -- What comes last in the block is the instruction itself.
  obtain ⟨last, there, reached⟩ := behind
  obtain ⟨wide, placed, widens⟩ := layered.own position own found
  rw [length_code found point entry] at placed
  cases placed.symm.trans there
  rwa [widens.id] at reached

/-- Where an instruction leads, it leads to the start of a block. -/
theorem leads (layered : splice.Layered entry start) (found : splice.original.instructions[position]? = some own)
    {wide : Instruction} (widens : (own.redirect entry).Widens wide) {next : Nat}
    (leads : (context.withCode splice.original).Leads position own next) :
    (context.withCode splice.woven).Leads (start position + (splice.code entry position).length) wide (start next) := by
  have like := (own.redirect_resembles entry).trans widens.resembles
  rcases leads with ⟨target, listed, goes⟩ | ⟨falls, rfl⟩
  · refine .inl ⟨entry target, ?_, layered.enter target next goes⟩
    rw [widens.targets, Instruction.redirect, Instruction.targets, Operand.targets_mapTargets]
    exact List.mem_map_of_mem listed
  · exact .inr ⟨like.falls.trans falls, layered.next position (Array.getElem?_eq_some_iff.mp found).1⟩

/-- Instructions of the body before are used in the woven body as they are in their own. -/
theorem depthAfter {wide : Instruction} (widens : (own.redirect entry).Widens wide) (held : Nat) :
    (context.withCode splice.woven).depthAfter wide held = (context.withCode splice.original).depthAfter own held := by
  have room : (context.withCode splice.original).SameRoom (context.withCode splice.woven) := ⟨rfl, rfl, rfl⟩
  exact room.depthAfter ((own.redirect_resembles entry).trans widens.resembles) held

/-- Depths of a woven body are depths of the body before. -/
theorem restricts (layered : splice.Layered entry start) (balanced : splice.site.Balanced) (coherent : splice.original.Coherent)
    (assigns : (context.withCode splice.woven).Assigns depth) : (context.withCode splice.original).Assigns depth := by
  refine ⟨fun own found => ?_, fun id member held other one same => ?_, fun position held own found at_ => ?_,
    fun position held next own last found at_ goes there => ?_⟩
  · obtain ⟨first, here, same⟩ := layered.head coherent.distinct found
    rw [layered.first] at here
    exact layered.passes balanced coherent.distinct assigns found (same ▸ assigns.entry first here)
  · obtain ⟨own, listed, rfl⟩ := List.mem_map.mp member
    obtain ⟨position, found⟩ := List.getElem?_of_mem listed
    rw [Array.getElem?_toList] at found
    obtain ⟨wide, placed, widens⟩ := layered.own position own found
    have known : own.id ∈ splice.woven.ids := by
      rw [show own.id = wide.id from widens.id.symm]
      exact Body.idAt?_mem (Option.map_eq_some_iff.mpr ⟨wide, placed, rfl⟩)
    exact assigns.unique _ known held other one same
  · obtain ⟨wide, placed, widens⟩ := layered.own position own found
    have like := (own.redirect_resembles entry).trans widens.resembles
    rw [show own.id = wide.id from widens.id.symm] at at_
    have usable := assigns.usable _ held wide placed at_
    have room : (context.withCode splice.woven).SameRoom (context.withCode splice.original) := ⟨rfl, rfl, rfl⟩
    refine room.usable like.symm usable (fun target listed => ?_) fun falls => ?_
    · exact Body.target?_of_mem
        (coherent.targets own (Array.mem_toList_iff.mpr (Array.mem_of_getElem? found)) target listed)
    · have inside := (Array.getElem?_eq_some_iff.mp found).1
      have more : start position + (splice.code entry position).length + 1 < splice.woven.instructions.size :=
        usable.falls (like.falls.trans falls)
      rw [← layered.next position inside, ← layered.last] at more
      exact Nat.lt_of_le_of_ne inside fun last => absurd (last ▸ more) (Nat.lt_irrefl _)
  · obtain ⟨wide, placed, widens⟩ := layered.own position own found
    obtain ⟨first, here, same⟩ := layered.head coherent.distinct there
    rw [show own.id = wide.id from widens.id.symm] at at_
    have onward := assigns.leads _ held _ wide first placed at_ (layered.leads found widens goes) here
    rw [depthAfter widens, same] at onward
    exact layered.passes balanced coherent.distinct assigns there onward

end Layered

/-- Code that a method can be given: it balances, a cancellation returns what the method returns, and its locals and
arguments are there. -/
structure Suits (splice : Splice) (context : StackContext) : Prop where
  balanced : splice.site.Balanced
  value : ∀ withValue slot members, splice.cancel = .return withValue → splice.site.carrier = some (slot, members) →
    withValue = context.returnsValue ∧ ∀ held, Draft.Runs context.returnsValue
      (CallbackSite.valueDrafts slot members withValue) held (held + withValue.toNat)
  goes : ∀ target, splice.cancel = .branch target → target ∈ splice.original.ids
  room : ∀ resume, ∀ draft ∈ splice.site.drafts resume splice.cancel, ∀ index,
    ((draft.withId 0).local? = some index → index.toNat < context.body.locals.size) ∧
      ((draft.withId 0).argument? = some index → index.toNat < context.argumentCount)

/-- Where a cancelled callback goes from a place, the stack is as it has to be there. -/
def Lands (splice : Splice) (depth : InstrId → Nat → Prop) : Prop :=
  splice.site.carrier.isSome = true → ∀ point ∈ splice.points, ∀ held, depth point held →
    match splice.cancel with
    | .return _ => held = 0
    | .branch target => depth target held

theorem valueDrafts_straight {slot : UInt16} {members : CarrierMembers} {withValue : Bool} {draft : Draft}
    (member : draft ∈ CallbackSite.valueDrafts slot members withValue) : draft.operand.targets = [] := by
  unfold CallbackSite.valueDrafts at member
  split at member
  · obtain rfl | rfl := List.mem_pair.mp member
    · exact ((Source.slot slot).draft_loads 0).targets
    · rfl
  · cases member

/-- The branch on the carrier's answer; one over a return goes to the given identity. -/
def branchDraft (resume : InstrId) : CancelAction → Draft
  | .branch target => ⟨.brtrueS, .target target⟩
  | .return _ => ⟨.brfalseS, .target resume⟩

/-- The only branch of the code of a place is the one on the carrier's answer. -/
theorem branch_at {site : CallbackSite} {cancel : CancelAction} {resume target : InstrId} {offset : Nat} {draft : Draft}
    (found : (site.drafts resume cancel)[offset]? = some draft) (goes : target ∈ draft.operand.targets) :
    ∃ slot members, site.carrier = some (slot, members) ∧ offset = (site.askedDrafts slot members).length ∧
      draft = branchDraft resume cancel := by
  cases carrier : site.carrier with
  | none =>
      rw [CallbackSite.drafts_plain carrier] at found
      rw [(CallbackSite.callDrafts_falls (List.mem_of_getElem? found)).2] at goes
      cases goes
  | some kept =>
      obtain ⟨slot, members⟩ := kept
      have behind {others : List Draft} (placed : (site.askedDrafts slot members ++ others)[offset]? = some draft) :
          ∃ later, offset = (site.askedDrafts slot members).length + later ∧ others[later]? = some draft := by
        rcases Nat.lt_or_ge offset (site.askedDrafts slot members).length with before | behind
        · rw [List.getElem?_append_left before] at placed
          rw [(CallbackSite.askedDrafts_falls carrier (List.mem_of_getElem? placed)).2] at goes
          cases goes
        · obtain ⟨later, rfl⟩ := Nat.exists_eq_add_of_le behind
          rw [List.getElem?_append_right behind, Nat.add_sub_cancel_left] at placed
          exact ⟨later, rfl, placed⟩
      refine ⟨slot, members, rfl, ?_⟩
      cases cancel with
      | branch own =>
          rw [CallbackSite.drafts_branch carrier] at found
          obtain ⟨later, rfl, held⟩ := behind found
          cases later with
          | zero =>
              cases held
              exact ⟨rfl, rfl⟩
          | succ later => cases held
      | «return» withValue =>
          rw [CallbackSite.drafts_return carrier, List.append_assoc] at found
          obtain ⟨later, rfl, held⟩ := behind found
          cases later with
          | zero =>
              cases held
              exact ⟨rfl, rfl⟩
          | succ later =>
              -- What follows the branch goes nowhere else.
              rw [List.cons_append, List.cons_append, List.getElem?_cons_succ] at held
              rcases List.mem_append.mp (List.mem_of_getElem? held) with front | last
              · rcases List.mem_append.mp front with value | returns
                · rw [valueDrafts_straight value] at goes
                  cases goes
                · cases List.mem_singleton.mp returns
                  cases goes
              · cases List.mem_singleton.mp last
                cases goes

variable {resume : InstrId}

/-- Where the code returns, it finds an empty stack and leaves one. -/
theorem Suits.returning (suits : splice.Suits context) {withValue : Bool} {slot : UInt16} {members : CarrierMembers}
    (cancel : splice.cancel = .return withValue) (carrier : splice.site.carrier = some (slot, members)) (resume : InstrId) :
    Draft.Runs context.returnsValue (splice.site.askedDrafts slot members ++
      (⟨.brfalseS, .target resume⟩ :: CallbackSite.valueDrafts slot members withValue ++ [⟨.ret, .none⟩])) 0 0 := by
  obtain ⟨returns, value⟩ := suits.value withValue slot members cancel carrier
  have asks : Draft.Runs context.returnsValue (splice.site.askedDrafts slot members) 0 1 :=
    CallbackSite.askedDrafts_runs carrier suits.balanced 0
  have test : Draft.Runs context.returnsValue [⟨.brfalseS, .target resume⟩] 1 0 := .cons (Nat.le_refl 1) nofun (.nil 0)
  have ret : Draft.Runs context.returnsValue [⟨.ret, .none⟩] (0 + withValue.toNat) 0 := by
    rw [Nat.zero_add, returns]
    refine .cons (Nat.le_refl _) (fun _ => rfl) ?_
    have none : Draft.depthAfter context.returnsValue ⟨.ret, .none⟩ context.returnsValue.toNat = 0 := Nat.sub_self _
    rw [none]
    exact .nil 0
  exact asks.append ((test.append (value 0)).append ret)

/-- The code of a place takes the stack from the depth that it finds there to the same one. -/
theorem Suits.runs (suits : splice.Suits context) (lands : splice.Lands depth) {point : InstrId}
    (listed : point ∈ splice.points)
    (given : depth point held) (resume : InstrId) :
    Draft.Runs context.returnsValue (splice.site.drafts resume splice.cancel) held held := by
  cases carrier : splice.site.carrier with
  | none =>
      rw [CallbackSite.drafts_plain carrier]
      exact CallbackSite.callDrafts_runs suits.balanced.fills held
  | some kept =>
      obtain ⟨slot, members⟩ := kept
      have asks : Draft.Runs context.returnsValue (splice.site.askedDrafts slot members) held (held + 1) :=
        CallbackSite.askedDrafts_runs carrier suits.balanced held
      have stands := lands (by rw [carrier]; rfl) point listed held given
      cases cancel : splice.cancel with
      | branch target =>
          rw [CallbackSite.drafts_branch carrier]
          exact asks.append (.cons (Nat.le_add_left 1 held) nofun (.nil held))
      | «return» withValue =>
          rw [cancel] at stands
          cases stands
          rw [CallbackSite.drafts_return carrier]
          exact (suits.returning cancel carrier resume).append (.cons (Nat.le_refl 0) nofun (.nil 0))

/-- Where a branch of the code goes, and what it brings there. -/
theorem Suits.jumps (suits : splice.Suits context) (lands : splice.Lands depth) {point : InstrId}
    (listed : point ∈ splice.points)
    (given : depth point held) {offset reached : Nat} {draft : Draft}
    (found : (splice.site.drafts resume splice.cancel)[offset]? = some draft)
    (runs : Draft.Runs context.returnsValue ((splice.site.drafts resume splice.cancel).take offset) held reached)
    {target : InstrId} (goes : target ∈ draft.operand.targets) :
    (target = resume ∧ Draft.Runs context.returnsValue
        ((splice.site.drafts resume splice.cancel).take (splice.site.length splice.cancel - 1)) held
        (draft.depthAfter context.returnsValue reached)) ∨
      (splice.cancel = .branch target ∧ draft.depthAfter context.returnsValue reached = held ∧
        depth target held) := by
  obtain ⟨slot, members, carrier, rfl, rfl⟩ := branch_at found goes
  have asks : Draft.Runs context.returnsValue (splice.site.askedDrafts slot members) held (held + 1) :=
    CallbackSite.askedDrafts_runs carrier suits.balanced held
  have stands := lands (by rw [carrier]; rfl) point listed held given
  cases cancel : splice.cancel with
  | branch own =>
      rw [cancel, CallbackSite.drafts_branch carrier, List.take_left] at runs
      rw [cancel] at stands goes
      cases runs.det asks
      cases List.mem_singleton.mp goes
      exact .inr ⟨rfl, rfl, stands⟩
  | «return» withValue =>
      left
      rw [cancel, CallbackSite.drafts_return carrier, List.append_assoc, List.take_left] at runs
      rw [cancel] at stands goes
      cases stands
      cases runs.det asks
      have drafted := splice.site.length_drafts resume (.return withValue)
      rw [CallbackSite.drafts_return carrier, List.length_append, List.length_singleton] at drafted
      refine ⟨List.mem_singleton.mp goes, ?_⟩
      rw [CallbackSite.drafts_return carrier, ← drafted, Nat.add_sub_cancel, List.take_left]
      exact suits.returning cancel carrier resume

/-- Depths in a woven body: the instructions of the body before keep theirs, and the code of a place has those that it comes
to from the depth at the place. -/
inductive Laid (splice : Splice) (entry : InstrId → InstrId) (returnsValue : Bool)
    (depth : InstrId → Nat → Prop) : InstrId → Nat → Prop
  | own {id : InstrId} {held : Nat} : id ∈ splice.original.ids → depth id held →
    Laid splice entry returnsValue depth id held
  | code {position offset held reached : Nat} {own : Instruction} :
      splice.original.instructions[position]? = some own → own.id ∈ splice.points →
      offset < splice.site.length splice.cancel → depth own.id held →
      Draft.Runs returnsValue ((splice.site.drafts (splice.resume (entry own.id)) splice.cancel).take offset) held reached →
      Laid splice entry returnsValue depth (counting (entry own.id) offset) reached

namespace Layered

variable {offset reached place : Nat} {returnsValue : Bool}

theorem drafted (splice : Splice) (inside : offset < splice.site.length splice.cancel) (resume : InstrId) :
    ∃ draft, (splice.site.drafts resume splice.cancel)[offset]? = some draft :=
  ⟨_, List.getElem?_eq_getElem (by rwa [CallbackSite.length_drafts])⟩

/-- An instruction of the body before has the depths that it had. -/
theorem laid_own (layered : splice.Layered entry start) (found : splice.original.instructions[position]? = some own)
    (laid : splice.Laid entry returnsValue depth own.id held) : depth own.id held := by
  generalize same : own.id = id at laid
  cases laid with
  | own _ given => exact given
  | code there point inside _ _ =>
      obtain ⟨draft, drafted⟩ := drafted splice inside _
      have member : own.id ∈ splice.original.ids := Body.idAt?_mem (Option.map_eq_some_iff.mpr ⟨own, found, rfl⟩)
      rw [same] at member
      exact absurd member (layered.injected _ _ _ (code_drafts there point drafted)).1

/-- An instruction of the code of a place has the depths that the code comes to from those at the place. -/
theorem laid_code (layered : splice.Layered entry start) (found : splice.original.instructions[position]? = some own)
    (point : own.id ∈ splice.points) (inside : offset < splice.site.length splice.cancel)
    (laid : splice.Laid entry returnsValue depth (counting (entry own.id) offset) reached) : ∃ held, depth own.id held ∧
      Draft.Runs returnsValue ((splice.site.drafts (splice.resume (entry own.id)) splice.cancel).take offset) held reached := by
  obtain ⟨draft, drafted⟩ := drafted splice inside (splice.resume (entry own.id))
  have listed := code_drafts found point drafted
  generalize same : counting (entry own.id) offset = id at laid
  cases laid with
  | own member _ =>
      rw [← same] at member
      exact absurd member (layered.injected _ _ _ listed).1
  | @code other otherOffset held _ twin there too within given runs =>
      obtain ⟨another, redrafted⟩ := Layered.drafted splice within (splice.resume (entry twin.id))
      have again := code_drafts there too redrafted
      have here := layered.inner listed
      have also := layered.inner again
      rw [show (another.withId (counting (entry twin.id) otherOffset)).id =
        (draft.withId (counting (entry own.id) offset)).id from same.symm,
        here] at also
      obtain ⟨rfl, rfl⟩ := layered.block_unique (Array.getElem?_eq_some_iff.mp found).1
        (Array.getElem?_eq_some_iff.mp there).1
        (by rw [length_code found point]; exact Nat.le_of_lt inside)
        (by rw [length_code there too]; exact Nat.le_of_lt within) (Option.some.inj also)
      cases found.symm.trans there
      exact ⟨held, given, runs⟩

/-- Where blocks start, the stack is as it is at the instruction behind. -/
theorem laid_entry (layered : splice.Layered entry start) (found : splice.original.instructions[position]? = some own)
    (given : depth own.id held) : splice.Laid entry returnsValue depth (entry own.id) held := by
  by_cases point : own.id ∈ splice.points
  · have starts : splice.Laid entry returnsValue depth (counting (entry own.id) 0) held :=
      .code found point (splice.site.length_pos splice.cancel) given (.nil held)
    rwa [counting_zero] at starts
  · rw [layered.stays own.id point]
    exact .own (Body.idAt?_mem (Option.map_eq_some_iff.mpr ⟨own, found, rfl⟩)) given

/-- Each position of a woven body is in a block. -/
theorem covers (layered : splice.Layered entry start) (inside : place < splice.woven.instructions.size) :
    ∃ position offset, position < splice.original.instructions.size ∧ offset ≤ (splice.code entry position).length ∧
      place = start position + offset := by
  have below (count : Nat) (all : count ≤ splice.original.instructions.size) (less : place < start count) :
      ∃ position offset, position < splice.original.instructions.size ∧ offset ≤ (splice.code entry position).length ∧
        place = start position + offset := by
    induction count with
    | zero => exact absurd less (by rw [layered.first]; exact Nat.not_lt_zero _)
    | succ count ih =>
        rcases Nat.lt_or_ge place (start count) with before | behind
        · exact ih (Nat.le_of_succ_le all) before
        · obtain ⟨offset, rfl⟩ := Nat.exists_eq_add_of_le behind
          rw [layered.next count all, Nat.add_assoc, Nat.add_lt_add_iff_left] at less
          exact ⟨count, offset, all, Nat.le_of_lt_succ less, rfl⟩
  exact below _ (Nat.le_refl _) (layered.last ▸ inside)

end Layered

/-- An instruction of a woven body with a depth is one of the body before, or one of the code of a place. -/
inductive Located (splice : Splice) (entry : InstrId → InstrId) (start : Nat → Nat) (returnsValue : Bool)
    (depth : InstrId → Nat → Prop) (held : Nat) (wide : Instruction) : Nat → Prop
  | own {position : Nat} {own : Instruction} : splice.original.instructions[position]? = some own →
      (own.redirect entry).Widens wide → depth own.id held →
      Located splice entry start returnsValue depth held wide (start position + (splice.code entry position).length)
  | code {position offset before : Nat} {own : Instruction} {draft : Draft} :
      splice.original.instructions[position]? = some own → own.id ∈ splice.points →
      (splice.site.drafts (splice.resume (entry own.id)) splice.cancel)[offset]? = some draft →
      (draft.withId (counting (entry own.id) offset)).Widens wide → depth own.id before →
      Draft.Runs returnsValue ((splice.site.drafts (splice.resume (entry own.id)) splice.cancel).take offset) before held →
      Located splice entry start returnsValue depth held wide (start position + offset)

namespace Layered

variable {offset reached place : Nat} {returnsValue : Bool} {wide : Instruction}

theorem located (layered : splice.Layered entry start) (found : splice.woven.instructions[place]? = some wide)
    (laid : splice.Laid entry returnsValue depth wide.id held) :
    splice.Located entry start returnsValue depth held wide place := by
  obtain ⟨position, offset, inside, within, rfl⟩ := layered.covers (Array.getElem?_eq_some_iff.mp found).1
  obtain ⟨own, placed⟩ : ∃ own, splice.original.instructions[position]? = some own :=
    ⟨_, Array.getElem?_eq_getElem inside⟩
  rcases Nat.lt_or_eq_of_le within with less | rfl
  · have point : own.id ∈ splice.points := by
      have code := List.ne_nil_of_length_pos (Nat.zero_lt_of_lt less)
      obtain ⟨id, same, listed⟩ := Splice.code_ne_nil.mp code
      rw [Body.idAt?, placed] at same
      cases same
      exact listed
    rw [length_code placed point] at less
    obtain ⟨draft, drafted⟩ := drafted splice less (splice.resume (entry own.id))
    obtain ⟨-, other, there, widens⟩ := layered.injected position offset _ (code_drafts placed point drafted)
    cases found.symm.trans there
    rw [widens.id] at laid
    obtain ⟨before, given, runs⟩ := layered.laid_code placed point less laid
    exact .code placed point drafted widens given runs
  · obtain ⟨other, there, widens⟩ := layered.own position own placed
    cases found.symm.trans there
    rw [widens.id] at laid
    exact .own placed widens (layered.laid_own placed laid)

section

variable (layered : splice.Layered entry start)

include layered

/-- Where an instruction of the body before leads, it led to the instruction that the block there is for. -/
theorem leads_back (found : splice.original.instructions[position]? = some own) (widens : (own.redirect entry).Widens wide)
    {next : Nat}
    (targets : ∀ target ∈ own.targets, ∃ goal, splice.original.target? target = some goal)
    (leads : (context.withCode splice.woven).Leads (start position + (splice.code entry position).length) wide next) :
    ∃ goal, (context.withCode splice.original).Leads position own goal ∧ next = start goal := by
  have like := (own.redirect_resembles entry).trans widens.resembles
  rcases leads with ⟨target, listed, goes⟩ | ⟨falls, rfl⟩
  · rw [widens.targets, Instruction.redirect, Instruction.targets, Operand.targets_mapTargets] at listed
    obtain ⟨old, member, rfl⟩ := List.mem_map.mp listed
    obtain ⟨goal, there⟩ := targets old member
    exact ⟨goal, .inl ⟨old, member, there⟩, Option.some.inj (goes.symm.trans (layered.enter old goal there))⟩
  · exact ⟨position + 1, .inr ⟨like.falls ▸ falls, rfl⟩,
      (layered.next position (Array.getElem?_eq_some_iff.mp found).1).symm⟩

/-- An instruction of the body before is used in the woven body as in its own. -/
theorem own_usable (widens : (own.redirect entry).Widens wide)
    (usable : (context.withCode splice.original).Usable position held own) :
    (context.withCode splice.woven).Usable (start position + (splice.code entry position).length) held wide := by
  have like := (own.redirect_resembles entry).trans widens.resembles
  have room : (context.withCode splice.original).SameRoom (context.withCode splice.woven) := ⟨rfl, rfl, rfl⟩
  refine room.usable like usable (fun target listed => ?_) fun falls => ?_
  · rw [widens.targets, Instruction.redirect, Instruction.targets, Operand.targets_mapTargets] at listed
    obtain ⟨old, member, rfl⟩ := List.mem_map.mp listed
    obtain ⟨goal, goes⟩ := usable.targets old member
    exact ⟨start goal, layered.enter old goal goes⟩
  · have more : position + 1 < splice.original.instructions.size := usable.falls (like.falls ▸ falls)
    have later := layered.start_lt more (Nat.le_refl _)
    rw [layered.last, layered.next position (Nat.lt_of_succ_lt more)] at later
    exact Nat.lt_of_le_of_lt (Nat.le_add_right _ _) later

variable (found : splice.original.instructions[position]? = some own) (point : own.id ∈ splice.points)

include found point

/-- Branches over a return resume at the last instruction of the code. -/
theorem resumes : splice.woven.target? (splice.resume (entry own.id)) =
    some (start position + (splice.site.length splice.cancel - 1)) := by
  have positive := splice.site.length_pos splice.cancel
  obtain ⟨draft, drafted⟩ := drafted splice (Nat.sub_lt positive Nat.one_pos) (splice.resume (entry own.id))
  exact layered.inner (code_drafts found point drafted)

/-- The code of a place ends in front of the instruction. -/
theorem code_inside {draft : Draft}
    (drafted : (splice.site.drafts (splice.resume (entry own.id)) splice.cancel)[offset]? = some draft) :
    offset < (splice.code entry position).length ∧ start position + offset + 1 < splice.woven.instructions.size := by
  have inside := (List.getElem?_eq_some_iff.mp drafted).1
  rw [CallbackSite.length_drafts, ← length_code found point entry] at inside
  obtain ⟨last, there, -⟩ := layered.own position own found
  exact ⟨inside, Nat.lt_of_le_of_lt (Nat.add_le_add_left inside _) (Array.getElem?_eq_some_iff.mp there).1⟩

variable {draft : Draft} {before : Nat} (suits : splice.Suits context) (lands : splice.Lands depth)
  (drafted : (splice.site.drafts (splice.resume (entry own.id)) splice.cancel)[offset]? = some draft)
  (widens : (draft.withId (counting (entry own.id) offset)).Widens wide) (given : depth own.id before)
  (runs : Draft.Runs context.returnsValue
    ((splice.site.drafts (splice.resume (entry own.id)) splice.cancel).take offset) before held)

include suits lands drafted widens given runs

/-- The code of a place may be used at the depths that it comes to. -/
theorem code_usable : (context.withCode splice.woven).Usable (start position + offset) held wide := by
  obtain ⟨pops, -⟩ := StackContext.takes (context.withCode splice.woven) widens
  obtain ⟨reached, first, covered, returns, -⟩ :=
    (suits.runs lands point given (splice.resume (entry own.id))).split drafted
  cases runs.det first
  have like := widens.resembles
  have room := suits.room (splice.resume (entry own.id)) draft (List.mem_of_getElem? drafted)
  refine ⟨fun index slot => (room index).1 (like.slot ▸ slot), fun index argument => (room index).2
    (like.argument ▸ argument),
    pops ▸ covered, fun ret => pops ▸ returns (like.returns.mp ret), fun target listed => ?_, fun falls => ?_⟩
  · rw [widens.targets] at listed
    rcases suits.jumps lands point given drafted runs listed with ⟨rfl, -⟩ | ⟨cancel, -, -⟩
    · exact ⟨_, layered.resumes found point⟩
    · obtain ⟨goal, there⟩ := Body.target?_of_mem (suits.goes target cancel)
      exact ⟨_, layered.skip there⟩
  · exact (layered.code_inside found point drafted).2

/-- The code of a place leads on with the depths that were given. -/
theorem code_leads {next : Nat} {other : Instruction}
    (leads : (context.withCode splice.woven).Leads (start position + offset) wide next)
    (there : splice.woven.instructions[next]? = some other) :
    splice.Laid entry context.returnsValue depth other.id ((context.withCode splice.woven).depthAfter wide held) := by
  obtain ⟨-, left⟩ := StackContext.takes (context.withCode splice.woven) widens
  rw [left]
  rcases leads with ⟨target, listed, goes⟩ | ⟨-, rfl⟩
  · obtain ⟨same, reached, named⟩ := Body.target?_found goes
    cases reached.symm.trans there
    rw [widens.targets] at listed
    rw [named]
    rcases suits.jumps lands point given drafted runs listed with ⟨rfl, resumed⟩ | ⟨cancel, after, landed⟩
    · have positive := splice.site.length_pos splice.cancel
      exact .code found point (Nat.sub_lt positive Nat.one_pos) given resumed
    · show splice.Laid entry context.returnsValue depth target (draft.depthAfter context.returnsValue held)
      rw [after]
      exact .own (suits.goes target cancel) landed
  · have whole := suits.runs lands point given (splice.resume (entry own.id))
    obtain ⟨reached, first, -, -, further⟩ := whole.split drafted
    cases runs.det first
    have inside := (layered.code_inside found point drafted).1
    rcases Nat.lt_or_eq_of_le (Nat.succ_le_of_lt inside) with less | last
    · rw [length_code found point] at less
      obtain ⟨after, redrafted⟩ := Layered.drafted splice less (splice.resume (entry own.id))
      obtain ⟨-, same, placed, wider⟩ := layered.injected position (offset + 1) _ (code_drafts found point redrafted)
      cases there.symm.trans placed
      rw [wider.id]
      exact .code found point less given further
    · obtain ⟨same, placed, wider⟩ := layered.own position own found
      rw [← last] at placed
      cases there.symm.trans placed
      rw [wider.id]
      have all : (splice.site.drafts (splice.resume (entry own.id)) splice.cancel).length ≤ offset + 1 := by
        rw [CallbackSite.length_drafts, ← length_code found point entry, ← last]
      rw [List.take_of_length_le all] at further
      cases whole.det further
      exact .own (Body.idAt?_mem (Option.map_eq_some_iff.mpr ⟨own, found, rfl⟩)) given

end

/-- Depths of a body are depths of the body with code woven in, if cancelled callbacks go where the stack is as it has to be. -/
theorem spreads (layered : splice.Layered entry start) (suits : splice.Suits context) (lands : splice.Lands depth)
    (coherent : splice.original.Coherent) (assigns : (context.withCode splice.original).Assigns depth) :
    (context.withCode splice.woven).Assigns (splice.Laid entry context.returnsValue depth) := by
  refine ⟨fun first found => ?_, fun id member held other one same => ?_, fun place held wide found laid => ?_,
    fun place held next wide other found laid leads there => ?_⟩
  · obtain ⟨position, offset, inside, -, -⟩ := layered.covers (Array.getElem?_eq_some_iff.mp found).1
    have own := Array.getElem?_eq_getElem (Nat.lt_of_le_of_lt (Nat.zero_le position) inside)
    obtain ⟨head, here, same⟩ := layered.head coherent.distinct own
    rw [layered.first, show splice.woven.instructions[0]? = some first from found] at here
    cases here
    rw [same]
    exact layered.laid_entry own (assigns.entry _ own)
  · cases one with
    | own listed given =>
        obtain ⟨own, among, rfl⟩ := List.mem_map.mp listed
        obtain ⟨position, found⟩ := List.getElem?_of_mem among
        rw [Array.getElem?_toList] at found
        exact assigns.unique _ listed held other given (layered.laid_own found same)
    | @code position offset before _ own found point inside given runs =>
        obtain ⟨again, given', runs'⟩ := layered.laid_code found point inside same
        have listed : own.id ∈ splice.original.ids := Body.idAt?_mem (Option.map_eq_some_iff.mpr ⟨own, found, rfl⟩)
        cases assigns.unique _ listed before again given given'
        exact runs.det runs'
  · cases layered.located found laid with
    | @own position own placed widens given =>
        exact layered.own_usable widens (assigns.usable position held own placed given)
    | @code position offset before own draft placed point drafted widens given runs =>
        exact layered.code_usable placed point suits lands drafted widens given runs
  · cases layered.located found laid with
    | @own position own placed widens given =>
        have usable := assigns.usable position held own placed given
        obtain ⟨goal, onward, rfl⟩ := layered.leads_back placed widens usable.targets leads
        have here := Array.getElem?_eq_getElem (usable.target onward)
        obtain ⟨head, starts, same⟩ := layered.head coherent.distinct here
        cases (show splice.woven.instructions[start goal]? = some other from there).symm.trans starts
        rw [same, depthAfter widens]
        exact layered.laid_entry here (assigns.leads position held goal own _ placed given onward here)
    | @code position offset before own draft placed point drafted widens given runs =>
        exact layered.code_leads placed point suits lands drafted widens given runs leads there

end Layered

end Splice

end CilWeave
