import CilWeave.Proofs.Mixin.WovenBodies

/-!
What an injection does to the body it works on, exactly: the callback's code goes in front of each place,
the body's own instructions stay as they were but for their branches to the places, and nothing else changes.
-/

namespace CilWeave

open Stateful

/-- Where branches of a body's own instructions go when there is code in front of some: to its first instruction. -/
def entryOf (code : InstrId → List Instruction) (id : InstrId) : InstrId := ((code id).head?.map (·.id)).getD id

namespace Injection

variable (injection : Injection)

/-- The places that the injection is for, in order. -/
def points : List InstrId := injection.body.locate injection.descriptor.location

/-- The body of an injection with the code in front of each place, and with what became of its own instructions. -/
structure Inserted (code : InstrId → List Instruction) (own : Instruction → Instruction) : Prop where
  /-- each instruction stays behind the code for it -/
  instructions : injection.woven.instructions.toList =
    injection.body.instructions.toList.flatMap fun instruction => code instruction.id ++ [own instruction]
  /-- there is code for the places only -/
  elsewhere : ∀ id, id ∉ injection.points → code id = []
  /-- the code for a place is the callback's, with identities that follow each other and had not been handed out -/
  numbered : ∀ point ∈ injection.points, ∃ first, injection.body.nextFresh.toNat ≤ first.toNat ∧
    first.toNat + injection.site.length injection.cancel < UInt32.size ∧
    List.Forall₂ Instruction.Widens (injection.site.codeAt injection.cancel first) (code point)
  distinct : injection.woven.ids.Nodup
  /-- own branches to a place go to the code for it, and may be widened -/
  redirected : ∀ instruction ∈ injection.body.instructions.toList,
    (instruction.redirect (entryOf code)).Widens (own instruction)
  /-- injected branches stay in the code they are part of, or go to the cancel target itself -/
  confined : ∀ point ∈ injection.points, ∀ instruction ∈ code point, ∀ target ∈ instruction.targets,
    target ∈ (code point).map (·.id) ∨ injection.cancel = .branch target ∧ target ∈ injection.body.ids

variable {injection} {code : InstrId → List Instruction} {own : Instruction → Instruction} {point : InstrId}

namespace Inserted

variable (inserted : injection.Inserted code own)

include inserted

theorem ids (place : point ∈ injection.points) : ∃ first, injection.body.nextFresh.toNat ≤ first.toNat ∧
    first.toNat + injection.site.length injection.cancel < UInt32.size ∧
    (code point).map (·.id) = (List.range (injection.site.length injection.cancel)).map (counting first) := by
  obtain ⟨first, lower, room, widened⟩ := inserted.numbered point place
  have same : List.Forall₂ (· = ·) ((injection.site.codeAt injection.cancel first).map (·.id))
    ((code point).map (·.id)) :=
    List.forall₂_map_left_iff.mpr (List.forall₂_map_right_iff.mpr (widened.imp fun _ _ widens => widens.id.symm))
  rw [List.forall₂_eq_eq_eq, CallbackSite.ids_codeAt] at same
  exact ⟨first, lower, room, same.symm⟩

theorem foreign (above : ∀ id ∈ injection.body.ids, id.toNat < injection.body.nextFresh.toNat) {id : InstrId}
    {instruction : Instruction} (member : instruction ∈ code id) : instruction.id ∉ injection.body.ids := by
  by_cases place : id ∈ injection.points
  · obtain ⟨first, lower, room, ids⟩ := inserted.ids place
    have listed : instruction.id ∈ (code id).map (·.id) := List.mem_map_of_mem member
    rw [ids, mem_counting (Nat.le_of_lt room)] at listed
    exact fun among => absurd (above _ among) (Nat.not_lt.mpr (Nat.le_trans lower listed.1))
  · rw [inserted.elsewhere id place] at member
    cases member

/-- The code for a place ends right in front of it. -/
theorem stands (place : point ∈ injection.points) : ∃ before instruction after,
    injection.woven.instructions.toList = before ++ code point ++ own instruction :: after ∧ instruction.id = point ∧
      code point ≠ [] := by
  obtain ⟨instruction, listed, rfl⟩ := List.mem_map.mp (Body.mem_locate place)
  obtain ⟨before, after, split⟩ := List.append_of_mem listed
  refine ⟨_, instruction, _, by
    rw [inserted.instructions, split, List.flatMap_append, List.flatMap_cons]
    simp
    rfl, rfl, ?_⟩
  obtain ⟨first, -, -, ids⟩ := inserted.ids place
  intro none
  rw [none, List.map_nil, eq_comm, List.map_eq_nil_iff, List.range_eq_nil] at ids
  exact Nat.ne_of_gt (injection.site.length_pos injection.cancel) ids

/-- Without what was injected, the body's own instructions are left, in order. -/
theorem rest (above : ∀ id ∈ injection.body.ids, id.toNat < injection.body.nextFresh.toNat) :
    (injection.woven.instructions.toList.filter fun instruction => injection.body.ids.contains instruction.id) =
      injection.body.instructions.toList.map own := by
  rw [inserted.instructions, List.filter_flatMap, List.map_eq_flatMap]
  refine List.flatMap_congr fun instruction member => ?_
  have kept : (own instruction).id = instruction.id := (inserted.redirected instruction member).id
  have injected : (code instruction.id).filter (fun other => injection.body.ids.contains other.id) = [] := by
    rw [List.filter_eq_nil_iff]
    exact fun other among => by simpa using inserted.foreign above among
  have listed : instruction.id ∈ injection.body.ids := List.mem_map_of_mem member
  rw [List.filter_append, injected]
  simp [kept, listed]

end Inserted

/-- Every accepted injection puts the callback's code in front of its places. -/
theorem inserted (injection : Injection) (distinct : injection.body.ids.Nodup)
    (supplies : injection.body.Supplies injection.written) : ∃ code own, injection.Inserted code own := by
  obtain ⟨spliced, entries, woven, placed, keys⟩ := injection.spliced distinct supplies
  obtain ⟨widen, widens, relaxed⟩ := Body.relaxWithin_map (spliced.instructions.size + 1) spliced
  have relaxed : injection.woven.instructions = spliced.instructions.map widen :=
    woven ▸ congrArg Body.instructions relaxed
  have started (point : InstrId) (place : point ∈ injection.points) : ∃ first, entries.lookup point = some first ∧
      injection.body.nextFresh.toNat ≤ first.toNat ∧ first.toNat + injection.site.length injection.cancel <
        UInt32.size := by
    obtain ⟨first, found⟩ := Option.isSome_iff_exists.mp ((keys point).mpr place)
    obtain ⟨lower, upper⟩ := placed.within _ (MixinContext.lookup_mem found)
    exact ⟨first, found, lower, Nat.lt_of_le_of_lt upper (UInt32.toNat_lt_size _)⟩
  have code (id : InstrId) : entryOf (fun id => (entries.codeOf (injection.site.codeAt injection.cancel) id).map widen) id =
      entries.entry id := by
    simp only [entryOf, Entries.codeOf, Entries.entry]
    cases held : List.lookup id entries with
    | none => simp
    | some first =>
        obtain ⟨head, found, starts⟩ := injection.site.codeAt_head injection.cancel first
        simp [List.head?_eq_getElem?, found, (widens head).id, starts]
  refine ⟨fun id => (entries.codeOf (injection.site.codeAt injection.cancel) id).map widen,
    fun instruction => widen (instruction.redirect entries.entry), ⟨?_, ?_, ?_, ?_, ?_, ?_⟩⟩
  · rw [relaxed, Array.toList_map, placed.instructions, Entries.interleave, List.map_flatMap]
    exact List.flatMap_congr fun instruction _ => by simp [Entries.block]
  · intro id other
    have none : entries.lookup id = none := Option.not_isSome_iff_eq_none.mp fun found => other ((keys id).mp found)
    simp [Entries.codeOf, none]
  · intro point place
    obtain ⟨first, found, lower, room⟩ := started point place
    refine ⟨first, lower, room, ?_⟩
    simp only [Entries.codeOf, found, Option.map_some, Option.getD_some]
    exact List.forall₂_map_right_iff.mpr (List.forall₂_same.mpr fun instruction _ => widens instruction)
  · rw [woven, spliced.relax_widens.ids]
    exact placed.nodup distinct supplies.above
  · intro instruction _
    rw [show entryOf _ = entries.entry from funext code]
    exact widens _
  · intro point place instruction member target among
    obtain ⟨first, found, -⟩ := started point place
    simp only [Entries.codeOf, found, Option.map_some, Option.getD_some, List.mem_map] at member ⊢
    obtain ⟨written, listed, rfl⟩ := member
    rw [(widens written).targets] at among
    rcases (CallbackSite.codeAt_fit listed).2 target among with within | cancel
    · have inside : target ∈ (injection.site.codeAt injection.cancel first).map (·.id) := by
        rwa [CallbackSite.ids_codeAt]
      exact .inl (by simpa [(widens _).id] using inside)
    · exact .inr ⟨cancel, injection.cancel_target cancel⟩

end Injection

namespace Fork

/-- Both returns are places, next to each other, and a switch names one of them twice. -/
def code : Body :=
  ⟨8, true, #[], #[⟨0, .ldarg0, .none⟩, ⟨1, .switch, .switch [3, 2, 3]⟩, ⟨2, .ret, .none⟩, ⟨3, .ret, .none⟩],
    0⟩

def number : ParamDef := ⟨"x", .primitive .int32, []⟩

def pick : MethodDef := ⟨"Pick", ⟨MethodFlags.isStatic⟩, .void, [number], some code, []⟩

def type : TypeDef := { TypeDef.empty "" "T" ⟨0⟩ none with methods := [pick] }

def carrier : ParamDef := ⟨"info", .classType ⟨some "DotMixin", "DotMixin", Marker.plainCarrier⟩, []⟩

def watch : MethodDef :=
  ⟨"watch", ⟨MethodFlags.isStatic⟩, .void, [number, carrier], some ⟨8, true, #[], #[⟨0, .ret, .none⟩], 0⟩, []⟩

def mixinType : TypeDef := { TypeDef.empty "" "M" ⟨0⟩ none with methods := [watch] }

/-- A callback that is cancelled goes to the first return, which is a place itself. -/
def descriptor : InjectDescriptor :=
  ⟨0, "watch", "System.Void T::Pick(System.Int32)", .return, true, .instruction "ret", 2, [.argument, .carrier .plain]⟩

def before : PatchState := ⟨type, ⟨"M", "T", 0, 0, 0, 0, []⟩, []⟩

def context : MixinContext :=
  ⟨⟨"M", .type "T", 0, [], [.inject descriptor]⟩, mixinType, "T", type.sig,
    ⟨.standard, "Mods", "Game", "M", .ofList [("M", "T")], .empty⟩⟩

def after : PatchState := (context.applyInject descriptor before).toOption.getD before

theorem applied : context.applyInject descriptor before = .ok after := ok_of_isOk before (by decide +kernel)

theorem cancels : context.cancelAction watch descriptor.targetMethod code .void true descriptor.cancelTarget =
    .ok (.branch 2) := by
  have found : (code.find? "ret").bind code.spliceId? = some 2 := by decide +kernel
  simp only [MixinContext.cancelAction, descriptor, found]

def injection : Injection :=
  .of applied 0 watch pick code (some (.plain, context.home.sig carrier.type)) (.branch 2) rfl rfl rfl rfl rfl cancels

end Fork

namespace Crowded

end Crowded

end CilWeave
