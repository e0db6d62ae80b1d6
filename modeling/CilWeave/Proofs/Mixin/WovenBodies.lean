import CilWeave.Proofs.Body.Soundness
import CilWeave.Proofs.Mixin.Operations
import CilWeave.Proofs.Mixin.Refinement
import CilWeave.Proofs.Store.Loading

/-!
Weaving keeps bodies sound. Moving a body changes neither its identities nor its layout; splicing puts in
code with identities of its own whose branches stay in the body, and widens what no longer reaches.
-/

namespace CilWeave

open Stateful

theorem Operand.fits_mapTargets (operand : Operand) (rename : InstrId → InstrId) (kind : OperandKind) :
    (operand.mapTargets rename).fits kind = operand.fits kind := by
  cases operand <;> cases kind <;> rfl

theorem Source.draft_wellFormed (source : Source) : source.draft.wellFormed = true := by
  cases source with
  | argument index => exact Draft.wellFormed_loadArgument index
  | slot index => exact Draft.wellFormed_loadLocal index
  | slotAddress index => exact Draft.wellFormed_loadLocalAddress index
  | nothing => rfl

theorem Draft.targets_indexed {own : List Opcode} {short long : Opcode} {operand : UInt16 → Operand} {index : UInt16}
    (none : (operand index).targets = []) : (indexed own short long operand index).operand.targets = [] := by
  unfold indexed
  split
  · rfl
  · exact none

theorem Source.draft_targets (source : Source) : source.draft.operand.targets = [] := by
  cases source with
  | argument index | slot index | slotAddress index => exact Draft.targets_indexed rfl
  | nothing => rfl

namespace CallbackSite

variable {site : CallbackSite} {resume : InstrId} {cancel : CancelAction} {draft : Draft}

/-- The operands of injected code fit, and its branches go to where it resumes or to the cancel target. -/
theorem drafts_fit (member : draft ∈ site.drafts resume cancel) :
    draft.wellFormed = true ∧ ∀ target ∈ draft.operand.targets, target = resume ∨ cancel = .branch target := by
  have plain {draft : Draft} (fits : draft.wellFormed = true) (straight : draft.operand.targets = []) :
      draft.wellFormed = true ∧ ∀ target ∈ draft.operand.targets, target = resume ∨ cancel = .branch target :=
    ⟨fits, by simp [straight]⟩
  cases part_of_mem member with
  | load _ => exact plain (Source.draft_wellFormed _) (Source.draft_targets _)
  | keep _ => exact plain (Draft.wellFormed_storeLocal _) (Draft.targets_indexed rfl)
  | carrier _ => exact plain (Draft.wellFormed_loadLocal _) (Draft.targets_indexed rfl)
  | branch goes => exact ⟨rfl, fun target among => .inr (by rw [List.mem_singleton.mp among, goes])⟩
  | skip => exact ⟨rfl, fun target among => .inl (List.mem_singleton.mp among)⟩
  | call | drop | make | question | value | ret | nop => exact plain rfl rfl

/-- The instructions of a place's code fit, and branch within the code or to the cancel target. -/
theorem codeAt_fit {first : InstrId} {instruction : Instruction} (member : instruction ∈ site.codeAt cancel first) :
    instruction.wellFormed = true ∧ ∀ target ∈ instruction.targets,
      target ∈ (List.range (site.length cancel)).map (counting first) ∨ cancel = .branch target := by
  obtain ⟨offset, found⟩ := List.getElem?_of_mem member
  rw [codeAt, codeBy, getElem?_numbered] at found
  obtain ⟨draft, held, rfl⟩ := Option.map_eq_some_iff.mp found
  obtain ⟨wellFormed, targets⟩ := drafts_fit (List.mem_of_getElem? held)
  refine ⟨wellFormed, fun target among => (targets target among).imp_left fun same => ?_⟩
  rw [same]
  exact List.mem_map_of_mem (List.mem_range.mpr (Nat.sub_one_lt_of_lt (site.length_pos cancel)))

end CallbackSite

namespace MixinContext

variable {site : CallbackSite} {cancel : CancelAction} {original body : Body} {low : InstrId} {entries : Entries}

/-- The instructions of a body with spliced code are its own, redirected, and those of the code. -/
theorem Spliced.mem (spliced : Spliced site cancel original low entries body) {instruction : Instruction}
    (member : instruction ∈ body.instructions.toList) :
    (∃ own ∈ original.instructions.toList, instruction = own.redirect entries.entry) ∨
      ∃ point ∈ original.ids, ∃ first, entries.lookup point = some first ∧
      instruction ∈ site.codeAt cancel first := by
  rw [spliced.instructions] at member
  obtain ⟨own, listed, place⟩ := List.mem_flatMap.mp member
  rcases List.mem_append.mp place with injected | last
  · refine .inr ⟨own.id, List.mem_map_of_mem listed, ?_⟩
    unfold Entries.codeOf at injected
    cases found : entries.lookup own.id with
    | none => simp [found] at injected
    | some first => exact ⟨first, rfl, by simpa [found] using injected⟩
  · exact .inl ⟨own, listed, List.mem_singleton.mp last⟩

theorem Spliced.mem_ids (spliced : Spliced site cancel original low entries body) {id : InstrId} :
    id ∈ body.ids ↔ id ∈ original.ids ∨
      ∃ point ∈ original.ids, ∃ first, entries.lookup point = some first ∧
        id ∈ (List.range (site.length cancel)).map (counting first) := by
  rw [Body.ids, spliced.instructions, Entries.interleave, List.map_flatMap, List.mem_flatMap]
  simp only [mem_ids_block]
  constructor
  · rintro ⟨own, listed, rfl | code⟩
    · exact .inl (List.mem_map_of_mem listed)
    · exact .inr ⟨own.id, List.mem_map_of_mem listed, code⟩
  · rintro (member | ⟨point, member, code⟩)
    · obtain ⟨own, listed, rfl⟩ := List.mem_map.mp member
      exact ⟨own, listed, .inl rfl⟩
    · obtain ⟨own, listed, rfl⟩ := List.mem_map.mp member
      exact ⟨own, listed, .inr code⟩

theorem Spliced.entry_mem (spliced : Spliced site cancel original low entries body) {id : InstrId}
    (member : id ∈ original.ids) : entries.entry id ∈ body.ids := by
  unfold Entries.entry
  rw [spliced.mem_ids]
  cases found : entries.lookup id with
  | none => exact .inl member
  | some first =>
      exact .inr ⟨id, member, first, found,
        List.mem_map.mpr ⟨0, List.mem_range.mpr (site.length_pos cancel), counting_zero first⟩⟩

/-- Splicing code whose cancel target is in the body keeps references together. -/
theorem Spliced.coherent (spliced : Spliced site cancel original low entries body) (coherent : original.Coherent)
    (below : ∀ id ∈ original.ids, id.toNat < low.toNat) (cancels : ∀ target, cancel = .branch target →
      target ∈ original.ids) :
    body.Coherent := by
  refine ⟨spliced.nodup coherent.distinct below, fun instruction member => ?_, fun instruction member target among => ?_⟩
  · rcases spliced.mem member with ⟨own, listed, rfl⟩ | ⟨point, -, first, -, injected⟩
    · exact (Operand.fits_mapTargets own.operand _ _).trans (coherent.operands own listed)
    · exact (CallbackSite.codeAt_fit injected).1
  · rcases spliced.mem member with ⟨own, listed, rfl⟩ | ⟨point, place, first, found, injected⟩
    · rw [Instruction.targets, Instruction.redirect, Operand.targets_mapTargets] at among
      obtain ⟨old, held, rfl⟩ := List.mem_map.mp among
      exact spliced.entry_mem (coherent.targets own listed old held)
    · rcases (CallbackSite.codeAt_fit injected).2 target among with within | branch
      · exact spliced.mem_ids.mpr (.inr ⟨point, place, first, found, within⟩)
      · exact spliced.mem_ids.mpr (.inl (cancels target branch))

/-- Whatever was put in, what is handed out next is above it. -/
theorem Spliced.above (spliced : Spliced site cancel original low entries body)
    (below : ∀ id ∈ original.ids, id.toNat < low.toNat) : ∀ id ∈ body.ids, id.toNat < body.nextFresh.toNat := by
  intro id member
  rcases spliced.mem_ids.mp member with own | ⟨point, -, first, found, code⟩
  · exact Nat.lt_of_lt_of_le (below id own) spliced.reached
  · have less := ((mem_counting (spliced.room (lookup_mem found))).mp code).2
    exact Nat.lt_of_lt_of_le less (spliced.within _ (lookup_mem found)).2

end MixinContext

/-- A sound body whose counter is above its identities. -/
structure Body.Intact (body : Body) : Prop where
  sound : body.Sound
  fresh : body.Fresh

/-- What an injection leaves of a body that holds together is intact. -/
theorem Injection.woven_intact (injection : Injection) (coherent : injection.body.Coherent) (fresh : injection.body.Fresh)
    (spare : injection.woven.Spare) : injection.woven.Intact := by
  have supplies := injection.supplies fresh spare
  obtain ⟨spliced, entries, woven, placed, -⟩ := injection.spliced coherent.distinct supplies
  have original : injection.original.Coherent := ⟨coherent.distinct, coherent.operands, coherent.targets⟩
  have kept := placed.coherent original supplies.above fun target chosen => injection.cancel_target chosen
  have widens := spliced.relax_widens
  have next : spliced.Fresh := Body.fresh_of_above (placed.above supplies.above)
  rw [woven]
  exact ⟨kept.relax, next.congr widens.ids (by rw [widens.rest])⟩

namespace Rehoming

variable (home : Rehoming)

theorem operand_targets (operand : Operand) : (home.operand operand).targets = operand.targets := by
  cases operand <;> rfl

theorem operand_fits (operand : Operand) (kind : OperandKind) : (home.operand operand).fits kind = operand.fits kind := by
  cases operand <;> cases kind <;> rfl

/-- An instruction as it is moved. -/
def instruction (instruction : Instruction) : Instruction :=
  { instruction with operand := home.operand instruction.operand }

variable (body : Body)

theorem body_instructions : (home.body body).instructions.toList = body.instructions.toList.map home.instruction := by
  simp [Rehoming.body, instruction]

theorem body_ids : (home.body body).ids = body.ids := by
  rw [Body.ids, body_instructions, List.map_map]
  rfl

variable {body}

/-- Each instruction of a moved body is one that was moved. -/
theorem body_mem {instruction : Instruction} (member : instruction ∈ (home.body body).instructions.toList) :
    ∃ own ∈ body.instructions.toList, home.instruction own = instruction := by
  rw [body_instructions] at member
  exact List.mem_map.mp member

theorem body_coherent (coherent : body.Coherent) : (home.body body).Coherent := by
  have ids := home.body_ids body
  refine ⟨ids ▸ coherent.distinct, ?_, ?_⟩
  · intro instruction member
    obtain ⟨own, listed, rfl⟩ := home.body_mem member
    exact (home.operand_fits own.operand _).trans (coherent.operands own listed)
  · intro instruction member target among
    obtain ⟨own, listed, rfl⟩ := home.body_mem member
    rw [Instruction.targets, instruction, operand_targets] at among
    exact ids ▸ coherent.targets own listed target among

theorem body_fresh (fresh : body.Fresh) : (home.body body).Fresh := fresh.congr (home.body_ids body) rfl

end Rehoming

theorem Body.Intact.withMaxStack {body : Body} (intact : body.Intact) (depth : UInt16) :
    Body.Intact { body with maxStack := depth } :=
  ⟨⟨⟨intact.sound.distinct, intact.sound.operands, intact.sound.targets⟩, intact.sound.short⟩, intact.fresh⟩

/-- What moving, injecting and resizing keep holds of all bodies of a woven target if it holds of those of the target and the
mixins. -/
theorem Weaver.apply_bodies {holds : Body → Prop} (moves : ∀ (home : Rehoming) (body : Body), holds body →
      holds (home.body body))
    (weaves : ∀ injection : Injection, holds injection.body → holds injection.woven)
    (resizes : ∀ (body : Body) (depth : UInt16), holds body → holds { body with maxStack := depth })
    {weaver after : Weaver} {report : WeaveReport} (target : weaver.target.EachBody holds)
    (mixins : weaver.mixins.EachBody holds) (accepted : weaver.apply = (.ok report, after)) : after.target.EachBody holds := by
  show after.target.EachMethod fun method => ∀ body, method.body = some body → holds body
  refine apply_preserves ?_ ?_ target accepted
  · intro list context op state after method read works makes kept body defined
    have moved {patch : MethodDef} {body : Body} (member : patch ∈ context.mixinDef.methods)
        (defined : patch.body.map context.home.body = some body) : holds body := by
      obtain ⟨old, held, rfl⟩ := Option.map_eq_some_iff.mp defined
      exact moves context.home old (mixins _ works.mixinDef patch member old held)
    cases makes with
    | kept member => exact kept method member body defined
    | implementation _ member _ => exact moved member defined
    | overwritten _ member held _ _ _ => exact moved member ((congrArg (Option.map _) held).trans defined)
    | callback injection _ own _ _ =>
        subst own
        exact moved (List.mem_of_getElem? injection.patched) defined
    | injected injection _ _ own _ =>
        subst own
        cases defined
        exact weaves injection (kept _ (List.mem_of_getElem? injection.held) _ injection.defined)
  · intro method depth each body defined
    obtain ⟨old, held, rfl⟩ := Option.map_eq_some_iff.mp defined
    exact resizes old depth (each old held)

/-- Every short branch has a distance to go that fits a signed byte. -/
def Module.InReach (module : Module) : Prop :=
  module.EachBody fun body => ∀ instruction ∈ body.instructions.toList, instruction.opcode.operandKind = .shortTarget →
    ∀ displacement ∈ body.layout.displacement? instruction, -128 ≤ displacement ∧ displacement ≤ 127

instance (module : Module) : Decidable module.InReach := inferInstanceAs (Decidable (module.EachBody _))

/-- In no body is the last identity in use. -/
def Module.Spare (module : Module) : Prop := module.EachBody Body.Spare

instance (module : Module) : Decidable module.Spare := inferInstanceAs (Decidable (module.EachBody _))

/-- A module that was read from an image with valid bodies whose short branches reach. -/
structure Module.Loaded (module : Module) : Prop where
  read : Image.IsRead module
  valid : module.validate = .ok ()
  short : module.InReach

theorem Module.Loaded.intact {module : Module} (loaded : module.Loaded) : module.EachBody Body.Intact := by
  intro type listed method member body defined
  obtain ⟨valid, unused⟩ := Module.bodies_of_isRead loaded.read loaded.valid type listed method member body defined
  have coherent := Body.validate_iff.mp valid
  refine ⟨⟨coherent, fun instruction among short => ?_⟩, .inl unused⟩
  obtain ⟨displacement, goes⟩ := coherent.displacement? among short
  exact ⟨displacement, goes, loaded.short type listed method member body defined instruction among short displacement goes⟩

namespace Loop

/-- A method with a short branch. -/
def test : MethodDef :=
  ⟨"Test", ⟨MethodFlags.isStatic⟩, .void, [],
    some ⟨8, true, #[], #[⟨0, .ldcI40, .none⟩, ⟨1, .brtrueS, .target 0⟩, ⟨2, .ret, .none⟩], 0⟩, []⟩

def game : Module := ⟨"Game", [], [{ TypeDef.empty "" "T" ⟨0⟩ none with methods := [test] }]⟩

def marked (marker : Marker) (arguments : List Argument) : Attribute :=
  ⟨.onInstance (.classType ⟨some "DotMixin", "DotMixin", marker.name⟩) ".ctor" .void [], .decoded ⟨arguments, []⟩⟩

def enter : MethodDef :=
  ⟨"enter", ⟨MethodFlags.isStatic⟩, .void, [], some ⟨8, true, #[], #[⟨0, .ret, .none⟩], 0⟩,
    [marked .inject [.string "System.Void T::Test()", .string "HEAD"]]⟩

def mods : Module :=
  ⟨"Mods", [],
    [{ TypeDef.empty "" "M" ⟨0⟩ none with methods := [enter], attributes := [marked .mixin [.type "T"]] }]⟩

/-- A module as it is read back from its image. -/
@[irreducible] def reloaded (module : Module) : Module :=
  (Image.read? maxImageDepth (Image.write Image.plain module)).getD default

def weaver : Weaver := .new .standard (reloaded game) (reloaded mods) ⟨[]⟩

def report (weaver : Weaver) : WeaveReport := weaver.apply.1.toOption.getD default

def next (weaver : Weaver) : Weaver := weaver.apply.2

theorem applies {weaver : Weaver} (succeeds : weaver.apply.1.isOk = true) :
    weaver.apply = (.ok (report weaver), next weaver) :=
  Prod.ext (ok_of_isOk default succeeds) rfl

theorem once : weaver.apply.1.isOk = true := by decide +kernel

theorem twice : (next weaver).apply.1.isOk = true := by decide +kernel

/-- A method whose return has the last identity but one. -/
def leave : MethodDef := { test with body := some ⟨8, true, #[], #[⟨4294967294, .ret, .none⟩], 0⟩ }

def crowd : Module := ⟨"Game", [], [{ TypeDef.empty "" "T" ⟨0⟩ none with methods := [leave] }]⟩

def crowded : Weaver := .new .standard (reloaded crowd) (reloaded mods) ⟨[]⟩

end Loop

end CilWeave
