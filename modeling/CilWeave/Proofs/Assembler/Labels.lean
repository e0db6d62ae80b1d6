import Mathlib.Data.List.Nodup
import CilWeave.Proofs.Assembler.Effects

/-!
Labels and the instructions they stand for. Whatever steps are taken, also with failures in between, the
finished code branches to what the history says its labels mean, and it is finished unless a label that
is needed has no meaning.
-/

open CilWeave.Stateful

namespace CilWeave.Assembler

variable {body : Body} {past : List Entry} {before later : Assembler} {entry : Entry} {step : Step} {outcome : Outcome}
  {sketches : List Sketch}

/-- Of the identities that the body handed out, at most one for each step, those of the instructions are in order. -/
def Counted (body : Body) (past : List Entry) (assembler : Assembler) : Prop :=
  ∃ used ≤ past.length, assembler.body = body.handOut used ∧
    ((emissions past).map (·.2)).Sublist ((List.range used).map body.upcoming)

theorem Counted.idle (counted : Counted body past before) (quiet : entry.emission? = none)
    (counter : later.body = before.body) :
    Counted body (past ++ [entry]) later := by
  obtain ⟨used, bounded, handed, among⟩ := counted
  refine ⟨used, ?_, counter.trans handed, by rwa [emissions_quiet quiet]⟩
  rw [List.length_append]
  exact Nat.le_add_right_of_le bounded

/-- A step that takes an identity may write an instruction with it. -/
theorem Counted.takes (counted : Counted body past before)
    (written : (entry.emission?.toList.map (·.2)).Sublist [before.body.nextFresh])
    (counter : later.body = before.body.handOut 1) : Counted body (past ++ [entry]) later := by
  obtain ⟨used, bounded, handed, among⟩ := counted
  have next : body.upcoming used = before.body.nextFresh := by rw [handed, Body.upcoming]
  refine ⟨used + 1, ?_, by rw [counter, handed, Body.handOut_handOut], ?_⟩
  · rw [List.length_append]
    exact Nat.add_le_add_right bounded 1
  · rw [emissions_concat, List.map_append, List.range_succ, List.map_append, List.map_singleton, next]
    exact among.append written

theorem Counted.keeps (counted : Counted body past before) (effect : step.Effect before outcome later) :
    Counted body (past ++ [⟨step, outcome⟩]) later := by
  cases effect with
  | refused => exact counted.idle rfl rfl
  | wasted => exact counted.takes (List.nil_sublist _) rfl
  | defined => exact counted.idle rfl rfl
  | bound => exact counted.idle rfl rfl
  | wrote sketched => exact counted.takes (List.Sublist.refl _) rfl

/-- What is noted for sketches from a position on. -/
def fixupsFrom (position : Nat) : List Sketch → List Fixup
  | [] => []
  | sketch :: rest => sketch.fixups position ++ fixupsFrom (position + 1) rest

theorem fixupsFrom_concat (position : Nat) (sketches : List Sketch) (sketch : Sketch) :
    fixupsFrom position (sketches ++ [sketch]) =
      fixupsFrom position sketches ++ sketch.fixups (position + sketches.length) := by
  induction sketches generalizing position with
  | nil => simp [fixupsFrom]
  | cons head rest ih => simp [fixupsFrom, ih, Nat.add_assoc, Nat.add_comm 1]

/-- The code holds what each step sketched, and what is to be filled in is noted. -/
structure Drawn (past : List Entry) (sketches : List Sketch) (assembler : Assembler) : Prop where
  sketched : List.Forall₂ (fun emission sketch => emission.1.Sketches emission.2 sketch) (emissions past) sketches
  code : assembler.code = (sketches.map (·.instruction)).toArray
  fixups : assembler.fixups = fixupsFrom 0 sketches

theorem Drawn.idle (drawn : Drawn past sketches before) (quiet : entry.emission? = none) (code : later.code = before.code)
    (fixups : later.fixups = before.fixups) : Drawn (past ++ [entry]) sketches later := by
  refine ⟨?_, code.trans drawn.code, fixups.trans drawn.fixups⟩
  rw [emissions_quiet quiet]
  exact drawn.sketched

theorem Drawn.keeps (drawn : Drawn past sketches before) (effect : step.Effect before outcome later) :
    ∃ sketches, Drawn (past ++ [⟨step, outcome⟩]) sketches later := by
  cases effect with
  | refused => exact ⟨sketches, drawn.idle rfl rfl rfl⟩
  | wasted => exact ⟨sketches, drawn.idle rfl rfl rfl⟩
  | defined => exact ⟨sketches, drawn.idle rfl rfl rfl⟩
  | bound => exact ⟨sketches, drawn.idle rfl rfl rfl⟩
  | @wrote sketch sketched =>
      refine ⟨sketches ++ [sketch], ?_, ?_, ?_⟩
      · rw [emissions_concat]
        exact List.rel_append drawn.sketched (.cons sketched .nil)
      · simp [write, drawn.code, ← sketched.id_eq]
      · simp [drawn.fixups, drawn.code, fixupsFrom_concat]

/-- What one label stands for. -/
def known (labels : Table InstrId) (label : String) : Except AssemblerFault InstrId :=
  match labels.get? label with
  | some id => .ok id
  | none => .error (.undefinedLabel label)

theorem known_ok_iff {labels : Table InstrId} {label : String} {id : InstrId} :
    known labels label = .ok id ↔ labels.get? label = some id := by
  unfold known
  cases labels.get? label <;> simp

theorem resolve_eq_mapM (labels : Table InstrId) (names : List String) : resolve labels names = names.mapM (known labels) := by
  induction names with
  | nil => rfl
  | cons name rest ih =>
      rw [resolve, List.mapM_cons, ih, known]
      cases labels.get? name with
      | none => rfl
      | some id => cases rest.mapM (known labels) <;> rfl

/-- The instruction with its labels filled in. -/
def Sketch.settle (labels : Table InstrId) (sketch : Sketch) : Except AssemblerFault Instruction :=
  if sketch.labels = [] then .ok sketch.instruction else (resolve labels sketch.labels).map (patched sketch.instruction)

theorem Sketch.settle_ok {labels : Table InstrId} {sketch : Sketch} {instruction : Instruction} (asked : sketch.labels ≠ [])
    (settled : sketch.settle labels = .ok instruction) :
    ∃ ids, List.Forall₂ (fun label id => labels.get? label = some id) sketch.labels ids ∧
      instruction = patched sketch.instruction ids := by
  rw [settle, if_neg asked] at settled
  cases found : resolve labels sketch.labels with
  | error fault =>
      rw [found] at settled
      cases settled
  | ok ids =>
      rw [found] at settled
      cases settled
      simp only [resolve_eq_mapM, mapM_ok_iff, known_ok_iff] at found
      exact ⟨ids, found, rfl⟩

variable {label : String} {id : InstrId}

theorem get?_insertAll (labels : Table InstrId) (names : List String) :
    (names.foldl (fun labels label => labels.insert label id) labels).get? label =
      if label ∈ names then some id else labels.get? label := by
  induction names generalizing labels with
  | nil => rfl
  | cons name rest ih =>
      rw [List.foldl_cons, ih, Table.get?_insert]
      by_cases later : label ∈ rest
      · simp [later]
      · simp [later, eq_comm]

/-- The table holds the meanings the history gives, and the labels waiting are those it says to wait. -/
structure Named (past : List Entry) (assembler : Assembler) : Prop where
  means : ∀ label id, assembler.labels.get? label = some id ↔ Means past label id
  waits : ∀ label, label ∈ assembler.pending ↔ Waits past label
  apart : ∀ label ∈ assembler.pending, assembler.labels.get? label = none
  once : (introduced past).Nodup

namespace Named

variable (named : Named past before)

include named

theorem isTaken_iff : before.isTaken label = true ↔ label ∈ introduced past := by
  rw [mem_introduced, isTaken, Bool.or_eq_true, Table.contains_eq, Option.isSome_iff_exists, List.contains_iff_mem,
    named.waits]
  simp only [named.means]

theorem fresh (free : before.isTaken label = false) :
    before.labels.get? label = none ∧ label ∉ before.pending ∧ label ∉ introduced past := by
  have absent : label ∉ introduced past := fun member => by
    rw [named.isTaken_iff.mpr member] at free
    cases free
  rw [isTaken, Bool.or_eq_false_iff, Table.contains_eq, Option.isSome_eq_false_iff, Option.isNone_iff_eq_none] at free
  exact ⟨free.1, by simpa using free.2, absent⟩

theorem introduce (entry : Entry) (introduces : entry.label? = some label) (free : before.isTaken label = false) :
    (introduced (past ++ [entry])).Nodup := by
  rw [introduced_concat, introduces, Option.toList_some, ← List.concat_eq_append]
  exact named.once.concat (named.fresh free).2.2

theorem failed (fault : AssemblerFault) (labels : later.labels = before.labels) (pending : later.pending = before.pending) :
    Named (past ++ [⟨step, .error fault⟩]) later := by
  refine ⟨fun label id => ?_, fun label => ?_, ?_, ?_⟩
  · rw [labels, named.means, means_concat]
    simp [Entry.binds, Entry.emission?]
  · rw [pending, named.waits, waits_concat]
    simp [Entry.defines, Entry.emission?]
  · rw [labels, pending]
    exact named.apart
  · rw [introduced_concat]
    simpa [Entry.label?] using named.once

theorem wrote (draft : Draft) (fixups : List Fixup) :
    Named (past ++ [⟨step, .ok (some before.body.nextFresh)⟩]) { before.write draft with fixups := fixups } := by
  refine ⟨fun label id => ?_, fun label => ?_, ?_, ?_⟩
  · simp only [write]
    rw [get?_insertAll, means_concat, ← named.means, ← named.waits]
    -- A label that waits has no meaning yet and now gets the identity; all others keep what they had.
    by_cases waiting : label ∈ before.pending
    · simp [waiting, named.apart label waiting, Entry.binds, Entry.emission?]
    · simp [waiting, Entry.binds]
  · rw [waits_concat]
    simp [write, Entry.defines, Entry.emission?]
  · simp [write]
  · rw [introduced_concat]
    simpa [Entry.label?] using named.once

theorem defined (free : before.isTaken label = false) :
    Named (past ++ [.defines label]) { before with pending := before.pending ++ [label] } := by
  refine ⟨fun other id => ?_, fun other => ?_, ?_, named.introduce _ rfl free⟩
  · rw [named.means, means_concat]
    simp [Entry.defines, Entry.binds, Entry.emission?]
  · rw [waits_concat, ← named.waits]
    simp [Entry.defines, Entry.emission?, or_comm, eq_comm]
  · intro other member
    rcases List.mem_append.mp member with earlier | last
    · exact named.apart other earlier
    · rw [List.mem_singleton.mp last]
      exact (named.fresh free).1

theorem bound (target : InstrId) (free : before.isTaken label = false) :
    Named (past ++ [.binds label target]) { before with labels := before.labels.insert label target } := by
  obtain ⟨unknown, settled, -⟩ := named.fresh free
  refine ⟨fun other id => ?_, fun other => ?_, ?_, named.introduce _ rfl free⟩
  · rw [Table.get?_insert, means_concat, ← named.means]
    by_cases same : label = other
    · subst same
      simp [unknown, Entry.binds, Entry.emission?]
    · simp [same, Entry.binds, Entry.emission?]
  · rw [waits_concat, ← named.waits]
    simp [Entry.defines, Entry.binds, Entry.emission?]
  · intro other member
    have different : label ≠ other := fun same => settled (same ▸ member)
    rw [Table.get?_insert_of_ne different]
    exact named.apart other member

theorem keeps (effect : step.Effect before outcome later) : Named (past ++ [⟨step, outcome⟩]) later := by
  cases effect with
  | refused fault => exact named.failed fault rfl rfl
  | wasted fault => exact named.failed fault rfl rfl
  | wrote sketched => exact named.wrote _ _
  | defined same free =>
      rw [same]
      exact named.defined free
  | bound same free =>
      rw [same]
      exact named.bound _ free

end Named

/-- A sketch filled in by what labels mean is what the step asks for. -/
theorem Step.Sketches.yields {labels : Table InstrId} {means : String → InstrId → Prop} {sketch : Sketch}
    {instruction : Instruction} (known : ∀ label id, labels.get? label = some id → means label id)
    (sketched : step.Sketches id sketch) (settled : sketch.settle labels = .ok instruction) :
    instruction.id = id ∧ step.Yields means instruction := by
  cases sketched with
  | emit =>
      cases settled
      exact ⟨rfl, rfl, rfl⟩
  | emitNamed named =>
      cases settled
      exact ⟨rfl, named, rfl⟩
  | branch named branches =>
      obtain ⟨ids, found, rfl⟩ := Sketch.settle_ok (List.cons_ne_nil _ _) settled
      obtain ⟨target, rest, stands, -, rfl⟩ := List.forall₂_cons_left_iff.mp found
      exact ⟨rfl, named, branches, target, known _ _ stands, rfl⟩
  | switch asked =>
      obtain ⟨ids, found, rfl⟩ := Sketch.settle_ok asked settled
      exact ⟨rfl, rfl, ids, found.imp known, rfl⟩

theorem Drawn.yields {assembler : Assembler} (drawn : Drawn past sketches assembler) (named : Named past assembler)
    {settled : List Instruction} (filled : sketches.mapM (Sketch.settle assembler.labels) = .ok settled) :
    List.Forall₂ (fun emission instruction => instruction.id = emission.2 ∧ emission.1.Yields (Means past) instruction)
      (emissions past) settled := by
  have known (label : String) (id : InstrId) (stands : assembler.labels.get? label = some id) : Means past label id :=
    (named.means label id).mp stands
  have sketched := drawn.sketched
  rw [mapM_ok_iff] at filled
  clear drawn
  generalize emissions past = written at sketched
  induction sketched generalizing settled with
  | nil =>
      cases filled
      exact .nil
  | cons one _ ih =>
      obtain ⟨instruction, rest, first, others, rfl⟩ := List.forall₂_cons_left_iff.mp filled
      exact .cons (one.yields known first) (ih others)

section

variable (body) (steps : List Step)

end

namespace Loop

def host : Body := { Body.empty with instructions := #[⟨5, .nop, .none⟩, ⟨9, .ret, .none⟩] }

/-- A loop with an exit into the body. The first instruction asked for does not fit and uses up an identity while a label
waits; a label is defined again, one branch is none, a switch has no labels and a mnemonic is unknown. -/
def steps : List Step :=
  [.bind "exit" 5, .define "head", .emit .ldloc .none, .emit .ldloc0 .none, .branch "brtrue" "tail", .define "head",
    .branch "nop" "head", .switch ["exit", "head", "tail"], .switch [], .define "tail", .define "end", .emitNamed "nop" .none,
    .branch "br.s" "head", .emitNamed "unknown" .none, .branch "br" "exit"]

def written : List (Step × InstrId) :=
  [(.emit .ldloc0 .none, 11), (.branch "brtrue" "tail", 12), (.switch ["exit", "head", "tail"], 13),
    (.emitNamed "nop" .none, 14), (.branch "br.s" "head", 15), (.branch "br" "exit", 16)]

def code : Array Instruction :=
  #[⟨11, .ldloc0, .none⟩, ⟨12, .brtrue, .target 14⟩, ⟨13, .switch, .switch [5, 11, 14]⟩, ⟨14, .nop, .none⟩,
    ⟨15, .brS, .target 11⟩, ⟨16, .br, .target 5⟩]

end Loop

end CilWeave.Assembler
