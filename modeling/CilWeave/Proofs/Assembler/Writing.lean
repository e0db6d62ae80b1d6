import CilWeave.Assembler
import CilWeave.Proofs.Body.Allocation
import CilWeave.Proofs.Stateful

/-!
Writing code one instruction after the other. The instructions take the identities that the body hands out, in their order.
-/

open CilWeave.Stateful

namespace CilWeave

/-- An instruction that has no identity yet. -/
structure Draft where
  opcode : Opcode
  operand : Operand

def Draft.wellFormed (draft : Draft) : Bool := draft.operand.fits draft.opcode.operandKind

/-- Drafts with identities, one after the other. -/
def numbered (ids : Nat → InstrId) (drafts : List Draft) : List Instruction :=
  drafts.mapIdx fun position draft => ⟨ids position, draft.opcode, draft.operand⟩

@[simp] theorem length_numbered (ids : Nat → InstrId) (drafts : List Draft) :
    (numbered ids drafts).length = drafts.length := List.length_mapIdx

theorem numbered_cons (ids : Nat → InstrId) (draft : Draft) (rest : List Draft) :
    numbered ids (draft :: rest) =
      ⟨ids 0, draft.opcode, draft.operand⟩ :: numbered (fun position => ids (position + 1)) rest := List.mapIdx_cons

theorem numbered_append (ids : Nat → InstrId) (drafts others : List Draft) :
    numbered ids (drafts ++ others) =
      numbered ids drafts ++ numbered (fun position => ids (drafts.length + position)) others := by
  rw [numbered, List.mapIdx_append]
  simp only [numbered, Nat.add_comm drafts.length]

theorem getElem?_numbered (ids : Nat → InstrId) (drafts : List Draft) (position : Nat) :
    (numbered ids drafts)[position]? =
      drafts[position]?.map fun draft => ⟨ids position, draft.opcode, draft.operand⟩ := List.getElem?_mapIdx

theorem ids_numbered (ids : Nat → InstrId) (drafts : List Draft) :
    (numbered ids drafts).map (·.id) = (List.range drafts.length).map ids := by
  refine List.ext_getElem? fun position => ?_
  rw [List.getElem?_map, getElem?_numbered, List.getElem?_map, Option.map_map]
  by_cases within : position < drafts.length
  · simp [within]
  · simp [within]

theorem numbered_congr {ids others : Nat → InstrId} {drafts : List Draft}
    (same : ∀ position < drafts.length, ids position = others position) :
    numbered ids drafts = numbered others drafts := by
  refine List.ext_getElem? fun position => ?_
  rw [getElem?_numbered, getElem?_numbered]
  by_cases within : position < drafts.length
  · rw [same position within]
  · rw [List.getElem?_eq_none (Nat.le_of_not_lt within)]
    rfl

/-- Indices below four have opcodes of their own, those of one byte a short form. -/
def Draft.indexed (own : List Opcode) (short long : Opcode) (operand : UInt16 → Operand) (index : UInt16) : Draft :=
  match own[index.toNat]? with
  | some opcode => ⟨opcode, .none⟩
  | none => ⟨if index ≤ 255 then short else long, operand index⟩

namespace Draft

def loadArgument : UInt16 → Draft := indexed [.ldarg0, .ldarg1, .ldarg2, .ldarg3] .ldargS .ldarg .argument

def loadLocal : UInt16 → Draft := indexed [.ldloc0, .ldloc1, .ldloc2, .ldloc3] .ldlocS .ldloc .local

def storeLocal : UInt16 → Draft := indexed [.stloc0, .stloc1, .stloc2, .stloc3] .stlocS .stloc .local

def loadLocalAddress : UInt16 → Draft := indexed [] .ldlocaS .ldloca .local

end Draft

theorem Draft.wellFormed_indexed {own : List Opcode} {short long : Opcode} {operand : UInt16 → Operand} {index : UInt16}
    (plain : ∀ opcode ∈ own, opcode.operandKind = .none)
    (low : index.toNat ≤ 255 → (operand index).fits short.operandKind = true)
    (high : (operand index).fits long.operandKind = true) :
    (Draft.indexed own short long operand index).wellFormed = true := by
  unfold Draft.indexed
  cases found : own[index.toNat]? with
  | some opcode =>
      have kind := plain opcode (List.mem_of_getElem? found)
      simp [Draft.wellFormed, kind, Operand.fits]
  | none =>
      simp only [Draft.wellFormed]
      split
      · rename_i bounded
        exact low (UInt16.le_iff_toNat_le.mp bounded)
      · exact high

theorem Draft.wellFormed_loadArgument (index : UInt16) : (Draft.loadArgument index).wellFormed = true :=
  wellFormed_indexed (by decide) (fun bounded => decide_eq_true bounded) rfl

theorem Draft.wellFormed_loadLocal (index : UInt16) : (Draft.loadLocal index).wellFormed = true :=
  wellFormed_indexed (by decide) (fun bounded => decide_eq_true bounded) rfl

theorem Draft.wellFormed_storeLocal (index : UInt16) : (Draft.storeLocal index).wellFormed = true :=
  wellFormed_indexed (by decide) (fun bounded => decide_eq_true bounded) rfl

theorem Draft.wellFormed_loadLocalAddress (index : UInt16) : (Draft.loadLocalAddress index).wellFormed = true :=
  wellFormed_indexed (by decide) (fun bounded => decide_eq_true bounded) rfl

namespace Assembler

variable (assembler : Assembler)

/-- The code after one more instruction. -/
def write (assembler : Assembler) (draft : Draft) : Assembler :=
  { assembler with
    body := assembler.body.handOut 1
    code := assembler.code.push ⟨assembler.body.nextFresh, draft.opcode, draft.operand⟩
    labels := assembler.pending.foldl (fun labels label => labels.insert label assembler.body.nextFresh)
      assembler.labels
    pending := [] }

theorem emit_run {draft : Draft} (wellFormed : draft.wellFormed = true) :
    (emit draft.opcode draft.operand).run.run assembler = (.ok assembler.body.nextFresh, assembler.write draft) := by
  have made : Instruction.make assembler.body.nextFresh draft.opcode draft.operand =
      .ok ⟨assembler.body.nextFresh, draft.opcode, draft.operand⟩ := by
    simp only [Instruction.make, show draft.operand.fits draft.opcode.operandKind = true from wellFormed, if_true]
  rw [emit, run_bind]
  simp only [run_modifyGet, Body.allocId_eq, made]
  rfl

/-- An operand that does not fit uses up an identity. -/
theorem emit_run_mismatch {opcode : Opcode} {operand : Operand} (misfit : Draft.wellFormed ⟨opcode, operand⟩ = false) :
    (emit opcode operand).run.run assembler =
      (.error (.operand ⟨opcode, operand⟩), { assembler with body := assembler.body.handOut 1 }) := by
  have made : Instruction.make assembler.body.nextFresh opcode operand = .error ⟨opcode, operand⟩ := by
    simp only [Instruction.make, show operand.fits opcode.operandKind = false from misfit, Bool.false_eq_true, if_false]
  rw [emit, run_bind]
  simp only [run_modifyGet, Body.allocId_eq, made]
  rfl

/-- Without pending labels, drafts are written one after the other. -/
theorem writeAll_eq (drafts : List Draft) (settled : assembler.pending = []) :
    drafts.foldl write assembler =
      { assembler with
        body := assembler.body.handOut drafts.length
        code := assembler.code ++ (numbered assembler.body.upcoming drafts).toArray } := by
  induction drafts generalizing assembler with
  | nil => simp [numbered, Body.handOut]
  | cons draft rest ih =>
      rw [List.foldl_cons, ih (assembler.write draft) rfl]
      have first : numbered assembler.body.upcoming (draft :: rest) =
          ⟨assembler.body.nextFresh, draft.opcode, draft.operand⟩ ::
            numbered (assembler.body.handOut 1).upcoming rest := by
        simp only [numbered_cons, Body.upcoming_zero, Body.upcoming_handOut, Nat.add_comm 1]
      simp only [write, settled, List.foldl_nil, Body.handOut_handOut, List.length_cons, first, Nat.add_comm 1]
      congr 1
      simp

/-- Writing the drafts is all that is done. -/
def Writes {α : Type} (assembly : Assembly α) (drafts : List Draft) : Prop :=
  ∀ assembler, ∃ result, assembly.run.run assembler = (.ok result, drafts.foldl write assembler)

variable {α β : Type}

theorem Writes.bind {assembly : Assembly α} {next : α → Assembly β} {drafts others : List Draft}
    (first : Writes assembly drafts) (rest : ∀ result, Writes (next result) others) :
    Writes (assembly >>= next) (drafts ++ others) := by
  intro assembler
  obtain ⟨result, ran⟩ := first assembler
  obtain ⟨last, finished⟩ := rest result (drafts.foldl write assembler)
  exact ⟨last, by rw [run_bind, ran, List.foldl_append]; exact finished⟩

theorem writes_pure (result : α) : Writes (pure result) [] := fun _ => ⟨result, rfl⟩

theorem writes_emit (draft : Draft) (wellFormed : draft.wellFormed = true) :
    Writes (emit draft.opcode draft.operand) [draft] :=
  fun assembler => ⟨_, emit_run assembler wellFormed⟩

theorem writes_indexed {own : List Opcode} {short long : Opcode} {operand : UInt16 → Operand} {index : UInt16}
    (wellFormed : (Draft.indexed own short long operand index).wellFormed = true) :
    Writes (indexed own short long operand index) [Draft.indexed own short long operand index] := by
  cases found : own[index.toNat]? with
  | some opcode =>
      simp only [Draft.indexed, found] at wellFormed
      simp only [indexed, Draft.indexed, found]
      exact writes_emit _ wellFormed
  | none =>
      simp only [Draft.indexed, found] at wellFormed
      simp only [indexed, Draft.indexed, found]
      exact writes_emit _ wellFormed

theorem writes_loadArgument (index : UInt16) : Writes (loadArgument index) [.loadArgument index] :=
  writes_indexed (Draft.wellFormed_loadArgument index)

theorem writes_loadLocal (index : UInt16) : Writes (loadLocal index) [.loadLocal index] :=
  writes_indexed (Draft.wellFormed_loadLocal index)

theorem writes_storeLocal (index : UInt16) : Writes (storeLocal index) [.storeLocal index] :=
  writes_indexed (Draft.wellFormed_storeLocal index)

theorem writes_loadLocalAddress (index : UInt16) : Writes (loadLocalAddress index) [.loadLocalAddress index] :=
  writes_indexed (Draft.wellFormed_loadLocalAddress index)

/-- An instruction is written without its targets, which are noted to be filled in. -/
theorem emit_noted_run {draft : Draft} (labels : List String) (wellFormed : draft.wellFormed = true) :
    (do
      let id ← emit draft.opcode draft.operand
      addFixup labels
      return id : Assembly InstrId).run.run assembler =
      (.ok assembler.body.nextFresh,
        { assembler.write draft with fixups := assembler.fixups ++ [⟨assembler.code.size, labels⟩] }) := by
  rw [run_bind, emit_run assembler wellFormed]
  simp only [run_bind]
  show (Except.ok _, _) = _
  simp [write]

theorem emitBranch_run {mnemonic : String} {branch : Opcode} (label : String)
    (named : Opcode.ofMnemonic? mnemonic = some branch) (branches : branch.isBranch = true)
    (wellFormed : Draft.wellFormed ⟨branch, .target unresolved⟩ = true) :
    (emitBranch mnemonic label).run.run assembler =
      (.ok assembler.body.nextFresh,
        { assembler.write ⟨branch, .target unresolved⟩ with
          fixups := assembler.fixups ++ [⟨assembler.code.size, [label]⟩] }) := by
  simp only [emitBranch, opcode, named, pure_bind, branches, if_true]
  exact emit_noted_run assembler [label] wellFormed

theorem define_run {label : String} (free : assembler.isTaken label = false) :
    (define label).run.run assembler = (.ok (), { assembler with pending := assembler.pending ++ [label] }) := by
  rw [define, run_get_bind, free]
  rfl

theorem bindLabel_run {label : String} (target : InstrId) (free : assembler.isTaken label = false) :
    (bindLabel label target).run.run assembler =
      (.ok (), { assembler with labels := assembler.labels.insert label target }) := by
  rw [bindLabel, run_get_bind, free]
  rfl

theorem modify_middle {α : Type} (before after : List α) (item : α) (change : α → α) :
    (before ++ item :: after).toArray.modify before.length change = (before ++ change item :: after).toArray := by
  rw [List.modify_toArray]
  congr 1
  induction before with
  | nil => rfl
  | cons head rest ih => simpa using ih

/-- Filling in the target of a branch that was written without one. -/
theorem patched_numbered (ids : Nat → InstrId) (before after : List Draft) (branch : Opcode) (target : InstrId) :
    (numbered ids (before ++ ⟨branch, .target unresolved⟩ :: after)).toArray.modify before.length
        (fun instruction => patched instruction [target]) =
      (numbered ids (before ++ ⟨branch, .target target⟩ :: after)).toArray := by
  rw [numbered_append, numbered_append, numbered_cons, numbered_cons, ← length_numbered ids before]
  exact modify_middle _ _ _ _

/-- Code that has no labels yet. -/
def written (body : Body) (drafts : List Draft) (fixups : List Fixup) : Assembler :=
  ⟨body.handOut drafts.length, (numbered body.upcoming drafts).toArray, .empty, [], fixups⟩

theorem writeAll_written (body : Body) (drafts others : List Draft) (fixups : List Fixup) :
    others.foldl write (written body drafts fixups) = written body (drafts ++ others) fixups := by
  rw [writeAll_eq _ _ rfl]
  simp [written, Body.handOut_handOut, Body.upcoming_handOut, numbered_append]

/-- A pending label comes to stand for the instruction written next. -/
theorem write_labelled (body : Body) (drafts : List Draft) (fixups : List Fixup) (label : String) (draft : Draft) :
    ({ written body drafts fixups with pending := [label] } : Assembler).write draft =
      { written body (drafts ++ [draft]) fixups with
        labels := Table.empty.insert label (body.upcoming drafts.length) } := by
  have added := writeAll_written body drafts [draft] fixups
  simp only [List.foldl_cons, List.foldl_nil, write, written, Assembler.mk.injEq] at added
  simp only [write, written, added, List.foldl_cons, List.foldl_nil, Body.upcoming]

/-- Code with one branch to a label that stands for the given identity. -/
theorem finish_eq (body : Body) (before after : List Draft) (branch : Opcode) (label : String) (target : InstrId) :
    finish ⟨body.handOut (before ++ ⟨branch, .target unresolved⟩ :: after).length,
        (numbered body.upcoming (before ++ ⟨branch, .target unresolved⟩ :: after)).toArray,
        Table.empty.insert label target, [], [⟨before.length, [label]⟩]⟩ =
      .ok (numbered body.upcoming (before ++ ⟨branch, .target target⟩ :: after)).toArray := by
  simp only [finish, patchAll, resolve, Table.get?_insert_self, Except.map, bind, Except.bind, patched_numbered]

end Assembler

end CilWeave
