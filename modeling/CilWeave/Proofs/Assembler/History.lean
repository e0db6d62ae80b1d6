import Mathlib.Data.List.Infix
import CilWeave.Proofs.Assembler.Writing

/-!
Histories of writing code: the steps taken, each with what came of it. What a label stands for is said
of the history alone.
-/

open CilWeave.Stateful

namespace CilWeave.Assembler

/-- One thing to do while code is written. -/
inductive Step where
  | emit (opcode : Opcode) (operand : Operand)
  | emitNamed (mnemonic : String) (operand : Operand)
  | branch (mnemonic label : String)
  | switch (labels : List String)
  | define (label : String)
  | bind (label : String) (target : InstrId)

/-- Taking a step gives the identity of the instruction it writes, if it is to write one. -/
def Step.act : Step → Assembly (Option InstrId)
  | .emit opcode operand => some <$> Assembler.emit opcode operand
  | .emitNamed mnemonic operand => some <$> Assembler.emitNamed mnemonic operand
  | .branch mnemonic label => some <$> emitBranch mnemonic label
  | .switch labels => some <$> emitSwitch labels
  | .define label => (fun _ => none) <$> Assembler.define label
  | .bind label target => (fun _ => none) <$> bindLabel label target

/-- What comes of a step. -/
abbrev Outcome := Except AssemblerFault (Option InstrId)

structure Entry where
  step : Step
  outcome : Outcome

/-- The code after all steps; one that fails does not end them. -/
def after (assembler : Assembler) : List Step → Assembler
  | [] => assembler
  | step :: rest => after (step.act.run.run assembler).2 rest

def history (assembler : Assembler) : List Step → List Entry
  | [] => []
  | step :: rest => ⟨step, (step.act.run.run assembler).1⟩ :: history (step.act.run.run assembler).2 rest

/-- The finished code of all steps. -/
def assemble (body : Body) (steps : List Step) : Except AssemblerFault (Array Instruction) := ((start body).after steps).finish

namespace Entry

def defines (label : String) : Entry := ⟨.define label, .ok none⟩

def binds (label : String) (target : InstrId) : Entry := ⟨.bind label target, .ok none⟩

/-- The step that wrote an instruction, and the identity of the instruction. -/
def emission? : Entry → Option (Step × InstrId)
  | ⟨step, .ok (some id)⟩ => some (step, id)
  | _ => none

/-- The label that was introduced. -/
def label? : Entry → Option String
  | ⟨.define label, .ok none⟩ | ⟨.bind label _, .ok none⟩ => some label
  | _ => none

end Entry

/-- The instructions written, in order. -/
def emissions (past : List Entry) : List (Step × InstrId) := past.filterMap Entry.emission?

/-- The labels introduced, in order. -/
def introduced (past : List Entry) : List String := past.filterMap Entry.label?

/-- The labels that a step names as targets. -/
def Step.references : Step → List String
  | .branch _ label => [label]
  | .switch labels => labels
  | _ => []

/-- A label stands for what it was bound to, or for the first instruction written after its definition. -/
inductive Means (past : List Entry) (label : String) : InstrId → Prop
  | bound {target : InstrId} (binds : .binds label target ∈ past) : Means past label target
  | defined {later : List Entry} {step : Step} {id : InstrId} {rest : List (Step × InstrId)}
      (defines : .defines label :: later <:+ past) (first : emissions later = (step, id) :: rest) : Means past label id

/-- Nothing was written after the definition of the label. -/
def Waits (past : List Entry) (label : String) : Prop :=
  ∃ later, .defines label :: later <:+ past ∧ emissions later = []

/-- The instruction that a step asks for, by what labels mean. -/
def Step.Yields (means : String → InstrId → Prop) : Step → Instruction → Prop
  | .emit opcode operand, instruction => instruction.opcode = opcode ∧ instruction.operand = operand
  | .emitNamed mnemonic operand, instruction =>
    Opcode.ofMnemonic? mnemonic = some instruction.opcode ∧ instruction.operand = operand
  | .branch mnemonic label, instruction =>
    Opcode.ofMnemonic? mnemonic = some instruction.opcode ∧ instruction.opcode.isBranch = true ∧
      ∃ target, means label target ∧ instruction.operand = .target target
  | .switch labels, instruction =>
    instruction.opcode = .switch ∧ ∃ targets, List.Forall₂ means labels targets ∧ instruction.operand = .switch targets
  | .define _, _ | .bind _ _, _ => False

variable {past : List Entry} {entry : Entry} {label : String} {id : InstrId}

theorem cons_suffix_concat {first last : Entry} {later : List Entry} :
    first :: later <:+ past ++ [last] ↔
      (first = last ∧ later = []) ∨ ∃ before, later = before ++ [last] ∧ first :: before <:+ past := by
  rw [List.suffix_concat_iff]
  constructor
  · rintro (impossible | ⟨whole, split, within⟩)
    · cases impossible
    · rcases List.append_eq_cons_iff.mp split.symm with ⟨rfl, single⟩ | ⟨before, rfl, rest⟩
      · cases single
        exact .inl ⟨rfl, rfl⟩
      · exact .inr ⟨before, rest, within⟩
  · rintro (⟨rfl, rfl⟩ | ⟨before, rfl, within⟩)
    · exact .inr ⟨[], rfl, List.nil_suffix⟩
    · exact .inr ⟨first :: before, rfl, within⟩

theorem emissions_concat : emissions (past ++ [entry]) = emissions past ++ entry.emission?.toList := by
  rw [emissions, List.filterMap_append, ← emissions]
  cases held : entry.emission? <;> simp [held]

theorem emissions_quiet (quiet : entry.emission? = none) : emissions (past ++ [entry]) = emissions past := by
  rw [emissions_concat, quiet, Option.toList_none, List.append_nil]

theorem introduced_concat : introduced (past ++ [entry]) = introduced past ++ entry.label?.toList := by
  rw [introduced, List.filterMap_append, ← introduced]
  cases held : entry.label? <;> simp [held]

/-- One more entry binds a label or writes the instruction that a label waits for. -/
theorem means_concat :
    Means (past ++ [entry]) label id ↔
      Means past label id ∨ entry = .binds label id ∨
        (Waits past label ∧ ∃ step, entry.emission? = some (step, id)) := by
  constructor
  · rintro (binds | ⟨defines, first⟩)
    · rcases List.mem_append.mp binds with earlier | last
      · exact .inl (.bound earlier)
      · exact .inr (.inl (List.mem_singleton.mp last).symm)
    · rcases cons_suffix_concat.mp defines with ⟨-, rfl⟩ | ⟨before, rfl, within⟩
      · cases first
      · rw [emissions_concat] at first
        cases written : emissions before with
        | nil =>
            -- Nothing was written since the definition, so the last entry wrote what the label stands for.
            rw [written, List.nil_append] at first
            cases last : entry.emission? with
            | none =>
                rw [last] at first
                cases first
            | some emission =>
                rw [last] at first
                cases first
                exact .inr (.inr ⟨⟨before, within, written⟩, _, rfl⟩)
        | cons head others =>
            rw [written] at first
            cases first
            exact .inl (.defined within written)
  · rintro ((binds | @⟨later, step, _, rest, defines, first⟩) | rfl | ⟨⟨later, defines, none⟩, step, last⟩)
    · exact .bound (List.mem_append_left _ binds)
    · have written : emissions (later ++ [entry]) = (step, id) :: (rest ++ entry.emission?.toList) := by
        rw [emissions_concat, first, List.cons_append]
      exact .defined (cons_suffix_concat.mpr (.inr ⟨_, rfl, defines⟩)) written
    · exact .bound List.mem_concat_self
    · have written : emissions (later ++ [entry]) = [(step, id)] := by
        rw [emissions_concat, none, last]
        rfl
      exact .defined (cons_suffix_concat.mpr (.inr ⟨_, rfl, defines⟩)) written

theorem waits_concat :
    Waits (past ++ [entry]) label ↔ entry = .defines label ∨ (Waits past label ∧ entry.emission? = none) := by
  constructor
  · rintro ⟨later, defines, none⟩
    rcases cons_suffix_concat.mp defines with ⟨rfl, -⟩ | ⟨before, rfl, within⟩
    · exact .inl rfl
    · rw [emissions_concat, List.append_eq_nil_iff, Option.toList_eq_nil_iff] at none
      exact .inr ⟨⟨before, within, none.1⟩, none.2⟩
  · rintro (rfl | ⟨⟨later, defines, none⟩, last⟩)
    · exact ⟨[], cons_suffix_concat.mpr (.inl ⟨rfl, rfl⟩), rfl⟩
    · refine ⟨_, cons_suffix_concat.mpr (.inr ⟨later, rfl, defines⟩), ?_⟩
      rw [emissions_concat, none, last]
      rfl

/-- A label that was introduced has a meaning or waits for one. -/
theorem mem_introduced : label ∈ introduced past ↔ (∃ id, Means past label id) ∨ Waits past label := by
  have listed : label ∈ introduced past ↔ .defines label ∈ past ∨ ∃ target, .binds label target ∈ past := by
    rw [introduced, List.mem_filterMap]
    constructor
    · rintro ⟨⟨step, outcome⟩, member, found⟩
      unfold Entry.label? at found
      split at found
      · cases found
        rename_i same
        cases same
        exact .inl member
      · cases found
        rename_i same
        cases same
        exact .inr ⟨_, member⟩
      · cases found
    · rintro (member | ⟨target, member⟩)
      · exact ⟨_, member, rfl⟩
      · exact ⟨_, member, rfl⟩
  rw [listed]
  constructor
  · rintro (defines | ⟨target, binds⟩)
    · obtain ⟨before, later, rfl⟩ := List.append_of_mem defines
      have within : .defines label :: later <:+ before ++ .defines label :: later := List.suffix_append _ _
      cases written : emissions later with
      | nil => exact .inr ⟨later, within, written⟩
      | cons first rest => exact .inl ⟨first.2, .defined within written⟩
    · exact .inl ⟨target, .bound binds⟩
  · rintro (⟨id, binds | ⟨defines, -⟩⟩ | ⟨later, defines, -⟩)
    · exact .inr ⟨_, binds⟩
    · exact .inl (defines.subset List.mem_cons_self)
    · exact .inl (defines.subset List.mem_cons_self)

end CilWeave.Assembler
