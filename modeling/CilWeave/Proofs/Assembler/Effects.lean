import CilWeave.Proofs.Assembler.History

/-!
What one step of writing code can do, failures included, and how what each effect keeps holds after any
steps.
-/

open CilWeave.Stateful

namespace CilWeave.Assembler

/-- An instruction whose labels are not filled in. -/
structure Sketch where
  instruction : Instruction
  labels : List String

/-- What a step writes with an identity, if it gets as far as writing. -/
inductive Step.Sketches (id : InstrId) : Step → Sketch → Prop
  | emit {opcode : Opcode} {operand : Operand} : Sketches id (.emit opcode operand) ⟨⟨id, opcode, operand⟩, []⟩
  | emitNamed {mnemonic : String} {opcode : Opcode} {operand : Operand}
      (named : Opcode.ofMnemonic? mnemonic = some opcode) :
      Sketches id (.emitNamed mnemonic operand) ⟨⟨id, opcode, operand⟩, []⟩
  | branch {mnemonic label : String} {opcode : Opcode} (named : Opcode.ofMnemonic? mnemonic = some opcode)
      (branches : opcode.isBranch = true) :
      Sketches id (.branch mnemonic label) ⟨⟨id, opcode, .target unresolved⟩, [label]⟩
  | switch {labels : List String} (asked : labels ≠ []) :
      Sketches id (.switch labels) ⟨⟨id, .switch, .switch (labels.map fun _ => unresolved)⟩, labels⟩

theorem Step.Sketches.id_eq {id : InstrId} {step : Step} {sketch : Sketch} (sketched : step.Sketches id sketch) :
    sketch.instruction.id = id := by
  cases sketched <;> rfl

/-- What is noted to be filled in when the sketch is written at a position. -/
def Sketch.fixups (sketch : Sketch) (position : Nat) : List Fixup :=
  if sketch.labels = [] then [] else [⟨position, sketch.labels⟩]

/-- Everything a step can do. A failure may use up an identity. -/
inductive Step.Effect (step : Step) (before : Assembler) : Outcome → Assembler → Prop
  | refused (fault : AssemblerFault) : Effect step before (.error fault) before
  | wasted (fault : AssemblerFault) : Effect step before (.error fault) { before with body := before.body.handOut 1 }
  | wrote {sketch : Sketch} (sketched : step.Sketches before.body.nextFresh sketch) :
      Effect step before (.ok (some before.body.nextFresh))
        { before.write ⟨sketch.instruction.opcode, sketch.instruction.operand⟩ with
          fixups := before.fixups ++ sketch.fixups before.code.size }
  | defined {label : String} (same : step = .define label) (free : before.isTaken label = false) :
      Effect step before (.ok none) { before with pending := before.pending ++ [label] }
  | bound {label : String} {target : InstrId} (same : step = .bind label target) (free : before.isTaken label = false) :
      Effect step before (.ok none) { before with labels := before.labels.insert label target }

section

variable (assembler : Assembler)

section

variable {step : Step} {opcode : Opcode} {operand : Operand}

theorem effect_emit
    (sketched : step.Sketches assembler.body.nextFresh ⟨⟨assembler.body.nextFresh, opcode, operand⟩, []⟩) :
    step.Effect assembler ((some <$> emit opcode operand).run.run assembler).1
      ((some <$> emit opcode operand).run.run assembler).2 := by
  rw [run_map]
  cases fits : Draft.wellFormed ⟨opcode, operand⟩ with
  | false =>
      rw [emit_run_mismatch assembler fits]
      exact .wasted _
  | true =>
      rw [emit_run assembler fits]
      simpa [Sketch.fixups, write] using Step.Effect.wrote sketched

theorem effect_noted {labels : List String} (asked : labels ≠ [])
    (sketched : step.Sketches assembler.body.nextFresh ⟨⟨assembler.body.nextFresh, opcode, operand⟩, labels⟩)
    {writes : Assembly InstrId}
    (acts : writes = do
      let id ← emit opcode operand
      addFixup labels
      return id) :
    step.Effect assembler ((some <$> writes).run.run assembler).1 ((some <$> writes).run.run assembler).2 := by
  rw [run_map, acts]
  cases fits : Draft.wellFormed ⟨opcode, operand⟩ with
  | false =>
      rw [run_bind, emit_run_mismatch assembler fits]
      exact .wasted _
  | true =>
      rw [emit_noted_run assembler labels fits]
      simpa [Sketch.fixups, asked] using Step.Effect.wrote sketched

end

/-- A mnemonic that is unknown is refused before an identity is used up. -/
theorem unknown_run {mnemonic : String} (unknown : Opcode.ofMnemonic? mnemonic = none) (next : Opcode → Assembly InstrId) :
    (opcode mnemonic >>= next).run.run assembler = (.error (.unknownMnemonic mnemonic), assembler) := by
  rw [opcode, unknown, run_bind, run_throw]

theorem effect_emitNamed (mnemonic : String) (operand : Operand) :
    (Step.emitNamed mnemonic operand).Effect assembler ((some <$> emitNamed mnemonic operand).run.run assembler).1
      ((some <$> emitNamed mnemonic operand).run.run assembler).2 := by
  cases named : Opcode.ofMnemonic? mnemonic with
  | none =>
      rw [run_map, emitNamed, unknown_run assembler named]
      exact .refused _
  | some opcode =>
      have writes : emitNamed mnemonic operand = emit opcode operand := by
        simp only [emitNamed, Assembler.opcode, named, pure_bind]
      rw [writes]
      exact effect_emit assembler (.emitNamed named)

theorem effect_branch (mnemonic label : String) :
    (Step.branch mnemonic label).Effect assembler ((some <$> emitBranch mnemonic label).run.run assembler).1
      ((some <$> emitBranch mnemonic label).run.run assembler).2 := by
  cases named : Opcode.ofMnemonic? mnemonic with
  | none =>
      rw [run_map, emitBranch, unknown_run assembler named]
      exact .refused _
  | some opcode =>
      have asks : emitBranch mnemonic label = if opcode.isBranch then (do
          let id ← emit opcode (.target unresolved)
          addFixup [label]
          return id) else throw (.notABranch mnemonic) := by
        simp only [emitBranch, Assembler.opcode, named, pure_bind]
      cases branches : opcode.isBranch with
      | false =>
          rw [run_map, asks, branches, if_neg Bool.false_ne_true, run_throw]
          exact .refused _
      | true =>
          rw [branches, if_pos rfl] at asks
          exact effect_noted assembler (List.cons_ne_nil _ _) (.branch named branches) asks

theorem effect_switch (labels : List String) :
    (Step.switch labels).Effect assembler ((some <$> emitSwitch labels).run.run assembler).1
      ((some <$> emitSwitch labels).run.run assembler).2 := by
  by_cases none : labels = []
  · rw [run_map, emitSwitch, none, List.isEmpty_nil, if_pos rfl, run_throw]
    exact .refused _
  · refine effect_noted assembler none (.switch none) ?_
    rw [emitSwitch, if_neg (by simpa using none)]

/-- Each step does one of the things that a step can do. -/
theorem effect (step : Step) : step.Effect assembler (step.act.run.run assembler).1 (step.act.run.run assembler).2 := by
  cases step with
  | emit opcode operand => exact effect_emit assembler .emit
  | emitNamed mnemonic operand => exact effect_emitNamed assembler mnemonic operand
  | branch mnemonic label => exact effect_branch assembler mnemonic label
  | switch labels => exact effect_switch assembler labels
  | define label =>
      rw [Step.act, run_map]
      cases taken : assembler.isTaken label with
      | true =>
          rw [define, run_get_bind, taken]
          exact .refused _
      | false =>
          rw [define_run assembler taken]
          exact .defined rfl taken
  | bind label target =>
      rw [Step.act, run_map]
      cases taken : assembler.isTaken label with
      | true =>
          rw [bindLabel, run_get_bind, taken]
          exact .refused _
      | false =>
          rw [bindLabel_run assembler target taken]
          exact .bound rfl taken

end

end CilWeave.Assembler
