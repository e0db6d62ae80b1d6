import CilWeave.Machine.Run

/-!
Runs with the states they go through. A deterministic machine that is matched, step by step, by stretches
of another one's run ends as that run does.
-/

namespace CilWeave.Machine

section Machines

variable {σ τ ρ θ : Type} {go : σ → σ ⊕ ρ}

/-- The states gone through on the way to a state, which is not among them. -/
inductive Passes (go : σ → σ ⊕ ρ) : σ → List σ → σ → Prop
  | here (state : σ) : Passes go state [] state
  | on {state next last : σ} {history : List σ} : go state = .inl next → Passes go next history last →
      Passes go state (state :: history) last

/-- The states gone through until the end. -/
inductive Ends (go : σ → σ ⊕ ρ) : σ → List σ → ρ → Prop
  | now {state : σ} {result : ρ} : go state = .inr result → Ends go state [state] result
  | on {state next : σ} {history : List σ} {result : ρ} : go state = .inl next → Ends go next history result →
      Ends go state (state :: history) result

variable {state next last : σ} {history others : List σ} {result : ρ}

theorem Passes.one (moved : go state = .inl next) : Passes go state [state] next := .on moved (.here next)

theorem Passes.trans (first : Passes go state history next) (second : Passes go next others last) :
    Passes go state (history ++ others) last := by
  induction first with
  | here => exact second
  | on moved _ ih => exact .on moved (ih second)

theorem Passes.ends (first : Passes go state history next) (ended : Ends go next others result) :
    Ends go state (history ++ others) result := by
  induction first with
  | here => exact ended
  | on moved _ ih => exact .on moved (ih ended)

/-- A run that ends goes on from each state that is passed on its way. -/
theorem Passes.rest (first : Passes go state history next) (ended : Ends go state others result) :
    ∃ rest, others = history ++ rest ∧ Ends go next rest result := by
  induction first generalizing others with
  | here => exact ⟨others, rfl, ended⟩
  | on moved _ ih =>
      cases ended with
      | now stopped =>
          rw [moved] at stopped
          cases stopped
      | on same ended =>
          rw [moved] at same
          cases same
          obtain ⟨rest, rfl, later⟩ := ih ended
          exact ⟨rest, rfl, later⟩

theorem Ends.deterministic {other : ρ} (first : Ends go state history result) (second : Ends go state others other) :
    history = others ∧ result = other := by
  induction first generalizing others with
  | now stopped =>
      cases second with
      | now again =>
          rw [stopped] at again
          cases again
          exact ⟨rfl, rfl⟩
      | on moved _ =>
          rw [stopped] at moved
          cases moved
  | on moved _ ih =>
      cases second with
      | now stopped =>
          rw [moved] at stopped
          cases stopped
      | on again later =>
          rw [moved] at again
          cases again
          obtain ⟨rfl, rfl⟩ := ih later
          exact ⟨rfl, rfl⟩

variable {β : Type} {reference : τ → τ ⊕ θ} {related : τ → σ → Prop} {agree : θ → ρ → Prop}
    {view : τ → List β}
  {seen : σ → List β}

/-- What a step of the reference machine is matched by. -/
def Matched (go : σ → σ ⊕ ρ) (related : τ → σ → Prop) (agree : θ → ρ → Prop) (shown : List β)
    (seen : σ → List β)
    (state : σ) : τ ⊕ θ → Prop
  | .inl next => ∃ history after, Passes go state history after ∧ history ≠ [] ∧ history.flatMap seen = shown ∧
      related next after
  | .inr ended => ∃ history result, Ends go state history result ∧ history.flatMap seen = shown ∧ agree ended result

/-- A stretch that is not seen may come first. -/
theorem Matched.after {shown : List β} {outcome : τ ⊕ θ} (passes : Passes go state history next)
    (hidden : history.flatMap seen = []) (matched : Matched go related agree shown seen next outcome) :
    Matched go related agree shown seen state outcome := by
  cases outcome with
  | inl left =>
      obtain ⟨others, after, later, some, same, again⟩ := matched
      refine ⟨history ++ others, after, passes.trans later, by simp [some], ?_, again⟩
      rw [List.flatMap_append, hidden, same, List.nil_append]
  | inr ended =>
      obtain ⟨others, result, stopped, same, agrees⟩ := matched
      refine ⟨history ++ others, result, passes.ends stopped, ?_, agrees⟩
      rw [List.flatMap_append, hidden, same, List.nil_append]

/-- If every step of the reference machine is matched, it ends as the other one does, and shows the
same. -/
theorem Ends.reflected
    (matched : ∀ left right, related left right → Matched go related agree (view left) seen right (reference left))
    {left : τ} (starts : related left state) (ended : Ends go state history result) :
    ∃ steps final, Ends reference left steps final ∧ agree final result ∧ steps.flatMap view = history.flatMap seen := by
  generalize length : history.length = count
  induction count using Nat.strongRecOn generalizing left state history with
  | ind count ih =>
      have step := matched left state starts
      cases moved : reference left with
      | inl next =>
          rw [moved] at step
          obtain ⟨passed, after, passes, some, shown, again⟩ := step
          obtain ⟨rest, rfl, later⟩ := passes.rest ended
          have positive := List.length_pos_iff.mpr some
          rw [List.length_append] at length
          obtain ⟨steps, final, ran, agrees, same⟩ := ih rest.length (by omega) again later rfl
          refine ⟨left :: steps, final, .on moved ran, agrees, ?_⟩
          rw [List.flatMap_cons, List.flatMap_append, same, shown]
      | inr final =>
          rw [moved] at step
          obtain ⟨others, value, stopped, shown, agrees⟩ := step
          obtain ⟨rfl, rfl⟩ := stopped.deterministic ended
          exact ⟨[left], final, .now moved, agrees, by simpa using shown.symm⟩

end Machines

/-- What a run comes to: its result, and what it leaves behind. -/
abbrev Ending := Except Fault Value × Store

def Outcome.progress : Outcome → State ⊕ Ending
  | .running next => .inl next
  | .finished value store => .inr (.ok value, store)
  | .failed fault store => .inr (.error fault, store)

/-- A step of a run. -/
def go (program : Program) (limits : Limits) (state : State) : State ⊕ Ending := (step program limits state).progress

/-- What an executed instruction leads to. -/
def conclude (limits : Limits) : Except Fault Control × State → State ⊕ Ending
  | (.error fault, after) => .inr (.error fault, after.store)
  | (.ok control, after) => (after.follow limits control).progress

/-- A step that is not subject to the limit on the number of instructions. -/
def goUnlimited (program : Program) (limits : Limits) (state : State) : State ⊕ Ending :=
  match state.active.instruction? with
  | none => .inr (.error .endOfBody, state.store)
  | some instruction => conclude limits ((execute program instruction).run.run state.count)

variable {program : Program} {limits : Limits} {state : State} {history : List State} {ending : Ending}

theorem go_eq (program : Program) (limits : Limits) (state : State) :
    go program limits state = goUnlimited program limits state ∨
      ∃ store, go program limits state = .inr (.error (.instructionLimit limits.maxInstructions), store) := by
  unfold go step goUnlimited
  cases state.active.instruction? with
  | none => exact .inl rfl
  | some instruction =>
      dsimp only
      split
      · exact .inr ⟨_, rfl⟩
      · rcases (execute program instruction).run.run state.count with ⟨_ | control, after⟩ <;> exact .inl rfl

/-- A run that does not end at the limit is not subject to it. -/
theorem Ends.unlimited (ended : Ends (go program limits) state history ending)
    (within : ending.1 ≠ .error (.instructionLimit limits.maxInstructions)) :
    Ends (goUnlimited program limits) state history ending := by
  induction ended with
  | now stopped =>
      rename_i state ending
      rcases go_eq program limits state with same | ⟨store, limit⟩
      · exact .now (same.symm.trans stopped)
      · rw [limit] at stopped
        cases stopped
        exact absurd rfl within
  | on moved _ ih =>
      rename_i state next history ending _
      rcases go_eq program limits state with same | ⟨store, limit⟩
      · exact .on (same.symm.trans moved) (ih within)
      · rw [limit] at moved
        cases moved

theorem run_ends {steps : Nat} (ran : run program limits steps state = ending)
    (within : ending.1 ≠ .error (.instructionLimit limits.maxInstructions)) :
    ∃ history, Ends (go program limits) state history ending := by
  induction steps generalizing state with
  | zero =>
      rw [← ran] at within
      exact absurd rfl within
  | succ steps ih =>
      unfold run at ran
      cases stepped : step program limits state with
      | running next =>
          rw [stepped] at ran
          obtain ⟨history, ended⟩ := ih ran
          exact ⟨state :: history, .on (by rw [go, stepped]; rfl) ended⟩
      | finished value store =>
          rw [stepped] at ran
          subst ran
          exact ⟨[state], .now (by rw [go, stepped]; rfl)⟩
      | failed fault store =>
          rw [stepped] at ran
          subst ran
          exact ⟨[state], .now (by rw [go, stepped]; rfl)⟩

end CilWeave.Machine
