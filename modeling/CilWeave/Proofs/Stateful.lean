import Mathlib.Data.List.Forall2

/-!
Computations that may fail, and those that also change a state.
-/

namespace CilWeave.Stateful

variable {ε σ α β : Type}

theorem bind_ok {first : Except ε α} {next : α → Except ε β} {result : β} (ran : (first >>= next) = .ok result) :
    ∃ value, first = .ok value ∧ next value = .ok result := by
  cases first with
  | error fault => cases ran
  | ok value => exact ⟨value, rfl, ran⟩

theorem check_ok {condition : Prop} [Decidable condition] {fault : ε} {rest : PUnit → Except ε α} {result : α}
    (passed : (if condition then throw fault >>= rest else rest ⟨⟩) = .ok result) :
    ¬condition ∧ rest ⟨⟩ = .ok result := by
  split at passed
  · cases passed
  · rename_i holds
    exact ⟨holds, passed⟩

theorem ok_of_isOk {result : Except ε α} (fallback : α) (succeeds : result.isOk = true) :
    result = .ok (result.toOption.getD fallback) := by
  cases result with
  | error fault => cases succeeds
  | ok value => rfl

theorem eq_of_isOk (outcome : Except ε α × σ) (fallback : α) (succeeds : outcome.1.isOk = true) :
    outcome = (.ok (outcome.1.toOption.getD fallback), outcome.2) := by
  obtain ⟨result, after⟩ := outcome
  exact congrArg (·, after) (ok_of_isOk fallback succeeds)

theorem ok_of_toOption {result : Except ε α} {value : α} (succeeds : result.toOption = some value) : result = .ok value := by
  cases result with
  | error fault => cases succeeds
  | ok found => exact congrArg Except.ok (Option.some.inj succeeds)

/-- All checks pass exactly if each of them does. -/
theorem forM_ok_iff {check : α → Except ε Unit} {items : List α} :
    items.forM check = .ok () ↔ ∀ item ∈ items, check item = .ok () := by
  induction items with
  | nil => exact iff_of_true rfl (by simp)
  | cons item rest ih =>
      rw [List.forall_mem_cons, ← ih]
      constructor
      · intro checked
        obtain ⟨⟨⟩, first, others⟩ := bind_ok checked
        exact ⟨first, others⟩
      · rintro ⟨first, others⟩
        change (check item >>= fun _ => rest.forM check) = .ok ()
        rw [first]
        exact others

/-- All computations succeed exactly if each result is that of the item in its place. -/
theorem mapM_ok_iff {change : α → Except ε β} {items : List α} {results : List β} :
    items.mapM change = .ok results ↔ List.Forall₂ (fun item result => change item = .ok result) items results := by
  induction items generalizing results with
  | nil =>
      rw [List.forall₂_nil_left_iff]
      exact ⟨fun ran => (Except.ok.inj ran).symm, fun none => congrArg Except.ok none.symm⟩
  | cons item rest ih =>
      rw [List.mapM_cons, List.forall₂_cons_left_iff]
      constructor
      · intro ran
        obtain ⟨first, one, ran⟩ := bind_ok ran
        obtain ⟨others, later, ran⟩ := bind_ok ran
        cases ran
        exact ⟨first, others, one, ih.mp later, rfl⟩
      · rintro ⟨first, others, one, later, rfl⟩
        rw [one, ih.mpr later]
        rfl

/-- Each result comes from the item in its place. -/
theorem mapM_getElem? {change : α → Except ε β} {items : List α} {results : List β}
    (ran : items.mapM change = .ok results) {index : Nat} {result : β} (held : results[index]? = some result) :
    ∃ item, items[index]? = some item ∧ change item = .ok result := by
  rw [mapM_ok_iff] at ran
  induction ran generalizing index with
  | nil => cases held
  | cons one _ ih =>
      cases index with
      | zero =>
          cases held
          exact ⟨_, rfl, one⟩
      | succ index => exact ih held

/-- What a change does not touch is the same of each result as of its item. -/
theorem mapM_map {γ : Type} {change : α → Except ε β} {items : List α} {results : List β} {before : α → γ}
    {after : β → γ}
    (same : ∀ item result, change item = .ok result → after result = before item) (ran : items.mapM change = .ok results) :
    results.map after = items.map before := by
  rw [mapM_ok_iff] at ran
  induction ran with
  | nil => rfl
  | cons one _ ih => rw [List.map_cons, List.map_cons, same _ _ one, ih]

theorem mapM_congr_forall₂ {γ : Type} {change : α → Except ε β} {again : γ → Except ε β} {items : List α}
    {others : List γ}
    (alike : List.Forall₂ (fun item other => change item = again other) items others) :
    items.mapM change = others.mapM again := by
  induction alike with
  | nil => rfl
  | cons same _ ih => rw [List.mapM_cons, List.mapM_cons, same, ih]

theorem mapM_mem {change : α → Except ε β} {items : List α} {results : List β} (ran : items.mapM change = .ok results)
    {result : β} (member : result ∈ results) : ∃ item ∈ items, change item = .ok result := by
  obtain ⟨index, held⟩ := List.getElem?_of_mem member
  obtain ⟨item, found, changed⟩ := mapM_getElem? ran held
  exact ⟨item, List.mem_of_getElem? found, changed⟩

section

variable {step : β → α → Except ε β} {motive : β → Prop} {items : List α} {start : β}
  (keeps : ∀ item ∈ items, ∀ before after, motive before → step before item = .ok after → motive after)
  (begins : motive start)

include keeps begins

/-- What each step keeps, all of them keep. -/
theorem foldlM_ok {result : β} (ran : items.foldlM step start = .ok result) : motive result := by
  induction items generalizing start with
  | nil =>
      cases ran
      exact begins
  | cons item rest ih =>
      obtain ⟨middle, one, ran⟩ := bind_ok ran
      exact ih (fun other member => keeps other (List.mem_cons_of_mem _ member))
        (keeps item List.mem_cons_self start middle begins one) ran

/-- One of the steps fails, and those before it have kept what each of them keeps. -/
theorem foldlM_error {fault : ε} (failed : items.foldlM step start = .error fault) :
    ∃ item ∈ items, ∃ before, motive before ∧ step before item = .error fault := by
  induction items generalizing start with
  | nil => cases failed
  | cons item rest ih =>
      rw [List.foldlM_cons] at failed
      cases one : step start item with
      | error cause =>
          rw [one] at failed
          cases failed
          exact ⟨item, List.mem_cons_self, start, begins, one⟩
      | ok middle =>
          rw [one] at failed
          obtain ⟨other, member, found⟩ := ih (fun other member => keeps other (List.mem_cons_of_mem _ member))
            (keeps item List.mem_cons_self start middle begins one) failed
          exact ⟨other, List.mem_cons_of_mem _ member, found⟩

/-- What one of the steps does and the others keep is done by all of them. -/
theorem foldlM_visits (done : β → Prop) {item : α} (member : item ∈ items)
    (does : ∀ before after, motive before → step before item = .ok after → done after)
    (stays : ∀ other ∈ items, ∀ before after, motive before → done before → step before other = .ok after →
      done after)
    {result : β} (ran : items.foldlM step start = .ok result) : done result := by
  induction items generalizing start with
  | nil => cases member
  | cons first rest ih =>
      obtain ⟨middle, one, remaining⟩ := bind_ok ran
      have kept := keeps first List.mem_cons_self start middle begins one
      rcases List.mem_cons.mp member with rfl | later
      · have keepsBoth : ∀ other ∈ rest, ∀ before after, motive before ∧ done before →
          step before other = .ok after →
            motive after ∧ done after := fun other within before after holds stepped =>
          ⟨keeps other (List.mem_cons_of_mem _ within) before after holds.1 stepped,
            stays other (List.mem_cons_of_mem _ within) before after holds.1 holds.2 stepped⟩
        have both := foldlM_ok (motive := fun state => motive state ∧ done state) keepsBoth
          ⟨kept, does start middle begins one⟩ remaining
        exact both.2
      · exact ih (fun other within => keeps other (List.mem_cons_of_mem _ within)) kept later
          (fun other within => stays other (List.mem_cons_of_mem _ within)) remaining

end

/-- Both computations fail with the same fault, or both succeed and their results are related. -/
inductive Both {α' : Type} (related : α → α' → Prop) : Except ε α → Except ε α' → Prop
  | error (fault : ε) : Both related (.error fault) (.error fault)
  | ok {left : α} {right : α'} (same : related left right) : Both related (.ok left) (.ok right)

namespace Both

variable {α' β' : Type} {related : α → α' → Prop} {after : β → β' → Prop} {first : Except ε α}
    {other : Except ε α'}

theorem refl {related : α → α → Prop} {result : Except ε α} (holds : ∀ value, result = .ok value →
      related value value) :
    Both related result result := by
  cases result with
  | error fault => exact .error fault
  | ok value => exact .ok (holds value rfl)

/-- What is to hold of both outcomes holds if it does for a common fault and for related results. -/
@[elab_as_elim]
theorem elim {motive : Except ε α → Except ε α' → Prop} (both : Both related first other)
    (error : ∀ fault, motive (.error fault) (.error fault))
    (ok : ∀ left right, related left right → motive (.ok left) (.ok right)) :
    motive first other := by
  cases both with
  | error fault => exact error fault
  | ok same => exact ok _ _ same

theorem bind {next : α → Except ε β} {next' : α' → Except ε β'} (both : Both related first other)
    (follows : ∀ left right, related left right → Both after (next left) (next' right)) :
    Both after (first >>= next) (other >>= next') := by
  cases both with
  | error fault => exact .error fault
  | ok same => exact follows _ _ same

/-- What is computed from one result only has to be related. -/
theorem bind_same {next : α → Except ε β} {next' : α → Except ε β'}
    (follows : ∀ value, first = .ok value → Both after (next value) (next' value)) :
    Both after (first >>= next) (first >>= next') := by
  cases first with
  | error fault => exact .error fault
  | ok value => exact follows value rfl

theorem ite {condition : Prop} [Decidable condition] {left right : Except ε α} {left' right' : Except ε α'}
    (holds : Both related left left') (fails : Both related right right') :
    Both related (if condition then left else right) (if condition then left' else right') := by
  split
  · exact holds
  · exact fails

theorem foldlM {step : α → β → Except ε α} {step' : α' → β → Except ε α'} {items : List β}
    (each : ∀ item ∈ items, ∀ left right, related left right → Both related (step left item) (step' right item))
    {start : α} {start' : α'} (begins : related start start') :
    Both related (items.foldlM step start) (items.foldlM step' start') := by
  induction items generalizing start start' with
  | nil => exact .ok begins
  | cons item rest ih =>
      rw [List.foldlM_cons, List.foldlM_cons]
      exact bind (each item List.mem_cons_self _ _ begins) fun _ _ same =>
        ih (fun later member => each later (List.mem_cons_of_mem _ member)) same

end Both

/-- A failure keeps the changes that were made before it. -/
theorem run_bind (action : ExceptT ε (StateM σ) α) (next : α → ExceptT ε (StateM σ) β) (state : σ) :
    (action >>= next).run.run state =
      match action.run.run state with
      | (.ok result, after) => (next result).run.run after
      | (.error fault, after) => (.error fault, after) := by
  rw [ExceptT.run_bind, StateT.run_bind]
  show (match action.run.run state with | (outcome, after) => _) = _
  rcases action.run.run state with ⟨_ | _, after⟩ <;> rfl

theorem run_map (change : α → β) (action : ExceptT ε (StateM σ) α) (state : σ) :
    (change <$> action).run.run state =
      match action.run.run state with
      | (.ok result, after) => (.ok (change result), after)
      | (.error fault, after) => (.error fault, after) := by
  rw [← bind_pure_comp, run_bind]
  rcases action.run.run state with ⟨_ | _, after⟩ <;> rfl

theorem run_pure (result : α) (state : σ) :
    (pure result : ExceptT ε (StateM σ) α).run.run state = (.ok result, state) := rfl

theorem run_throw (fault : ε) (state : σ) :
    (throw fault : ExceptT ε (StateM σ) α).run.run state = (.error fault, state) := rfl

theorem run_modifyGet (change : σ → α × σ) (state : σ) :
    (modifyGet change : ExceptT ε (StateM σ) α).run.run state = (.ok (change state).1, (change state).2) := rfl

theorem run_get_bind (next : σ → ExceptT ε (StateM σ) α) (state : σ) :
    ((get : ExceptT ε (StateM σ) σ) >>= next).run.run state = (next state).run.run state := rfl

end CilWeave.Stateful
