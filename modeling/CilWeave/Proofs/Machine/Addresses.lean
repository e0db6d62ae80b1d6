import CilWeave.Proofs.Machine.Sessions
import CilWeave.Proofs.Machine.Slots

/-!
Whose slots addresses name in the course of a machine's life. As long as the activation is active whose slot has had its address
taken, the address names that slot. Later it names one of an activation that has been entered since at the same depth, or none.
-/

namespace CilWeave.Machine

/-- A state that a machine goes through, when it does, and the activations that its frames are of, the outermost first. An
activation is told by when it was entered. -/
structure Moment where
  time : Nat
  state : State
  activations : List Nat

/-- The activations after an instruction: a call enters one at the given time, and a return leaves the innermost. -/
def succeeding (time : Nat) (activations : List Nat) : Except Fault Control → List Nat
  | .ok (.call _) => activations ++ [time]
  | .ok (.return _) => activations.dropLast
  | _ => activations

/-- The moments of one state after the other. -/
def trail (program : Program) (limits : Limits) (time : Nat) (activations : List Nat) : List State → List Moment
  | [] => []
  | state :: rest =>
    ⟨time, state, activations⟩ ::
      trail program limits (time + 1) (succeeding (time + 1) activations (act program limits state).1) rest

/-- The moments of all states that a machine goes through. -/
def moments (machine : Machine) (time : Nat) : List Request → List Moment
  | [] => []
  | request :: rest =>
    trail machine.program machine.limits time [time] (machine.visits request) ++
      (machine.serve request).moments (time + (machine.visits request).length) rest

namespace Moment

/-- Each frame is of an activation of its own, which was entered after that of its caller. -/
structure Sound (moment : Moment) : Prop where
  numbered : moment.activations.length = moment.state.depth + 1
  ordered : moment.activations.Pairwise (· < ·)
  entered : ∀ activation ∈ moment.activations, activation ≤ moment.time

/-- What is active at a depth was active there before, or has been entered since. -/
structure Follows (earlier later : Moment) : Prop where
  after : earlier.time < later.time
  stays : ∀ (depth activation : Nat), later.activations[depth]? = some activation →
    earlier.time < activation ∨ earlier.activations[depth]? = some activation

/-- What an activation holds in a slot, if it is active. -/
def slot? (moment : Moment) (activation : Nat) (slot : Slot) : Option Value :=
  (moment.activations.idxOf? activation).bind fun depth => moment.state.slot? depth slot

/-- An access fails because the address is invalid, and all slots stay as they are. -/
def Refuses (moment : Moment) (address : Value) (outcome : Except Fault Control × State) : Prop :=
  outcome.1 = .error (.invalidAddress address) ∧
    ∀ activation slot, slot? { moment with state := outcome.2 } activation slot = moment.slot? activation slot

/-- An access reads or writes a slot of an activation, and no other slot of any activation. -/
inductive Touches (moment : Moment) (activation : Nat) (slot : Slot) : Access → Except Fault Control × State → Prop
  | read {value : Value} {after : State} (held : moment.slot? activation slot = some value)
      (given : after.active.stack.head? = some value)
      (same : ∀ other place, slot? { moment with state := after } other place = moment.slot? other place) :
      Touches moment activation slot .read (.ok .next, after)
  | write {held value : Value} {after : State} (present : moment.slot? activation slot = some held)
      (written : ∀ other place, slot? { moment with state := after } other place =
        if other = activation ∧ place = slot then some value else moment.slot? other place) :
      Touches moment activation slot (.write value) (.ok .next, after)

variable {moment : Moment} {activation depth : Nat} {slot : Slot} {access : Access} {outcome : Except Fault Control × State}

theorem Touches.held (touches : moment.Touches activation slot access outcome) :
    ∃ value, moment.slot? activation slot = some value := by
  cases touches with
  | read held => exact ⟨_, held⟩
  | write present => exact ⟨_, present⟩

/-- Each frame is of one activation. -/
theorem Sound.idxOf?_iff (sound : moment.Sound) :
    moment.activations.idxOf? activation = some depth ↔ moment.activations[depth]? = some activation := by
  have distinct : moment.activations.Nodup := sound.ordered.imp Nat.ne_of_lt
  have found {depth : Nat} (first : moment.activations.idxOf? activation = some depth) :
      moment.activations[depth]? = some activation := by
    obtain ⟨inside, same, -⟩ := List.idxOf?_eq_some_iff.mp first
    exact List.getElem?_eq_some_iff.mpr ⟨inside, same⟩
  refine ⟨found, fun here => ?_⟩
  obtain ⟨other, first⟩ : ∃ other, moment.activations.idxOf? activation = some other :=
    Option.isSome_iff_exists.mp (List.isSome_idxOf?.mpr (List.mem_of_getElem? here))
  obtain ⟨inside, -⟩ := List.getElem?_eq_some_iff.mp here
  rw [first, (List.getElem?_inj inside distinct).mp (here.trans (found first).symm)]

/-- Where no activation is, nothing is accessed. -/
theorem Sound.refuses (sound : moment.Sound) (nobody : moment.activations[depth]? = none)
    (accessed : Accessed moment.state depth slot access outcome) : moment.Refuses (slot.address depth) outcome := by
  have deep : moment.state.depth < depth := by
    have outside := List.getElem?_eq_none_iff.mp nobody
    rw [sound.numbered] at outside
    exact outside
  have missing : moment.state.slot? depth slot = none := by
    simp [State.slot?, State.frame?, Nat.ne_of_gt deep, Nat.not_lt_of_gt deep]
  cases accessed with
  | invalid _ same => exact ⟨rfl, fun other place => by rw [slot?, slot?, same]⟩
  | read held => cases missing.symm.trans held
  | write present => cases missing.symm.trans present

/-- What is done to the slot at a depth is done to the slot of the activation that is active there. -/
theorem Sound.touches (sound : moment.Sound) (here : moment.activations[depth]? = some activation)
    (accessed : Accessed moment.state depth slot access outcome) :
    moment.Refuses (slot.address depth) outcome ∨ moment.Touches activation slot access outcome := by
  have own : moment.activations.idxOf? activation = some depth := sound.idxOf?_iff.mpr here
  cases accessed with
  | invalid missing same => exact .inl ⟨rfl, fun other place => by rw [slot?, slot?, same]⟩
  | read held given same =>
      exact .inr (.read (by rw [slot?, own]; exact held) given fun other place => by rw [slot?, slot?, same])
  | write present written =>
      refine .inr (.write (by rw [slot?, own]; exact present) fun other place => ?_)
      rw [slot?, slot?]
      cases found : moment.activations.idxOf? other with
      | none =>
          have apart : other ≠ activation := by
            rintro rfl
            cases own.symm.trans found
          simp [apart]
      | some position =>
          have there : moment.activations[position]? = some other := sound.idxOf?_iff.mp found
          have same : position = depth ↔ other = activation := by
            refine ⟨fun equal => ?_, fun equal => ?_⟩
            · exact Option.some.inj (there.symm.trans (equal ▸ here))
            · exact Option.some.inj ((equal ▸ found).symm.trans own)
          simp [written, same]

/-- At a depth there is the same activation as before, or another one, and then the former has been left. -/
theorem Follows.replaced {earlier later : Moment} {owner : Nat} (follows : earlier.Follows later) (sound : earlier.Sound)
    (own : earlier.activations[depth]? = some owner) (here : later.activations[depth]? = some activation) :
    activation = owner ∨ owner ∉ later.activations ∧ earlier.time < activation := by
  rcases follows.stays depth activation here with newer | same
  · refine .inr ⟨fun active => ?_, newer⟩
    have old : owner ≤ earlier.time := sound.entered owner (List.mem_of_getElem? own)
    obtain ⟨position, there⟩ := List.mem_iff_getElem?.mp active
    rcases follows.stays position owner there with fresh | before
    -- An activation is told by when it was entered, so it cannot be entered again.
    · omega
    · have equal : position = depth :=
        Option.some.inj ((sound.idxOf?_iff.mpr before).symm.trans (sound.idxOf?_iff.mpr own))
      rw [equal, here] at there
      cases there
      omega
  · exact .inl (Option.some.inj (same.symm.trans own))

end Moment

variable {program : Program} {limits : Limits} {state next : State} {history : List State} {ending : Ending} {time depth : Nat}
  {activation : Nat} {activations : List Nat} {control : Control} {moment : Moment}

/-- A call enters an activation for the new frame, and a return leaves that of the frame taken away. -/
theorem length_succeeding (goes : Goes limits state control next) (numbered : activations.length = state.depth + 1) :
    (succeeding time activations (.ok control)).length = next.depth + 1 := by
  cases goes with
  | next => exact numbered
  | jump found => exact numbered
  | «return» waiting =>
      simp only [State.depth, waiting, List.length_cons] at numbered ⊢
      simp [succeeding, numbered]
  | call entered =>
      simp only [State.depth, List.length_cons] at numbered ⊢
      simp [succeeding, numbered]

/-- An activation that is active after an instruction was active before it, or is entered now. -/
theorem getElem?_succeeding {outcome : Except Fault Control}
    (here : (succeeding time activations outcome)[depth]? = some activation) :
    activation = time ∨ activations[depth]? = some activation := by
  unfold succeeding at here
  split at here
  · rw [List.getElem?_append] at here
    split at here
    · exact .inr here
    · exact .inl (List.mem_singleton.mp (List.mem_of_getElem? here))
  · rw [List.getElem?_dropLast] at here
    split at here
    · exact .inr here
    · cases here
  · exact .inr here

/-- Activations are entered one after the other. -/
theorem Moment.Sound.goes_on {later : State} {outcome : Except Fault Control}
    (sound : Moment.Sound ⟨time, state, activations⟩)
    (numbered : (succeeding (time + 1) activations outcome).length = later.depth + 1) :
    Moment.Sound ⟨time + 1, later, succeeding (time + 1) activations outcome⟩ := by
  obtain ⟨-, ordered, entered⟩ := sound
  dsimp only at ordered entered
  refine ⟨numbered, ?_, fun activation member => ?_⟩
  · dsimp only
    unfold succeeding
    split
    · have newer : ∀ activation ∈ activations, activation < time + 1 :=
        fun _ active => Nat.lt_succ_of_le (entered _ active)
      exact List.pairwise_append.mpr ⟨ordered, List.pairwise_singleton _ _, by simpa using newer⟩
    · exact ordered.sublist (List.dropLast_sublist _)
    · exact ordered
  · obtain ⟨depth, here⟩ := List.mem_iff_getElem?.mp member
    rcases getElem?_succeeding here with rfl | before
    · exact Nat.le_refl _
    · exact Nat.le_succ_of_le (entered _ (List.mem_of_getElem? before))

theorem Ends.trail_sound (ended : Ends (go program limits) state history ending)
    (sound : Moment.Sound ⟨time, state, activations⟩) :
    ∀ moment ∈ trail program limits time activations history, moment.Sound := by
  induction ended generalizing time activations with
  | now stopped => simpa [trail] using sound
  | on moved _ ih =>
      obtain ⟨control, after, acted, same, goes⟩ := goes_of_go moved
      refine List.forall_mem_cons.mpr ⟨sound, ih ?_⟩
      rw [acted]
      exact sound.goes_on (length_succeeding goes (by rw [same]; exact sound.numbered))

/-- What is active later has been entered since or was active before, at the same depth. -/
theorem trail_since (member : moment ∈ trail program limits time activations history) :
    time ≤ moment.time ∧ moment.time < time + history.length ∧ ∀ (depth activation : Nat),
      moment.activations[depth]? = some activation → time < activation ∨ activations[depth]? = some activation := by
  induction history generalizing time activations with
  | nil => cases member
  | cons state rest ih =>
      rcases List.mem_cons.mp member with rfl | later
      · exact ⟨Nat.le_refl _, by simp, fun _ _ here => .inr here⟩
      · obtain ⟨reached, before, since⟩ := ih later
        refine ⟨by omega, by simp only [List.length_cons]; omega, fun depth activation here => ?_⟩
        rcases since depth activation here with newer | older
        · exact .inl (by omega)
        · exact (getElem?_succeeding older).imp_left fun now => by omega

theorem trail_follows (program : Program) (limits : Limits) (time : Nat) (activations : List Nat) (history : List State) :
    (trail program limits time activations history).Pairwise Moment.Follows := by
  induction history generalizing time activations with
  | nil => exact .nil
  | cons state rest ih =>
      refine .cons (fun moment member => ?_) (ih _ _)
      obtain ⟨sooner, -, since⟩ := trail_since member
      refine ⟨sooner, fun depth activation here => ?_⟩
      rcases since depth activation here with newer | older
      · exact .inl (by dsimp only; omega)
      · exact (getElem?_succeeding older).imp_left fun now => by dsimp only; omega

theorem moments_since {machine : Machine} {requests : List Request} (member : moment ∈ machine.moments time requests) :
    time ≤ moment.time ∧ ∀ activation ∈ moment.activations, time ≤ activation := by
  induction requests generalizing machine time with
  | nil => cases member
  | cons request rest ih =>
      rcases List.mem_append.mp member with now | later
      · obtain ⟨sooner, -, since⟩ := trail_since now
        refine ⟨sooner, fun activation active => ?_⟩
        obtain ⟨depth, here⟩ := List.mem_iff_getElem?.mp active
        rcases since depth activation here with newer | first
        · exact Nat.le_of_lt newer
        · exact Nat.le_of_eq (List.mem_singleton.mp (List.mem_of_getElem? first)).symm
      · obtain ⟨sooner, since⟩ := ih later
        exact ⟨by omega, fun activation active => Nat.le_trans (Nat.le_add_right _ _) (since activation active)⟩

theorem moments_follow (machine : Machine) (time : Nat) (requests : List Request) :
    (machine.moments time requests).Pairwise Moment.Follows := by
  induction requests generalizing machine time with
  | nil => exact .nil
  | cons request rest ih =>
      refine List.pairwise_append.mpr ⟨trail_follows _ _ _ _ _, ih _ _, fun earlier first later second => ?_⟩
      obtain ⟨-, before, -⟩ := trail_since first
      obtain ⟨sooner, since⟩ := moments_since second
      exact ⟨by omega, fun depth activation here =>
        .inl (Nat.lt_of_lt_of_le before (since activation (List.mem_of_getElem? here)))⟩

theorem moments_sound (machine : Machine) (time : Nat) (requests : List Request) :
    ∀ moment ∈ machine.moments time requests, moment.Sound := by
  induction requests generalizing machine time with
  | nil => simp [moments]
  | cons request rest ih =>
      refine List.forall_mem_append.mpr ⟨?_, ih _ _⟩
      rcases machine.serve_cases request with ⟨store, -, -, nowhere⟩ | ⟨_, _, _, call, -, -, states⟩
      · simp [nowhere, trail]
      · rw [states]
        cases entered : enterFrame machine.limits 0 machine.store.method call with
        | error fault => simp [Store.visits, entered, trail]
        | ok frame =>
            exact Ends.trail_sound (Store.visits_ends entered) ⟨rfl, List.pairwise_singleton _ _, by simp⟩

theorem Moment.follows_of_lt {machine : Machine} {requests : List Request} {earlier later : Moment}
    (first : earlier ∈ machine.moments time requests) (second : later ∈ machine.moments time requests)
    (sooner : earlier.time < later.time) : earlier.Follows later := by
  obtain ⟨i, inside, rfl⟩ := List.mem_iff_getElem.mp first
  obtain ⟨j, within, rfl⟩ := List.mem_iff_getElem.mp second
  have ordered := List.pairwise_iff_getElem.mp (moments_follow machine time requests)
  rcases Nat.lt_trichotomy i j with before | rfl | behind
  · exact ordered i j inside within before
  · cases Nat.lt_irrefl _ sooner
  · cases Nat.lt_asymm sooner (ordered j i within inside behind).after

/-- The next instruction takes the address of a slot of the innermost activation. -/
structure Moment.Takes (program : Program) (limits : Limits) (moment : Moment) (slot : Slot) (owner : Nat)
    (address : Value) : Prop where
  executes : moment.state.executes limits = true
  taken : moment.state.slotTaken? = some slot
  owned : moment.activations.getLast? = some owner
  given : ∃ after, act program limits moment.state = (.ok .next, after) ∧ after.active.stack.head? = some address

/-- The address that is taken is that of the slot in the innermost frame. -/
theorem Moment.Takes.address_eq {slot : Slot} {owner : Nat} {address : Value}
    (takes : moment.Takes program limits slot owner address) : address = slot.address moment.state.depth := by
  obtain ⟨after, acted, given⟩ := takes.given
  obtain ⟨other, same, left⟩ := act_slotTaken program takes.executes takes.taken
  cases acted.symm.trans same
  exact Option.some.inj (given.symm.trans left)

/-- The next instruction goes through an address. -/
structure Moment.Uses (limits : Limits) (moment : Moment) (address : Value) (access : Access) : Prop where
  executes : moment.state.executes limits = true
  through : moment.state.access? = some (address, access)

/-- An access through the address of a slot of an activation is to that slot and no other, or it fails and touches none. -/
def Moment.Confined (moment : Moment) (owner : Nat) (slot : Slot) (address : Value) (access : Access)
    (outcome : Except Fault Control × State) : Prop :=
  moment.Refuses address outcome ∨ moment.Touches owner slot access outcome

/-- Through the address of a slot, however it has been passed on, every later access is to that slot of the activation that has
taken the address, or it fails. When that activation has been left, it can be to the same slot of an activation that has been
entered since, at the same depth. -/
theorem address_reaches {machine : Machine} {requests : List Request} {made : Moment} {slot : Slot}
    (recorded : made ∈ machine.moments 0 requests) (executes : made.state.executes machine.limits = true)
    (taken : made.state.slotTaken? = some slot) :
    ∃ owner address, made.Takes machine.program machine.limits slot owner address ∧
      ∀ later ∈ machine.moments 0 requests, made.time < later.time →
        ∀ access, later.Uses machine.limits address access →
        let outcome := act machine.program machine.limits later.state
        later.Confined owner slot address access outcome ∨
          owner ∉ later.activations ∧ ∃ activation, later.activations[made.state.depth]? = some activation ∧
            made.time < activation ∧ later.Touches activation slot access outcome := by
  have sound := moments_sound machine 0 requests made recorded
  obtain ⟨owner, own⟩ : ∃ owner, made.activations[made.state.depth]? = some owner :=
    ⟨_, List.getElem?_eq_getElem (by rw [sound.numbered]; exact Nat.lt_succ_self _)⟩
  have last : made.activations.getLast? = some owner := by
    rw [List.getLast?_eq_getElem?, sound.numbered]
    exact own
  have given := act_slotTaken machine.program executes taken
  refine ⟨owner, _, ⟨executes, taken, last, given⟩, fun later follows sooner access uses => ?_⟩
  have accessed := accessed_act machine.program uses.executes uses.through
  have laterSound := moments_sound machine 0 requests later follows
  cases here : later.activations[made.state.depth]? with
  | none => exact .inl (.inl (laterSound.refuses here accessed))
  | some activation =>
      rcases laterSound.touches here accessed with refuses | touches
      · exact .inl (.inl refuses)
      · rcases (Moment.follows_of_lt recorded follows sooner).replaced sound own here with rfl | ⟨ended, newer⟩
        · exact .inl (.inr touches)
        · exact .inr ⟨ended, activation, rfl, newer, touches⟩

namespace Lending

def member (name : String) (params : List TypeSig) (returns : TypeSig) : Operand :=
  .method ⟨.classType ⟨none, "", "T"⟩, name, returns, params, false⟩

/-- Fills a variable of its caller. -/
def fill : MethodDef :=
  ⟨"Fill", ⟨MethodFlags.isStatic⟩, .void, [⟨"slot", .byRef (.primitive .int32), []⟩],
    some ⟨8, true, #[], #[⟨0, .ldarg0, .none⟩, ⟨1, .ldcI47, .none⟩, ⟨2, .stindI4, .none⟩, ⟨3, .ret, .none⟩], 0⟩,
      []⟩

/-- Lends a local to another method. -/
def lend : MethodDef :=
  { fill with
    name := "Lend"
    returns := .primitive .int32
    params := []
    body := some ⟨8, true, #[.primitive .int32], #[
      ⟨0, .ldlocaS, .local 0⟩,
      ⟨1, .call, member "Fill" [.byRef (.primitive .int32)] .void⟩,
      ⟨2, .ldloc0, .none⟩,
      ⟨3, .ret, .none⟩], 0⟩ }

def last : FieldRef := ⟨.classType ⟨none, "", "T"⟩, "last", .byRef (.primitive .int32)⟩

/-- Keeps the address of a local in a static field. -/
def keep : MethodDef :=
  { fill with
    name := "Keep"
    params := []
    body := some ⟨8, true, #[.primitive .int32], #[⟨0, .ldlocaS, .local 0⟩, ⟨1, .stsfld, .field last⟩,
      ⟨2, .ret, .none⟩], 0⟩ }

/-- Reads what the kept address names, with a local of its own. -/
def peek : MethodDef :=
  { lend with
    name := "Peek"
    body := some ⟨8, true, #[.primitive .int32], #[
      ⟨0, .ldcI47, .none⟩,
      ⟨1, .stloc0, .none⟩,
      ⟨2, .ldsfld, .field last⟩,
      ⟨3, .ldindI4, .none⟩,
      ⟨4, .ret, .none⟩], 0⟩ }

def main : MethodDef :=
  { lend with
    name := "Main"
    body := some ⟨8, true, #[], #[
      ⟨0, .call, member "Keep" [] .void⟩,
      ⟨1, .call, member "Peek" [] (.primitive .int32)⟩,
      ⟨2, .ret, .none⟩], 0⟩ }

def type : TypeDef := { TypeDef.empty "" "T" ⟨0⟩ none with methods := [fill, lend, keep, peek, main] }

def machine : Machine := .ofModules .standard .standard [⟨"Game", [], [type]⟩]

/-- A local is lent to a method that fills it. -/
def lending : List Moment := machine.moments 0 [.call "System.Int32 T::Lend()" none []]

def lent : Moment := lending.get ⟨0, by decide +kernel⟩

def filled : Moment := lending.get ⟨4, by decide +kernel⟩

/-- The variable is filled while its activation waits for the call. -/
theorem address_reaches_lending : lent ∈ lending ∧ filled ∈ lending ∧ ∃ owner address access,
    lent.Takes machine.program machine.limits (.localAt 0) owner address ∧ lent.time < filled.time ∧
      filled.Uses machine.limits address access ∧ owner ∈ filled.activations.dropLast ∧
      filled.Touches owner (.localAt 0) access (act machine.program machine.limits filled.state) := by
  have recorded : lent ∈ lending := List.get_mem _ _
  have follows : filled ∈ lending := List.get_mem _ _
  have executes : lent.state.executes machine.limits = true := by decide +kernel
  have taken : lent.state.slotTaken? = some (.localAt 0) := by decide +kernel
  have sooner : lent.time < filled.time := by decide +kernel
  obtain ⟨owner, address, takes, reaches⟩ := address_reaches recorded executes taken
  have depth : lent.state.depth = 0 := by decide +kernel
  have active : lent.activations.getLast? = some 0 := by decide +kernel
  have waiting : filled.activations = [0, 2] := by decide +kernel
  obtain rfl : owner = 0 := Option.some.inj (takes.owned.symm.trans active)
  obtain ⟨access, accesses⟩ : ∃ access, filled.state.access? = some (Slot.address 0 (.localAt 0), access) :=
    State.exists_access (by decide +kernel)
  have uses : filled.Uses machine.limits address access := by
    rw [takes.address_eq, depth]
    exact ⟨by decide +kernel, accesses⟩
  refine ⟨recorded, follows, 0, address, access, takes, sooner, uses, by rw [waiting]; decide, ?_⟩
  rcases reaches filled follows sooner access uses with (⟨failed, -⟩ | touches) | ⟨left, -⟩
  · have succeeds : (act machine.program machine.limits filled.state).1.isOk = true := by decide +kernel
    rw [failed] at succeeds
    cases succeeds
  · exact touches
  · simp [waiting] at left

/-- An address is kept beyond the activation whose local it names, and gone through in another activation. -/
def keeping : List Moment := machine.moments 0 [.call "System.Int32 T::Main()" none []]

def kept : Moment := keeping.get ⟨1, by decide +kernel⟩

def peeked : Moment := keeping.get ⟨8, by decide +kernel⟩

/-- The address of a local that is no more leads to a local of another activation. -/
theorem address_strays : ¬∀ made ∈ keeping, ∀ slot owner address,
      made.Takes machine.program machine.limits slot owner address →
    ∀ later ∈ keeping, made.time < later.time → ∀ access, later.Uses machine.limits address access →
      later.Confined owner slot address access (act machine.program machine.limits later.state) := by
  intro confined
  have executes : kept.state.executes machine.limits = true := by decide +kernel
  have taken : kept.state.slotTaken? = some (.localAt 0) := by decide +kernel
  have active : kept.activations.getLast? = some 1 := by decide +kernel
  have depth : kept.state.depth = 1 := by decide +kernel
  have given := act_slotTaken machine.program executes taken
  obtain ⟨access, accesses⟩ : ∃ access, peeked.state.access? = some (Slot.address 1 (.localAt 0), access) :=
    State.exists_access (by decide +kernel)
  have uses : peeked.Uses machine.limits (Slot.address kept.state.depth (.localAt 0)) access := by
    rw [depth]
    exact ⟨by decide +kernel, accesses⟩
  rcases confined kept (List.get_mem _ _) (.localAt 0) 1 _ ⟨executes, taken, active, given⟩
    peeked (List.get_mem _ _) (by decide +kernel) access uses with ⟨failed, -⟩ | touches
  · have succeeds : (act machine.program machine.limits peeked.state).1.isOk = true := by decide +kernel
    rw [failed] at succeeds
    cases succeeds
  · obtain ⟨value, held⟩ := touches.held
    have nothing : (peeked.slot? 1 (.localAt 0)).isSome = false := by decide +kernel
    rw [held] at nothing
    cases nothing

end Lending

end CilWeave.Machine
