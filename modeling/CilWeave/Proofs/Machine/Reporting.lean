import CilWeave.Proofs.Machine.Sessions

/-!
The methods that failures are reported for. While methods are active it is the innermost one. A call that fails leaves that name
behind, so what fails while no method is active is reported for the method in which a call has failed last.
-/

namespace CilWeave.Machine

/-- The full name of the method that a call enters. -/
def Call.name (call : Call) : String := call.method.fullNameIn call.type.fullName

theorem Call.name_ne_empty (call : Call) : call.name ≠ "" := by
  intro empty
  have chars := congrArg String.toList empty
  simp [name, MethodDef.fullNameIn, memberName] at chars

/-- The name of the innermost of the active calls, which come first; outside of all methods, the given name. -/
def reported (outside : String) (active : List Call) : String := (active.head?.map Call.name).getD outside

/-- What each of the active methods goes back to. -/
def resumed (outside : String) : List Call → List String
  | [] => []
  | _ :: active => reported outside active :: resumed outside active

/-- The calls that are active after an instruction. -/
def activeAfter (active : List Call) : Except Fault Control → List Call
  | .ok (.call call) => call :: active
  | .ok (.return _) => active.tail
  | _ => active

/-- The calls that are active in the last state of a run, if there is one, from those that are active in the first. -/
def activeLast (program : Program) (limits : Limits) : List Call → List State → List Call
  | _, [] => []
  | active, [_] => active
  | active, state :: next :: rest => activeLast program limits (activeAfter active (act program limits state).1) (next :: rest)

/-- The frames are those of the active calls: each runs the body of its method and goes back to what was reported before. -/
structure Tracks (outside : String) (active : List Call) (store : Store) (frames : List Frame) : Prop where
  bodies : frames.map (fun frame => some frame.body) = active.map fun call => call.method.body
  callers : frames.map Frame.caller = resumed outside active
  method : store.method = reported outside active

section

variable {program : Program} {limits : Limits} {outside : String} {active : List Call} {store : Store} {frames : List Frame}
  {state next : State} {history : List State} {ending : Ending}

namespace Tracks

theorem nothing (store : Store) : Tracks store.method [] store [] := ⟨rfl, rfl, rfl⟩

theorem enters (tracks : Tracks outside active store frames) {depth : Nat} {call : Call} {frame : Frame}
    (entered : enterFrame limits depth store.method call = .ok frame) :
    Tracks outside (call :: active) (store.enter call) (frame :: frames) := by
  obtain ⟨body, defined, -, rfl⟩ := enterFrame_ok entered
  exact ⟨congrArg₂ List.cons defined.symm tracks.bodies, congrArg₂ List.cons tracks.method tracks.callers, rfl⟩

/-- A frame that is left is that of the innermost call, and what is reported is again what it was before that call. -/
theorem leaves {frame : Frame} (tracks : Tracks outside active store (frame :: frames)) :
    Tracks outside active.tail { store with method := frame.caller } frames := by
  obtain ⟨bodies, callers, -⟩ := tracks
  cases active with
  | nil => cases bodies
  | cons call active =>
      obtain ⟨caller, callers⟩ := List.cons.inj callers
      exact ⟨(List.cons.inj bodies).2, callers, caller⟩

theorem acts (tracks : Tracks outside active state.store state.frames) {outcome : Except Fault Control} {after : State}
    (acted : act program limits state = (outcome, after)) : Tracks outside active after.store after.frames := by
  have method : after.store.method = state.store.method := by rw [← act_method program limits state, acted]
  exact ⟨(map_frames_of_act (fun _ _ => rfl) acted).trans tracks.bodies,
    (map_frames_of_act (fun _ _ => rfl) acted).trans tracks.callers, method.trans tracks.method⟩

/-- A step that goes on keeps frames and active calls together. -/
theorem goes_on (tracks : Tracks outside active state.store state.frames) (moved : go program limits state = .inl next) :
    Tracks outside (activeAfter active (act program limits state).1) next.store next.frames := by
  obtain ⟨control, after, acted, -, goes⟩ := goes_of_go moved
  have kept := tracks.acts acted
  rw [acted]
  cases goes with
  | next => exact ⟨kept.bodies, kept.callers, kept.method⟩
  | jump found => exact ⟨kept.bodies, kept.callers, kept.method⟩
  | «return» waiting =>
      rename_i value caller callers
      rw [State.frames, waiting] at kept
      obtain ⟨bodies, callers, method⟩ := kept.leaves
      have body : (caller.resume after.active.completion value).body = caller.body := (Frame.resume_place _ _ _).1
      have link : (caller.resume after.active.completion value).caller = caller.caller :=
        congrArg Prod.snd (Frame.resume_link caller _ value)
      refine ⟨?_, ?_, method⟩
      · rw [State.frames, List.map_cons, body]
        exact bodies
      · rw [State.frames, List.map_cons, link]
        exact callers
  | call entered => exact kept.enters entered

/-- A step that ends the run with a failure leaves what is reported while the calls are active, and one that ends it with a
value what was reported before the first of them. -/
theorem stops (tracks : Tracks outside active state.store state.frames) (stopped : go program limits state = .inr ending) :
    ending.2.method = match ending.1 with
      | .ok _ => outside
      | .error _ => reported outside active := by
  obtain ⟨outcome, after, acted, ⟨fault, rfl, rfl⟩ | ⟨control, rfl, halts⟩⟩ := halts_of_go stopped
  · exact (tracks.acts acted).method
  · have kept := tracks.acts acted
    cases halts with
    | lost missing => exact kept.method
    | refused refuses => exact kept.method
    | finished outermost =>
        rw [State.frames, outermost] at kept
        have left := kept.leaves
        rw [List.map_eq_nil_iff.mp left.bodies.symm] at left
        exact left.method

end Tracks

/-- Frames and active calls are together up to the last state of a run. -/
theorem Ends.tracks (ended : Ends (go program limits) state history ending)
    (tracks : Tracks outside active state.store state.frames) : ∃ last, history.getLast? = some last ∧
      Tracks outside (activeLast program limits active history) last.store last.frames ∧
      go program limits last = .inr ending := by
  induction ended generalizing active with
  | now stopped => exact ⟨_, rfl, tracks, stopped⟩
  | on moved rest ih =>
      obtain ⟨last, latest, kept, stopped⟩ := ih (tracks.goes_on moved)
      cases rest <;> exact ⟨last, latest, kept, stopped⟩

/-- The frames that are active in the last of the states. -/
def lastFrames (history : List State) : List Frame := history.getLast?.elim [] State.frames

/-- A call that fails leaves what was reported when it failed, and one that returns what was reported before it. -/
theorem Store.call_reports (program : Program) (limits : Limits) (store : Store) (call : Call) :
    ((store.call program limits call).2.method = match (store.call program limits call).1 with
      | .ok _ => store.method
      | .error _ => reported store.method (activeLast program limits [call] (store.visits program limits call))) ∧
      (lastFrames (store.visits program limits call)).map (fun frame => some frame.body) =
        (activeLast program limits [call] (store.visits program limits call)).map fun call => call.method.body := by
  cases entered : enterFrame limits 0 store.method call with
  | error fault =>
      rw [Store.call, visits, entered]
      exact ⟨rfl, rfl⟩
  | ok frame =>
      obtain ⟨last, latest, tracks, stopped⟩ := Ends.tracks (visits_ends entered) ((Tracks.nothing store).enters entered)
      refine ⟨tracks.stops stopped, ?_⟩
      rw [lastFrames, latest]
      exact tracks.bodies

end

def failure? {α : Type} : Except Failure α → Option Failure
  | .ok _ => none
  | .error failure => some failure

/-- What comes of a request: the failure that it is answered with, if it fails, and the calls that were active in the end, the
innermost first, with their frames. -/
structure Report where
  failure : Option Failure
  active : List Call
  frames : List Frame

/-- The innermost of the calls that were active when the request failed. -/
def Report.struck (report : Report) : Option Call := report.failure.bind fun _ => report.active.head?

/-- The innermost call that was active when a request failed last while any was. -/
def lastStruck (reports : List Report) : Option Call := reports.reverse.findSome? Report.struck

section

variable (machine : Machine)

/-- The call that a request is made with. -/
def entered? : Request → Option Call
  | .call fullName this args => (machine.entryCall fullName this args).toOption
  | _ => none

def report (request : Request) : Report where
  failure :=
    match request with
    | .newObject typeName => failure? (machine.newObject typeName).1
    | .call fullName this args => failure? (machine.call fullName this args).1
    | .setField object name value => failure? (machine.setField object name value).1
  active := activeLast machine.program machine.limits (machine.entered? request).toList (machine.visits request)
  frames := lastFrames (machine.visits request)

end

def reports (machine : Machine) : List Request → List Report
  | [] => []
  | request :: rest => machine.report request :: (machine.serve request).reports rest

/-- What a request does with the name that is reported: it fails under the name of the innermost active method, and leaves that
name. A request that does not fail in a method leaves the name as it was, and if it fails it does so under that one. -/
structure Report.Names (report : Report) (before after : String) : Prop where
  failing : ∀ failure, report.failure = some failure → failure.method = reported before report.active
  leaving : after = (report.struck.map Call.name).getD before
  frames : report.frames.map (fun frame => some frame.body) = report.active.map fun call => call.method.body

section

variable {machine : Machine}

/-- A request that is refused before any method is active fails under the name that was there. -/
theorem Report.names_refused {fault : Fault} :
    Report.Names ⟨some (machine.failure fault), [], []⟩ machine.store.method machine.store.method :=
  ⟨fun failure same => by cases same; rfl, rfl, rfl⟩

theorem Report.names_done (method : String) : Report.Names ⟨none, [], []⟩ method method :=
  ⟨fun _ failed => (by cases failed), rfl, rfl⟩

/-- What comes of a request that makes a call. -/
theorem report_call {fullName : String} {this : Option Value} {args : List Value} {call : Call} {result : Except Fault Value}
    {after : Store} (entry : machine.entryCall fullName this args = .ok call)
    (called : machine.store.call machine.program machine.limits call = (result, after)) :
    machine.report (.call fullName this args) =
      ⟨failure? (result.mapError (Failure.mk after.method)),
        activeLast machine.program machine.limits [call] (machine.store.visits machine.program machine.limits call),
        lastFrames (machine.store.visits machine.program machine.limits call)⟩ := by
  have states : machine.visits (.call fullName this args) = machine.store.visits machine.program machine.limits call := by
    rw [visits, entry]
  rw [report, states, entered?, entry, call_eq entry called]
  rfl

theorem report_names (machine : Machine) (request : Request) :
    (machine.report request).Names machine.store.method (machine.serve request).store.method := by
  cases request with
  | newObject typeName =>
      rw [report, serve, newObject]
      cases machine.program.type? none typeName with
      | none => exact Report.names_refused
      | some type => exact Report.names_done _
  | setField object name value =>
      rw [report, serve, setField]
      cases machine.store.instance? object with
      | none => exact Report.names_refused
      | some place =>
          dsimp only
          split
          · exact Report.names_done _
          · exact Report.names_refused
  | call fullName this args =>
      cases entry : machine.entryCall fullName this args with
      | error fault =>
          have nowhere : machine.visits (.call fullName this args) = [] := by rw [visits, entry]
          rw [report, nowhere, serve, Machine.call, entry]
          exact Report.names_refused
      | ok call =>
          obtain ⟨names, frames⟩ := machine.store.call_reports machine.program machine.limits call
          rcases called : machine.store.call machine.program machine.limits call with ⟨_ | value, after⟩ <;>
            rw [called] at names <;> rw [report_call entry called, serve, call_eq entry called]
          · exact ⟨fun failure same => by cases same; exact names, names, frames⟩
          · refine ⟨fun _ failed => ?_, names, frames⟩
            cases failed

/-- Each failure is reported under the innermost of the methods that were active, or under the name that the requests before
it left. -/
theorem reports_named (machine : Machine) (requests : List Request) {earlier later : List Report} {report : Report}
    (split : machine.reports requests = earlier ++ report :: later) {failure : Failure}
    (failed : report.failure = some failure) :
    failure.method = reported ((lastStruck earlier).elim machine.store.method Call.name) report.active ∧
      report.frames.map (fun frame => some frame.body) = report.active.map fun call => call.method.body := by
  induction requests generalizing machine earlier with
  | nil => cases earlier <;> cases split
  | cons request rest ih =>
      have names := machine.report_names request
      cases earlier with
      | nil =>
          obtain ⟨rfl, -⟩ := List.cons_eq_cons.mp split
          exact ⟨names.failing failure failed, names.frames⟩
      | cons first earlier =>
          obtain ⟨rfl, others⟩ := List.cons_eq_cons.mp split
          obtain ⟨named, frames⟩ := ih (machine.serve request) others
          refine ⟨named.trans ?_, frames⟩
          rw [names.leaving, lastStruck, lastStruck, List.reverse_cons, List.findSome?_append]
          cases earlier.reverse.findSome? Report.struck <;> cases struck : (machine.report request).struck <;> simp [struck]

/-- The failure of a request is reported for the innermost of the methods that were active when it arose. If none was, it is
reported for the innermost of those in which a request has failed last, which is none if no request has. So it names the
innermost active method, or none if none is active, just where one is active or no request has failed inside one before. -/
theorem failures_named (fresh : machine.store.method = "") {requests : List Request} {earlier later : List Report}
    {report : Report} (split : machine.reports requests = earlier ++ report :: later) {failure : Failure}
    (failed : report.failure = some failure) :
    failure.method = reported ((lastStruck earlier).elim "" Call.name) report.active ∧
      (failure.method = reported "" report.active ↔ report.active ≠ [] ∨ ∀ before ∈ earlier, before.struck = none) ∧
      report.frames.map (fun frame => some frame.body) = report.active.map fun call => call.method.body := by
  obtain ⟨named, frames⟩ := machine.reports_named requests split failed
  rw [fresh] at named
  refine ⟨named, ?_, frames⟩
  have unstruck : lastStruck earlier = none ↔ ∀ before ∈ earlier, before.struck = none := by simp [lastStruck]
  rw [named, ← unstruck]
  cases active : report.active with
  | cons call calls => simp [reported]
  | nil =>
      cases struck : lastStruck earlier with
      | none => simp
      | some call => simpa [reported] using call.name_ne_empty

end

namespace Faltering

def fail : MethodDef :=
  ⟨"Fail", ⟨MethodFlags.isStatic⟩, .void, [],
    some ⟨8, true, #[], #[⟨0, .ldnull, .none⟩, ⟨1, .throw, .none⟩], 0⟩, []⟩

/-- A method that calls the failing one. -/
def run : MethodDef :=
  { fail with
    name := "Run"
    body := some ⟨8, true, #[],
      #[⟨0, .call, .method ⟨.classType ⟨none, "", "T"⟩, "Fail", .void, [], false⟩⟩, ⟨1, .ret, .none⟩], 0⟩ }

def type : TypeDef := { TypeDef.empty "" "T" ⟨0⟩ none with methods := [fail, run] }

def machine : Machine := .ofModules .standard ⟨100, 8⟩ [⟨"Game", [], [type]⟩]

def first : Request := .call "System.Void T::Run()" none []

def second : Request := .newObject "Nope"

theorem split_first : machine.reports [first, second] =
      [] ++ machine.report first :: [(machine.serve first).report second] := rfl

theorem split_second : machine.reports [first, second] =
      [machine.report first] ++ (machine.serve first).report second :: [] := rfl

theorem first_fails : ∃ failure, (machine.report first).failure = some failure :=
  Option.isSome_iff_exists.mp (by decide +kernel)

theorem second_fails : ∃ failure, ((machine.serve first).report second).failure = some failure :=
  Option.isSome_iff_exists.mp (by decide +kernel)

/-- The call fails in the inner one of two methods, and the request after it is reported for that method. -/
theorem failures_named_faltering : machine.store.method = "" ∧
    (machine.report first).active.map Call.name = ["System.Void T::Fail()", "System.Void T::Run()"] ∧
    ((machine.serve first).report second).active = [] ∧
    (∃ failure, (machine.report first).failure = some failure ∧
      failure.method = reported "" (machine.report first).active) ∧
    ∃ failure, ((machine.serve first).report second).failure = some failure ∧
      failure.method = reported ((lastStruck [machine.report first]).elim "" Call.name)
        ((machine.serve first).report second).active := by
  have fresh : machine.store.method = "" := rfl
  have active : (machine.report first).active.map Call.name = ["System.Void T::Fail()", "System.Void T::Run()"] := by
    decide +kernel
  obtain ⟨inner, failed⟩ := first_fails
  obtain ⟨later, failedLater⟩ := second_fails
  have named := failures_named fresh split_first failed
  have namedLater := failures_named fresh split_second failedLater
  exact ⟨fresh, active, rfl, ⟨inner, failed, named.1⟩, later, failedLater, namedLater.1⟩

/-- Not every failure is reported for the innermost active method, or for none if none is active. -/
theorem stale_named : ¬∀ (machine : Machine) (requests : List Request) (earlier later : List Report) (report : Report)
    (failure : Failure), machine.store.method = "" → machine.reports requests = earlier ++ report :: later →
      report.failure = some failure → failure.method = reported "" report.active := by
  intro live
  obtain ⟨failure, failed⟩ := second_fails
  have none : failure.method = "" := live machine [first, second] _ _ _ failure rfl split_second failed
  have stale := (machine.reports_named [first, second] split_second failed).1
  have struck : (lastStruck [machine.report first]).map Call.name = some "System.Void T::Fail()" := by decide +kernel
  obtain ⟨call, found, name⟩ := Option.map_eq_some_iff.mp struck
  rw [none, found] at stale
  exact call.name_ne_empty stale.symm

end Faltering

end CilWeave.Machine
