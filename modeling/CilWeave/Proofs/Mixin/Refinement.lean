import CilWeave.Proofs.Mixin.Resolution
import CilWeave.Proofs.Mixin.Simulation

/-!
Calls in a woven program, compared with calls in which the interposed machine runs the original body.
-/

namespace CilWeave

open Machine Stateful

/-- A call goes through some states and comes to an end. -/
def Machine.Store.Calls (store : Store) (program : Program) (limits : Limits) (call : Call) (history : List State)
    (ending : Ending) : Prop :=
  match enterFrame limits 0 store.method call with
  | .error fault => history = [] ∧ ending = (.error fault, store)
  | .ok frame => Ends (Machine.go program limits) ⟨store.enter call, frame, []⟩ history ending

/-- A call that is not cut off goes through some states. -/
theorem Machine.Store.calls_of_call {store : Store} {program : Program} {limits : Limits} {call : Call} {ending : Ending}
    (called : store.call program limits call = ending)
    (within : ending.1 ≠ .error (.instructionLimit limits.maxInstructions)) :
    ∃ history, store.Calls program limits call history ending := by
  unfold Store.call at called
  unfold Store.Calls
  cases entered : enterFrame limits 0 store.method call with
  | error fault =>
      rw [entered] at called
      exact ⟨[], rfl, called.symm⟩
  | ok frame =>
      rw [entered] at called
      exact run_ends called within

namespace Interposition

variable (interposition : Interposition)

/-- A call that the interposed machine carries out. -/
def Calls (program : Program) (limits : Limits) (store : Store) (call : Call) (steps : List Interposed)
    (ending : Ending) : Prop :=
  match enterFrame limits 0 store.method call with
  | .error fault => steps = [] ∧ ending = (.error fault, store)
  | .ok frame =>
    Ends (fun interposed => interposition.go limits interposed program)
      ⟨⟨store.enter call, (interposition.receive frame).1, []⟩, (interposition.receive frame).2, []⟩ steps ending

variable {interposition} {program : Program} {limits : Limits} {entry : InstrId → InstrId} {start : Nat → Nat}

/-- Calls in the woven program are matched by calls of the interposed machine: they end alike, and on the
way show the same. -/
theorem calls_agree (serves : interposition.Serves program) (layered : interposition.Layered entry start)
    (closed : interposition.Closed) {store : Store} {call : Call} {history : List State} {ending : Ending}
    (calls : store.Calls program limits call history ending)
    (within : ending.1 ≠ .error (.instructionLimit limits.maxInstructions)) :
    ∃ steps final, interposition.Calls program limits store call steps final ∧ Agree final ending ∧
      steps.flatMap Interposed.shows = history.flatMap interposition.sees := by
  unfold Store.Calls at calls
  unfold Calls
  cases entered : enterFrame limits 0 store.method call with
  | error fault =>
      rw [entered] at calls
      obtain ⟨rfl, rfl⟩ := calls
      exact ⟨[], _, ⟨rfl, rfl⟩, ⟨rfl, rfl⟩, rfl⟩
  | ok frame =>
      rw [entered] at calls
      obtain ⟨_, -, -, made⟩ := enterFrame_ok entered
      have begins : frame.position = 0 := by rw [made]
      have starts : interposition.Simulates entry start
          ⟨⟨store.enter call, (interposition.receive frame).1, []⟩, (interposition.receive frame).2, []⟩
          ⟨store.enter call, frame, []⟩ :=
        ⟨bare_of_parts rfl (receive_bare frame).1.symm rfl, Placed.entered layered begins, trivial⟩
      exact (calls.unlimited within).reflected (fun _ _ simulates => simulates.steps serves layered closed) starts

end Interposition

namespace CallbackSite

theorem length_paramSources (site : CallbackSite) (next : UInt16) (roles : List ParamRole) :
    (site.paramSources next roles).length = roles.length := by
  induction roles generalizing next with
  | nil => rfl
  | cons role rest ih => cases role <;> simp [paramSources, ih]

theorem length_sources (site : CallbackSite) : site.sources.length = site.params.length + site.hasThis.toNat := by
  unfold sources
  cases site.hasThis <;> simp [length_paramSources]

end CallbackSite

namespace Injection

/-- The interposed machine for an injection. A method that is cancelled without a value returns the
default of the carrier's value. -/
def interposition (injection : Injection) (host : TypeDef) (callback : MethodDef) : Interposition :=
  { injection.splice with
    host
    callback
    returnsValue := !injection.target.returns.isVoid
    unset :=
      match injection.carrier with
      | some (_, .generic _ (value :: _)) => Value.default value
      | _ => .void }

variable {injection : Injection} {program : Program} {host : TypeDef} {callback : MethodDef}

theorem closed (valid : injection.body.validate = .ok ()) : (injection.interposition host callback).Closed := by
  obtain ⟨distinct, targets⟩ := Body.validate_ok valid
  exact ⟨distinct, fun instruction member => (targets instruction member).2⟩

/-- The name of a callback is no name of a member that needs no definition. -/
theorem not_builtin (ordinary : program.carrierKind? injection.context.targetSig = none) (args : List Value) :
    Action.builtin? program injection.site.callback args = pure none := by
  obtain ⟨rest, name⟩ := injection.callback_name
  have mark : '_' ∈ injection.site.callback.name.toList := by
    rw [show injection.site.callback.name = injection.callback.name from rfl, name]
    simp
  have declaring : injection.site.callback.declaring = injection.context.targetSig := rfl
  unfold Action.builtin?
  rw [declaring, ordinary]
  dsimp only
  split
  · rename_i same
    rw [same] at mark
    simp at mark
  · rename_i same
    rw [same] at mark
    simp at mark
  · rename_i same
    rw [same] at mark
    simp at mark
  · rfl

theorem cancel_target {target : InstrId} (chosen : injection.cancel = .branch target) : target ∈ injection.body.ids := by
  rcases MixinContext.cancelAction_ok (injection.cancels.trans (congrArg Except.ok chosen)) with
    ⟨line, id, found, same⟩ | back
  · cases same
    have located : target ∈ injection.body.locate (.instruction line) := by
      simp only [Body.locate, found, Option.toList_some, List.mem_singleton]
    exact Body.mem_locate located
  · cases back

theorem cancel_return {withValue : Bool} (chosen : injection.cancel = .return withValue) :
    withValue = !injection.target.returns.isVoid := by
  rcases MixinContext.cancelAction_ok (injection.cancels.trans (congrArg Except.ok chosen)) with ⟨_, _, -, same⟩ | back
  · cases same
  · exact CancelAction.return.inj back

/-- In a program that has the woven type, the injected call goes to the callback. -/
theorem serves (resolved : program.method? injection.site.callback = some (host, callback))
    (alike : injection.callback.Alike callback)
    (ordinary : program.carrierKind? injection.context.targetSig = none)
    (carries : ∀ slot members, injection.slot = some (slot, members) →
      (injection.interposition host callback).Carries program members)
    (getter : ∀ slot members, injection.slot = some (slot, members) → injection.target.returns.isVoid = false →
      members.returnValue.isSome = true) :
    (injection.interposition host callback).Serves program := by
  obtain ⟨static, count, -⟩ := injection.accepted
  refine ⟨resolved, injection.not_builtin ordinary, ?_, ?_, carries, ?_, fun target chosen => cancel_target chosen⟩
  · show (injection.callback.ref injection.context.targetSig).params.length + (!injection.callback.isStatic).toNat = _
    rw [CallbackSite.length_sources, callback_isStatic]
    show injection.callback.paramTypes.length + _ = injection.descriptor.params.length + _
    rw [← count, ← callback_params]
    simp only [MethodDef.paramTypes, List.length_map]
    rfl
  · obtain ⟨body, rfl⟩ := alike
    rfl
  · intro slot members withValue held chosen
    have value := cancel_return chosen
    refine ⟨value, fun holds => getter slot members held ?_⟩
    simpa [holds] using value

theorem no_slot (plain : injection.descriptor.cancellable = false) : injection.slot = none := by
  have none : injection.carrier = none := by simpa [plain] using injection.carried
  rw [slot, none]
  rfl

end Injection

/-- Calls in a woven program go as if the callback had been called in front of each place. -/
theorem Injection.calls_agree {injection : Injection} {program : Program} {host : TypeDef} {callback : MethodDef}
    (serves : (injection.interposition host callback).Serves program) (valid : injection.body.validate = .ok ())
    (supplies : injection.body.Supplies injection.written) {limits : Limits} {store : Store} {call : Call} {ending : Ending}
    (called : store.call program limits call = ending)
    (within : ending.1 ≠ .error (.instructionLimit limits.maxInstructions)) :
    ∃ history steps final, store.Calls program limits call history ending ∧
      (injection.interposition host callback).Calls program limits store call steps final ∧
      Interposition.Agree final ending ∧
      steps.flatMap Interposed.shows = history.flatMap (injection.interposition host callback).sees := by
  obtain ⟨history, calls⟩ := Store.calls_of_call called within
  obtain ⟨-, entry, start, layered⟩ := injection.layered (Body.validate_ok valid).1 supplies
  have placed : (injection.interposition host callback).Layered entry start := layered
  obtain ⟨steps, final, reference, agree, same⟩ :=
    Interposition.calls_agree serves placed (injection.closed valid) calls within
  exact ⟨history, steps, final, calls, reference, agree, same⟩

namespace Truth

/-- Whether a number is other than zero. -/
def code : Body :=
  ⟨8, true, #[],
    #[⟨0, .ldarg0, .none⟩, ⟨1, .brtrueS, .target 4⟩, ⟨2, .ldcI40, .none⟩, ⟨3, .brS, .target 5⟩,
      ⟨4, .ldcI41, .none⟩, ⟨5, .ret, .none⟩], 0⟩

def number : ParamDef := ⟨"x", .primitive .int32, []⟩

def test : MethodDef := ⟨"Test", ⟨MethodFlags.isStatic⟩, .primitive .int32, [number], some code, []⟩

def type : TypeDef := { TypeDef.empty "" "T" ⟨0⟩ none with methods := [test] }

def target : Module := ⟨"Game", [], [type]⟩

def notice : MethodDef :=
  ⟨"notice", ⟨MethodFlags.isStatic⟩, .void, [number], some ⟨8, true, #[], #[⟨0, .ret, .none⟩], 0⟩, []⟩

def mixinType : TypeDef := { TypeDef.empty "" "M" ⟨0⟩ none with methods := [notice] }

def descriptor : InjectDescriptor :=
  ⟨0, "notice", "System.Int32 T::Test(System.Int32)", .return, false, .return, 1, [.argument]⟩

def mixin : MixinDescriptor := ⟨"M", .type "T", 0, [], [.inject descriptor]⟩

def engine : MixinEngine := ⟨.standard, ⟨"Mods", [], [mixinType]⟩, .ofList [("M", "T")], ⟨[]⟩⟩

def before : PatchState := ⟨type, ⟨"M", "T", 0, 0, 0, 0, []⟩, []⟩

def context : MixinContext := ⟨mixin, mixinType, "T", type.sig, ⟨.standard, "Mods", "Game", "M", engine.types, .empty⟩⟩

def after : PatchState := (context.applyInject descriptor before).toOption.getD before

theorem applied : context.applyInject descriptor before = .ok after := ok_of_isOk before (by decide +kernel)

def injection : Injection := .of applied 0 notice test code none (.return true) rfl rfl rfl rfl rfl rfl

def woven : Module := MixinEngine.finish target 0 context.home [] after

theorem accepted : engine.apply target mixin .empty = (.ok (after.applied, woven), .empty) := by
  have subjects : engine.subjects target mixin = .ok (0, type, mixinType) := rfl
  have begun : engine.begin target mixin type mixinType = .ok (before, context) := rfl
  have worked : engine.applyOps context target mixin.ops .empty before = (.ok after, .empty) := by
    simp only [mixin, MixinEngine.applyOps, MixinEngine.applyOp, applied]
  exact MixinEngine.apply_of_ran subjects begun worked

theorem injects : engine.Injects target mixin .empty injection :=
  ⟨0, type, mixinType, before, .empty, [], [], rfl, rfl, rfl, rfl⟩

def program : Program := .ofModules .standard [woven]

def call (value : Int32) : Call := ⟨type, { test with body := some injection.woven }, [.int32 value], .drop⟩

def ending : Ending := Store.empty.call program .standard (call 1)

end Truth

namespace Crowded

/-- A branch to the return. One identity is left above that of the return. -/
def code : Body := ⟨8, true, #[], #[⟨0, .brS, .target 4294967294⟩, ⟨4294967294, .ret, .none⟩], 0⟩

def test : MethodDef := ⟨"Test", ⟨MethodFlags.isStatic⟩, .void, [Truth.number], some code, []⟩

def type : TypeDef := { TypeDef.empty "" "T" ⟨0⟩ none with methods := [test] }

def target : Module := ⟨"Game", [], [type]⟩

def descriptor : InjectDescriptor := { Truth.descriptor with targetMethod := "System.Void T::Test(System.Int32)" }

def mixin : MixinDescriptor := { Truth.mixin with ops := [.inject descriptor] }

def before : PatchState := { Truth.before with type }

def context : MixinContext := { Truth.context with mixin, targetSig := type.sig }

def after : PatchState := (context.applyInject descriptor before).toOption.getD before

theorem applied : context.applyInject descriptor before = .ok after := ok_of_isOk before (by decide +kernel)

def injection : Injection := .of applied 0 Truth.notice test code none (.return false) rfl rfl rfl rfl rfl rfl

def woven : Module := MixinEngine.finish target 0 context.home [] after

theorem accepted : Truth.engine.apply target mixin .empty = (.ok (after.applied, woven), .empty) := by
  have subjects : Truth.engine.subjects target mixin = .ok (0, type, Truth.mixinType) := rfl
  have begun : Truth.engine.begin target mixin type Truth.mixinType = .ok (before, context) := rfl
  have worked : Truth.engine.applyOps context target mixin.ops .empty before = (.ok after, .empty) := by
    simp only [mixin, MixinEngine.applyOps, MixinEngine.applyOp, applied]
  exact MixinEngine.apply_of_ran subjects begun worked

theorem injects : Truth.engine.Injects target mixin .empty injection :=
  ⟨0, type, Truth.mixinType, before, .empty, [], [], rfl, rfl, rfl, rfl⟩

def program : Program := .ofModules .standard [woven]

def call : Call := ⟨type, { test with body := some injection.woven }, [.int32 1], .drop⟩

end Crowded

end CilWeave
