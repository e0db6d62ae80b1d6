import CilWeave.Proofs.Mixin.Growth

/-!
For which reasons a weave fails. Only the verification of what was touched reports stack depths. Mixins whose types have what
they are described by are refused for what the target or they themselves are like: places that code goes to are there, and the
code can always be written, so that the one thing that may be short is room for a local.
-/

namespace CilWeave

/-- The fault is that a method has no consistent stack depths. -/
def WeaveFault.ofStack : WeaveFault → Bool
  | .invalidStack _ _ => true
  | _ => false

/-- The fault is that one part of a weave has not left what the next one looks for. -/
def WeaveFault.isInternal : WeaveFault → Bool
  | .descriptor _ | .lostBody _ | .assembler _ => true
  | .body .tooManyLocals => false
  | .body _ => true
  | _ => false

/-- What does not fail for want of stack depths. -/
def Calm {α : Type} (result : Except WeaveFault α) : Prop := ∀ fault, result = .error fault → fault.ofStack = false

/-- What does not fail for want of stack depths either way, nor between the parts of a weave if something holds. -/
def Clean (holds : Prop) {α : Type} (result : Except WeaveFault α) : Prop :=
  ∀ fault, result = .error fault → fault.ofStack = false ∧ (holds → fault.isInternal = false)

section

variable {α β : Type} {fault : WeaveFault} {holds needed : Prop} {result : Except WeaveFault α}

theorem Clean.calm (clean : Clean holds result) : Calm result := fun fault failed => (clean fault failed).1

theorem Clean.mono (clean : Clean needed result) (enough : holds → needed) : Clean holds result :=
  fun fault failed => (clean fault failed).imp_right fun outside known => outside (enough known)

theorem clean_ok (value : α) : Clean holds (.ok value) := by
  intro fault same
  cases same

theorem clean_error (other : fault.ofStack = false) (outside : holds → fault.isInternal = false) :
    Clean holds (.error fault : Except WeaveFault α) := by
  intro found same
  cases same
  exact ⟨other, outside⟩

/-- A fault of neither sort. -/
theorem clean_refusal (plain : fault.ofStack = false ∧ fault.isInternal = false) :
    Clean holds (.error fault : Except WeaveFault α) := clean_error plain.1 fun _ => plain.2

theorem clean_bind_of {rest : α → Except WeaveFault β} (clean : Clean holds result)
    (cleans : ∀ value, result = .ok value → Clean holds (rest value)) : Clean holds (result >>= rest) := by
  cases ran : result with
  | ok value => exact cleans value ran
  | error fault => exact fun found same => clean found (by cases same; exact ran)

theorem clean_bind {rest : α → Except WeaveFault β} (clean : Clean holds result)
    (cleans : ∀ value, Clean holds (rest value)) :
    Clean holds (result >>= rest) :=
  clean_bind_of clean fun value _ => cleans value

theorem clean_check {condition : Prop} [Decidable condition] {rest : PUnit → Except WeaveFault α}
    (plain : fault.ofStack = false ∧ fault.isInternal = false) (clean : Clean holds (rest ⟨⟩)) :
    Clean holds (if condition then throw fault >>= rest else rest ⟨⟩) := by
  split
  · exact clean_refusal plain
  · exact clean

theorem clean_mapM {change : α → Except WeaveFault β} (clean : ∀ item, Clean holds (change item)) (items : List α) :
    Clean holds (items.mapM change) := by
  induction items with
  | nil => exact clean_ok []
  | cons item rest ih =>
      rw [List.mapM_cons]
      exact clean_bind (clean item) fun first => clean_bind ih fun others => clean_ok (first :: others)

end

namespace MarkerArgs

variable {holds : Prop} (args : MarkerArgs) (name : String) (position : Option Nat)

theorem string?_clean : Clean holds (args.string? name position) := by
  unfold string?
  split
  · exact clean_ok _
  · exact clean_refusal ⟨rfl, rfl⟩
  · split <;> exact clean_ok _

theorem type?_clean : Clean holds (args.type? name position) := by
  unfold type?
  split
  · exact clean_ok _
  · exact clean_refusal ⟨rfl, rfl⟩
  · split <;> exact clean_ok _

theorem present_clean {α : Type} (value : Option α) : Clean holds (args.present name value) := by
  cases value with
  | none => exact clean_refusal ⟨rfl, rfl⟩
  | some value => exact clean_ok value

theorem ofInteger_clean (given : Argument) : Clean holds (args.ofInteger name given) := by
  unfold ofInteger
  split
  · exact clean_ok _
  · exact clean_refusal ⟨rfl, rfl⟩

theorem string_clean : Clean holds (args.string name position) :=
  clean_bind (args.string?_clean name position) fun value => args.present_clean name value

theorem type_clean : Clean holds (args.type name position) :=
  clean_bind (args.type?_clean name position) fun value => args.present_clean name value

theorem bool_clean (missing : Bool) : Clean holds (args.bool name position missing) := by
  unfold bool
  split
  · exact clean_ok _
  · split
    · exact clean_ok _
    · exact clean_refusal ⟨rfl, rfl⟩

theorem integer_clean : Clean holds (args.integer name position) :=
  clean_bind (args.present_clean name _) fun given => args.ofInteger_clean name given

theorem integerOr_clean (missing : Int) : Clean holds (args.integerOr name position missing) := by
  unfold integerOr
  split
  · exact clean_ok _
  · exact args.ofInteger_clean name _

theorem localSlot_clean : Clean holds args.localSlot :=
  clean_bind (args.integer_clean _ _) fun _ =>
    clean_check ⟨rfl, rfl⟩ (clean_bind (args.type_clean _ _) fun _ => clean_ok _)

end MarkerArgs

namespace WeaveConfig

variable {holds : Prop} (config : WeaveConfig) (owner : String)

theorem args_clean (given : Attribute) (marker : Marker) : Clean holds (config.args given marker owner) := by
  unfold args
  dsimp only
  split
  · exact clean_ok _
  · exact clean_refusal ⟨rfl, rfl⟩

theorem paramRole_clean (param : ParamDef) : Clean holds (config.paramRole owner param) := by
  unfold paramRole
  dsimp only
  split
  · refine clean_bind (config.args_clean _ _ _) fun args => clean_bind args.localSlot_clean fun _ => ?_
    exact clean_check ⟨rfl, rfl⟩ (clean_ok _)
  · split
    · refine clean_bind (config.args_clean _ _ _) fun args => clean_bind args.localSlot_clean fun _ => ?_
      exact clean_check ⟨rfl, rfl⟩ (clean_ok _)
    · split <;> exact clean_ok _

theorem injectDescriptor_clean (index : Nat) (method : MethodDef) (given : Attribute) :
    Clean holds (config.injectDescriptor owner index method given) :=
  clean_bind (config.args_clean _ _ _) fun args =>
    clean_bind (args.string_clean _ _) fun _ =>
      clean_bind (args.string_clean _ _) fun _ =>
        clean_bind (args.bool_clean _ _ _) fun _ =>
          clean_bind (args.string?_clean _ _) fun _ =>
            clean_bind (args.integerOr_clean _ _ _) fun _ =>
              clean_check ⟨rfl, rfl⟩ (clean_bind (clean_mapM (config.paramRole_clean _) _) fun _ => clean_ok _)

theorem mixinTarget_clean (args : MarkerArgs) : Clean holds (mixinTarget owner args) := by
  refine clean_bind (args.type?_clean _ _) fun type => clean_bind (args.string?_clean _ _) fun name => ?_
  split
  · exact clean_ok _
  · exact clean_ok _
  · exact clean_refusal ⟨rfl, rfl⟩
  · exact clean_refusal ⟨rfl, rfl⟩

theorem mixinPriority_clean (args : MarkerArgs) : Clean holds (mixinPriority args) :=
  clean_bind (args.integerOr_clean _ _ _) fun _ => clean_check ⟨rfl, rfl⟩ (clean_ok _)

theorem fieldDescriptor_clean (field : FieldDef) : Clean holds (config.fieldDescriptor owner field) := by
  unfold fieldDescriptor
  split
  · exact clean_ok _
  · refine clean_bind (config.args_clean _ _ _) fun args => clean_bind (args.string?_clean _ _) fun found => ?_
    split
    · exact clean_ok _
    · exact clean_bind (args.string_clean _ _) fun _ => clean_ok _

theorem mixinDescriptor?_clean (type : TypeDef) : Clean holds (config.mixinDescriptor? type) := by
  unfold mixinDescriptor?
  split
  · exact clean_ok _
  · refine clean_bind (config.args_clean _ _ _) fun args => clean_bind (mixinTarget_clean _ args) fun _ =>
      clean_bind (mixinPriority_clean args) fun _ => clean_bind (clean_mapM (config.fieldDescriptor_clean _) _) fun _ =>
        clean_bind (clean_mapM (fun given => ?_) _) fun _ => clean_bind (clean_mapM (fun marked => ?_) _) fun _ => clean_ok _
    · exact clean_bind (config.args_clean _ _ _) fun args => clean_bind (args.type_clean _ _) fun _ => clean_ok _
    · exact clean_bind (config.injectDescriptor_clean _ _ _ _) fun _ => clean_ok _

theorem mixinDescriptors_clean (module : Module) : Clean holds (config.mixinDescriptors module) :=
  clean_bind (clean_mapM config.mixinDescriptor?_clean _) fun _ => clean_ok _

end WeaveConfig

/-- An operation is for methods that the mixin's type has, and an injection has a role for each parameter. -/
def MixinOp.Fits (mixinDef : TypeDef) : MixinOp → Prop
  | .implements _ => True
  | .overwrite index name => ∃ patch, mixinDef.methods[index]? = some patch ∧ patch.name = name
  | .inject descriptor =>
    ∃ patch, mixinDef.methods[descriptor.methodIndex]? = some patch ∧ patch.params.length = descriptor.params.length

/-- What a mixin is described by is there in its type. -/
structure MixinDescriptor.Describes (mixin : MixinDescriptor) (mixinDef : TypeDef) : Prop where
  fields : ∀ descriptor ∈ mixin.fields, (mixinDef.field? descriptor.field).isSome = true
  ops : ∀ op ∈ mixin.ops, op.Fits mixinDef

namespace MixinContext

variable {holds : Prop} (context : MixinContext)

theorem mapField_clean (state : PatchState) (descriptor : FieldDescriptor) :
    Clean ((context.mixinDef.field? descriptor.field).isSome = true) (context.mapField state descriptor) := by
  unfold mapField
  split
  · split
    · split
      · exact clean_ok _
      · exact clean_refusal ⟨rfl, rfl⟩
    · exact clean_check ⟨rfl, rfl⟩ (clean_ok _)
  · rename_i absent
    exact clean_error rfl fun found => ((Option.isSome_iff_exists.mp found).elim absent).elim

theorem mapFields_clean (descriptors : List FieldDescriptor) (state : PatchState) (fields : Table FieldRef) :
    Clean (∀ descriptor ∈ descriptors, (context.mixinDef.field? descriptor.field).isSome = true)
      (context.mapFields descriptors state fields) := by
  induction descriptors generalizing state fields with
  | nil => exact clean_ok _
  | cons descriptor rest ih =>
      refine clean_bind ((context.mapField_clean state descriptor).mono fun found => found _ List.mem_cons_self) fun _ => ?_
      exact (ih _ _).mono fun found other member => found other (List.mem_cons_of_mem _ member)

theorem portInterfaceMethod_clean (interface : TypeDef) (expected : MethodDef) (state : PatchState) :
    Clean holds (context.portInterfaceMethod interface expected state) := by
  unfold portInterfaceMethod
  dsimp only
  split
  · exact clean_check ⟨rfl, rfl⟩ (clean_ok _)
  · exact clean_refusal ⟨rfl, rfl⟩

theorem portInterfaceMethods_clean (interface : TypeDef) (expected : List MethodDef) (state : PatchState) :
    Clean holds (context.portInterfaceMethods interface expected state) := by
  induction expected generalizing state with
  | nil => exact clean_ok _
  | cons head rest ih =>
      exact clean_bind (context.portInterfaceMethod_clean interface head state) fun _ => clean_bind (ih _) fun _ => clean_ok _

theorem applyImplements_clean (sig : TypeSig) (found : Option TypeDef) (state : PatchState) :
    Clean holds (context.applyImplements sig found state) := by
  unfold applyImplements
  cases found with
  | none => exact clean_refusal ⟨rfl, rfl⟩
  | some interface => exact clean_bind (context.portInterfaceMethods_clean _ _ _) fun _ => clean_ok _

theorem patchMethod_clean (index : Nat) :
    Clean ((context.mixinDef.methods[index]?).isSome = true) (context.patchMethod index) := by
  unfold patchMethod
  split
  · exact clean_ok _
  · rename_i absent
    exact clean_error rfl fun found => absurd found (by simp [absent])

theorem applyOverwrite_clean (index : Nat) (state : PatchState) :
    Clean ((context.mixinDef.methods[index]?).isSome = true) (context.applyOverwrite index state) := by
  refine clean_bind (context.patchMethod_clean index) fun patch => ?_
  dsimp only
  split
  · refine clean_check ⟨rfl, rfl⟩ ?_
    split
    · exact clean_ok _
    · exact clean_refusal ⟨rfl, rfl⟩
  · exact clean_refusal ⟨rfl, rfl⟩

theorem carrier?_clean (patch : MethodDef) (types : List TypeSig) (descriptor : InjectDescriptor) :
    Clean holds (context.carrier? patch types descriptor) := by
  unfold carrier?
  dsimp only
  split
  · exact clean_ok _
  · exact clean_refusal ⟨rfl, rfl⟩
  · exact clean_refusal ⟨rfl, rfl⟩
  · split
    · split
      · exact clean_ok _
      · exact clean_refusal ⟨rfl, rfl⟩
    · exact clean_refusal ⟨rfl, rfl⟩

theorem checkLocals_clean (patch : MethodDef) (target : String) (body : Body) (roles : List ParamRole) :
    Clean holds (context.checkLocals patch target body roles) := by
  induction roles with
  | nil => exact clean_ok ()
  | cons role rest ih =>
      unfold checkLocals
      split
      · dsimp only
        split
        · exact ih
        · exact clean_refusal ⟨rfl, rfl⟩
      · dsimp only
        split
        · exact ih
        · exact clean_refusal ⟨rfl, rfl⟩
      · exact ih

theorem cancelAction_clean (patch : MethodDef) (target : String) (body : Body) (returns : TypeSig) (cancellable : Bool)
    (cancelTarget : CancelTarget) : Clean holds (context.cancelAction patch target body returns cancellable cancelTarget) := by
  unfold cancelAction
  split
  · split
    · exact clean_ok _
    · exact clean_refusal ⟨rfl, rfl⟩
  · exact clean_ok _

theorem planInject_clean (descriptor : InjectDescriptor) (state : PatchState) :
    Clean ((MixinOp.inject descriptor).Fits context.mixinDef) (context.planInject descriptor state) := by
  have patched := (context.patchMethod_clean descriptor.methodIndex).mono
    fun (⟨patch, held, _⟩ : (MixinOp.inject descriptor).Fits context.mixinDef) => held ▸ rfl
  refine clean_bind_of patched fun patch found => ?_
  dsimp only
  split
  · split
    · split
      · refine clean_check ⟨rfl, rfl⟩ ?_
        -- The roles were counted when the annotation was read.
        have counted : (MixinOp.inject descriptor).Fits context.mixinDef →
          patch.params.length = descriptor.params.length := by
          rintro ⟨own, held, count⟩
          rw [patchMethod, held] at found
          cases found
          exact count
        split
        · rename_i differs
          exact clean_error rfl fun fits => absurd (counted fits) differs
        refine clean_check ⟨rfl, rfl⟩ (clean_bind (context.carrier?_clean _ _ _) fun carrier => ?_)
        split
        · refine clean_check ⟨rfl, rfl⟩ ?_
          exact clean_bind (context.checkLocals_clean _ _ _ _) fun _ =>
            clean_check ⟨rfl, rfl⟩ (clean_bind (context.cancelAction_clean _ _ _ _ _ _) fun _ => clean_ok _)
        · exact clean_bind (context.checkLocals_clean _ _ _ _) fun _ =>
            clean_check ⟨rfl, rfl⟩ (clean_bind (context.cancelAction_clean _ _ _ _ _ _) fun _ => clean_ok _)
      · exact clean_refusal ⟨rfl, rfl⟩
    · exact clean_refusal ⟨rfl, rfl⟩
  · exact clean_refusal ⟨rfl, rfl⟩

/-- What is planned fails only if the carrier gets no local. -/
theorem applyInject_clean (descriptor : InjectDescriptor) (state : PatchState) :
    Clean ((MixinOp.inject descriptor).Fits context.mixinDef) (context.applyInject descriptor state) := by
  cases planned : context.planInject descriptor state with
  | error fault =>
      rw [applyInject, planned]
      exact clean_error (context.planInject_clean descriptor state fault planned).1
        (context.planInject_clean descriptor state fault planned).2
  | ok plan =>
      obtain ⟨_, _, -, -, -, -, -, -, -, -, -, -, points, -⟩ := planInject_ok planned
      rcases applyInject_of_plan planned points with ⟨after, applied⟩ | full
      · exact applied ▸ clean_ok after
      · exact full ▸ clean_refusal ⟨rfl, rfl⟩

end MixinContext

namespace MixinEngine

variable (engine : MixinEngine)

theorem applyOp_clean (context : MixinContext) (target : Module) (assemblies : Assemblies) (state : PatchState) (op : MixinOp) :
    Clean (op.Fits context.mixinDef) (engine.applyOp context target assemblies state op).1 := by
  cases op with
  | implements interface => exact context.applyImplements_clean _ _ _
  | overwrite index name =>
      exact (context.applyOverwrite_clean index state).mono fun ⟨patch, held, _⟩ => held ▸ rfl
  | inject descriptor => exact context.applyInject_clean _ _

theorem applyOps_clean (context : MixinContext) (target : Module) (ops : List MixinOp) (assemblies : Assemblies)
    (state : PatchState) :
    Clean (∀ op ∈ ops, op.Fits context.mixinDef) (engine.applyOps context target ops assemblies state).1 := by
  induction ops generalizing assemblies state with
  | nil => exact clean_ok state
  | cons op rest ih =>
      have one := engine.applyOp_clean context target assemblies state op
      unfold applyOps
      rcases ran : engine.applyOp context target assemblies state op with ⟨fault | after, known⟩
      · rw [ran] at one
        exact one.mono fun fits => fits op List.mem_cons_self
      · exact (ih known after).mono fun fits other member => fits other (List.mem_cons_of_mem _ member)

theorem subjects_clean (target : Module) (mixin : MixinDescriptor) :
    Clean ((engine.mixinModule.type? mixin.mixinType).isSome = true) (engine.subjects target mixin) := by
  unfold subjects
  dsimp only
  split
  · split
    · split
      · exact clean_ok _
      · rename_i absent
        exact clean_error rfl fun found => ((Option.isSome_iff_exists.mp found).elim absent).elim
    · exact clean_refusal ⟨rfl, rfl⟩
  · exact clean_refusal ⟨rfl, rfl⟩

/-- The mixin's type is there, and has what the mixin is described by. -/
def Knows (mixin : MixinDescriptor) : Prop :=
  ∃ mixinDef, engine.mixinModule.type? mixin.mixinType = some mixinDef ∧ mixin.Describes mixinDef

theorem apply_clean (target : Module) (mixin : MixinDescriptor) (assemblies : Assemblies) :
    Clean (engine.Knows mixin) (engine.apply target mixin assemblies).1 := by
  have found := (engine.subjects_clean target mixin).mono
    fun (⟨mixinDef, held, _⟩ : engine.Knows mixin) => held ▸ rfl
  unfold apply
  cases subjects : engine.subjects target mixin with
  | error fault => exact clean_error (found fault subjects).1 (found fault subjects).2
  | ok parts =>
      obtain ⟨index, type, mixinDef⟩ := parts
      have described (known : engine.Knows mixin) : mixin.Describes mixinDef := by
        obtain ⟨own, held, describes⟩ := known
        cases held.symm.trans (subjects_ok subjects).2.2
        exact describes
      have begun : Clean (engine.Knows mixin) (engine.begin target mixin type mixinDef) :=
        clean_bind ((MixinContext.mapFields_clean _ _ _ _).mono fun known => (described known).fields) fun _ => clean_ok _
      dsimp only
      cases begins : engine.begin target mixin type mixinDef with
      | error fault => exact clean_error (begun fault begins).1 (begun fault begins).2
      | ok mapped =>
          obtain ⟨state, context⟩ := mapped
          have defined : context.mixinDef = mixinDef := (begin_ok begins).2.2.2.1
          dsimp only
          have worked := engine.applyOps_clean context target mixin.ops assemblies { state with seen := [] }
          rcases ran : engine.applyOps context target mixin.ops assemblies
            { state with seen := [] } with ⟨fault | state, known⟩
          · rw [ran] at worked
            exact fun found same => worked.mono (fun known => defined ▸ (described known).ops) found (by cases same; rfl)
          · exact clean_ok _

end MixinEngine

namespace Weaver

theorem applyAll_clean (engine : MixinEngine) (mixins : List MixinDescriptor) (target : Module) (assemblies : Assemblies) :
    Clean (∀ mixin ∈ mixins, engine.Knows mixin) (applyAll engine mixins target assemblies).1 := by
  induction mixins generalizing target assemblies with
  | nil => exact clean_ok _
  | cons mixin rest ih =>
      have one := engine.apply_clean target mixin assemblies
      unfold applyAll
      rcases first : engine.apply target mixin assemblies with ⟨fault | ⟨applied, middle⟩, between⟩
      · rw [first] at one
        exact fun found same => one.mono (fun known => known mixin List.mem_cons_self) found (by cases same; rfl)
      · dsimp only
        have others := ih middle between
        rcases later : applyAll engine rest middle between with ⟨fault | ⟨more, woven⟩, known⟩
        · rw [later] at others
          refine fun found same => others.mono (fun known other member => ?_) found (by cases same; rfl)
          exact known other (List.mem_cons_of_mem _ member)
        · exact clean_ok _

theorem descriptors_clean (weaver : Weaver) : Clean True weaver.descriptors :=
  clean_bind (weaver.config.mixinDescriptors_clean _) fun _ => clean_ok _

/-- What a weave says when it fails. -/
def refusal? (weaver : Weaver) : Option String :=
  match weaver.apply.1 with
  | .error fault => some fault.message
  | .ok _ => none

theorem refusal?_some {weaver : Weaver} {text : String} (refused : weaver.refusal? = some text) :
    ∃ fault, weaver.apply.1 = .error fault ∧ fault.message = text := by
  unfold refusal? at refused
  split at refused
  · rename_i fault failed
    exact ⟨fault, failed, Option.some.inj refused⟩
  · cases refused

/-- A weave fails where its mixins are read, where they are applied, or where what they have touched is verified. -/
theorem apply_failed {weaver : Weaver} {fault : WeaveFault} (failed : weaver.apply.1 = .error fault) :
    weaver.descriptors = .error fault ∨ ∃ mixins, weaver.descriptors = .ok mixins ∧
      ((∃ known, applyAll (weaver.engine mixins) mixins weaver.target weaver.assemblies = (.error fault, known)) ∨
        ∃ applied woven known,
          applyAll (weaver.engine mixins) mixins weaver.target weaver.assemblies = (.ok (applied, woven), known) ∧
            Verification.run weaver.config woven applied = .error fault) := by
  unfold apply weave at failed
  cases read : weaver.descriptors with
  | error cause =>
      rw [read] at failed
      cases failed
      exact .inl rfl
  | ok mixins =>
      rw [read] at failed
      dsimp only at failed
      refine .inr ⟨mixins, rfl, ?_⟩
      rcases ran : applyAll (weaver.engine mixins) mixins weaver.target weaver.assemblies with
        ⟨cause | ⟨applied, woven⟩, known⟩
      · rw [ran] at failed
        cases failed
        exact .inl ⟨known, rfl⟩
      · rw [ran] at failed
        dsimp only at failed
        cases verified : Verification.run weaver.config woven applied with
        | error cause =>
            rw [verified] at failed
            cases failed
            exact .inr ⟨applied, woven, known, rfl, verified⟩
        | ok outcome =>
            rw [verified] at failed
            cases failed

/-- A weave that fails for want of stack depths has applied all mixins. -/
theorem apply_ofStack {weaver : Weaver} {fault : WeaveFault} (failed : weaver.apply.1 = .error fault)
    (stack : fault.ofStack = true) : ∃ mixins applied woven known, weaver.descriptors = .ok mixins ∧
      applyAll (weaver.engine mixins) mixins weaver.target weaver.assemblies = (.ok (applied, woven), known) ∧
      Verification.run weaver.config woven applied = .error fault := by
  have never {α : Type} {result : Except WeaveFault α} (calm : Calm result) (fails : result = .error fault) : False :=
    Bool.false_ne_true ((calm fault fails).symm.trans stack)
  rcases apply_failed failed with unread | ⟨mixins, read, ⟨known, refused⟩ | ⟨applied, woven, known, ran, verified⟩⟩
  · exact (never weaver.descriptors_clean.calm unread).elim
  · exact (never (applyAll_clean _ _ _ _).calm (congrArg Prod.fst refused)).elim
  · exact ⟨mixins, applied, woven, known, read, ran, verified⟩

end Weaver

end CilWeave
