import CilWeave.Proofs.Mixin.References
import CilWeave.Proofs.Signature.MovedNames

/-!
Interfaces that mixins implement. The definition is looked for in the target, then among the mixins, then in other
assemblies; for each of its methods that is not static, the mixin's first method of the same name and parameters is
moved onto the target as an instance method. Neither the kind of that method nor what it returns is looked at.
-/

namespace CilWeave

open Stateful

/-- Where the definition of an interface was found. -/
inductive Provider where
  | target
  | mixins
  | assembly (name : String)
deriving DecidableEq

/-- The definition of an interface, with where it was found. -/
def MixinEngine.provided? (engine : MixinEngine) (assemblies : Assemblies) (target : Module) (interface : TypeSig) :
    Option (Provider × TypeDef) :=
  interface.reference?.bind fun reference =>
    match target.resolveType? reference with
    | some type => some (.target, type)
    | none =>
      match engine.mixinModule.resolveType? reference with
      | some type => some (.mixins, type)
      | none =>
        match reference.scope with
        | none => assemblies.modules.entries.findSome? fun entry =>
            (entry.2.type? reference.fullName).map (.assembly entry.1, ·)
        | some scope =>
          match (assemblies.resolve engine.disk scope).1 with
          | .ok module => (module.type? reference.fullName).map (.assembly scope, ·)
          | .error _ => none

/-- What an interface is looked up as is what is found there. -/
theorem MixinEngine.resolveInterface_provided (engine : MixinEngine) (assemblies : Assemblies) (target : Module)
    (interface : TypeSig) :
    (engine.resolveInterface assemblies target interface).1 =
      (engine.provided? assemblies target interface).map Prod.snd := by
  unfold resolveInterface provided?
  cases interface.reference? with
  | none => rfl
  | some reference =>
      dsimp only [Option.bind_some]
      cases target.resolveType? reference with
      | some type => rfl
      | none =>
          rw [Option.none_or]
          cases engine.mixinModule.resolveType? reference with
          | some type => rfl
          | none =>
              dsimp only
              cases reference.scope with
              | none =>
                  simp only [Assemblies.findType?, List.findSome?_map, List.map_findSome?, Function.comp_def, Option.map_map]
              | some scope =>
                  dsimp only
                  rcases assemblies.resolve engine.disk scope with ⟨fault | module, known⟩
                  · rfl
                  · simp [Function.comp_def]

namespace MixinEngine

/-- An accepted operation of a mixin for an interface, whose methods were those of the given definition. -/
def Implements (engine : MixinEngine) (target : Module) (mixin : MixinDescriptor) (assemblies : Assemblies)
    (context : MixinContext) (interface : TypeSig) (provider : Provider) (definition : TypeDef) (state after : PatchState) :
    Prop :=
  ∃ index type mixinDef mapped earlier later between known, engine.subjects target mixin = .ok (index, type, mixinDef) ∧
    engine.begin target mixin type mixinDef = .ok (mapped, context) ∧
      mixin.ops = earlier ++ .implements interface :: later ∧
    engine.applyOps context target earlier assemblies { mapped with seen := [] } = (.ok state, between) ∧
    engine.provided? between target interface = some (provider, definition) ∧
    engine.applyOp context target between state (.implements interface) = (.ok after, known)

variable {engine : MixinEngine} {target : Module} {mixin : MixinDescriptor} {assemblies : Assemblies} {context : MixinContext}
  {interface : TypeSig} {provider : Provider} {definition : TypeDef} {state after : PatchState}

/-- An interface that is accepted has a definition. -/
theorem Works.implements (works : engine.Works target mixin assemblies context (.implements interface) state after) :
    ∃ provider definition, engine.Implements target mixin assemblies context interface provider definition state after := by
  obtain ⟨index, type, mixinDef, mapped, earlier, later, between, known, subjects, begun, split, ran, one⟩ := works
  obtain ⟨definition, _, _, found, -⟩ := MixinContext.applyImplements_ok (congrArg Prod.fst one)
  obtain ⟨⟨provider, _⟩, provided, rfl⟩ :=
    Option.map_eq_some_iff.mp ((engine.resolveInterface_provided between target interface).symm.trans found)
  exact ⟨provider, _, index, type, mixinDef, mapped, earlier, later, between, known, subjects, begun,
    split, ran, provided, one⟩

theorem Implements.works
    (implemented : engine.Implements target mixin assemblies context interface provider definition state after) :
    engine.Works target mixin assemblies context (.implements interface) state after := by
  obtain ⟨index, type, mixinDef, mapped, earlier, later, between, known, subjects, begun, split, ran, -, one⟩ := implemented
  exact ⟨index, type, mixinDef, mapped, earlier, later, between, known, subjects, begun, split, ran, one⟩

/-- The name of the module that a definition comes from. -/
def providerName (engine : MixinEngine) (target : Module) : Provider → String
  | .target => target.name
  | .mixins => engine.mixinModule.name
  | .assembly name => name

end MixinEngine

namespace MixinContext

/-- A method was made from the mixin's answer to a method of an interface. -/
def Ports (context : MixinContext) (asked method : MethodDef) : Prop :=
  ∃ patch, context.answer? asked = some patch ∧ patch.body.isSome = true ∧
    method = context.home.method patch asked.name .interfaceImplementation

variable {context : MixinContext} {interface : TypeDef} {state after : PatchState} {asked methods : List MethodDef}

/-- There is a method for each of an interface's, in their order. -/
theorem portInterfaceMethods_ports (ported : context.portInterfaceMethods interface asked state = .ok (after, methods)) :
    List.Forall₂ context.Ports asked methods := by
  obtain ⟨answers, implemented⟩ := portInterfaceMethods_ok ported
  rw [← implemented.asked, implemented.made, List.forall₂_map_left_iff, List.forall₂_map_right_iff, List.forall₂_same]
  intro answer member
  obtain ⟨found, defined⟩ := implemented.answered answer member
  exact ⟨answer.2, found, defined, rfl⟩

end MixinContext

/-- The signature as seen from outside of its module: what it names without a scope is in that module. -/
def TypeSig.within (module : String) (sig : TypeSig) : TypeSig :=
  sig.mapRefs fun reference => if reference.scope = none then reference.withScope (some module) else reference

mutual

theorem TypeSig.fullName_mapRefs {rename : TypeRef → TypeRef}
    (kept : ∀ reference, (rename reference).fullName = reference.fullName)
    (sig : TypeSig) : (sig.mapRefs rename).fullName = sig.fullName := by
  cases sig with
  | classType reference | valueType reference => exact kept reference
  | generic reference arguments => simp only [mapRefs, fullName, kept, fullNames_mapRefsAll kept arguments]
  | byRef target => simp only [mapRefs, fullName, target.fullName_mapRefs kept]
  | array element => simp only [mapRefs, fullName, element.fullName_mapRefs kept]
  | _ => rfl

theorem TypeSig.fullNames_mapRefsAll {rename : TypeRef → TypeRef}
    (kept : ∀ reference, (rename reference).fullName = reference.fullName) (sigs : List TypeSig) :
    fullNames (mapRefsAll rename sigs) = fullNames sigs := by
  cases sigs with
  | nil => rfl
  | cons sig rest => simp only [mapRefsAll, fullNames, sig.fullName_mapRefs kept, fullNames_mapRefsAll kept rest]

end

theorem TypeSig.fullName_within (module : String) (sig : TypeSig) : (sig.within module).fullName = sig.fullName :=
  sig.fullName_mapRefs fun _ => by split <;> rfl

/-- An argument of a method: its instance, or one of its parameters. -/
inductive MethodDef.Argument where
  | this
  | parameter (param : ParamDef)

namespace MethodDef

/-- What an argument index means in the code of a method. -/
def argumentAt? (method : MethodDef) (index : Nat) : Option Argument :=
  ((if method.isStatic then [] else [.this]) ++ method.params.map .parameter)[index]?

/-- Parameters that were moved are still the arguments of the same index. -/
def Argument.move (home : Rehoming) : Argument → Argument
  | .this => .this
  | .parameter param => .parameter (home.param param)

/-- A method keeps its arguments if it is moved as what it is. -/
theorem argumentAt?_method {home : Rehoming} {patch : MethodDef} {name : String} {flags : MethodFlags}
    (same : (home.method patch name flags).isStatic = patch.isStatic) (index : Nat) :
    (home.method patch name flags).argumentAt? index = (patch.argumentAt? index).map (Argument.move home) := by
  rw [argumentAt?, argumentAt?, same, ← List.getElem?_map, List.map_append, List.map_map]
  cases patch.isStatic <;> simp [Rehoming.method, Argument.move, Function.comp_def]

end MethodDef

namespace MixinContext

/-- The mixin's method for one of an interface's is an instance method that returns what it should, and the types of both
can be read back and name no type of another module like a mixin. -/
structure Fulfils (context : MixinContext) (provider : String) (asked patch : MethodDef) : Prop where
  instance_ : patch.isStatic = false
  returns : patch.returns.fullName = asked.returns.fullName
  ordinary : ∀ sig ∈ patch.returns :: patch.paramTypes, sig.Ordinary ∧ context.home.Owns sig
  expected : ∀ sig ∈ asked.returns :: asked.paramTypes,
    (sig.within provider).Ordinary ∧ context.home.Owns (sig.within provider)

/-- A method of the target does for a method of an interface: it is an instance method of its name that takes and returns
what the other does, once moved, and a copy of an instance method of the mixin in which arguments mean the same. -/
structure Serves (context : MixinContext) (provider : String) (asked method : MethodDef) : Prop where
  isStatic : method.isStatic = false
  name : method.name = asked.name
  params : TypeSig.fullNames method.paramTypes =
    TypeSig.fullNames (asked.paramTypes.map fun sig => context.home.sig (sig.within provider))
  returns : method.returns.fullName = (context.home.sig (asked.returns.within provider)).fullName
  copied : ∃ patch ∈ context.mixinDef.methods, patch.isStatic = false ∧
    method.body = patch.body.map context.home.body ∧ patch.body.isSome = true ∧
    ∀ index, method.argumentAt? index = (patch.argumentAt? index).map (MethodDef.Argument.move context.home)

variable {context : MixinContext} {provider : String} {asked method : MethodDef}

theorem Ports.serves (ports : context.Ports asked method)
    (fulfilled : ∀ patch, context.answer? asked = some patch → context.Fulfils provider asked patch) :
    context.Serves provider asked method := by
  obtain ⟨patch, found, defined, rfl⟩ := ports
  obtain ⟨own, returns, ordinary, expected⟩ := fulfilled patch found
  have instance_ : (context.home.method patch asked.name .interfaceImplementation).isStatic = false := by
    show FlagNames.contains MethodFlags.interfaceImplementation.bits MethodFlags.isStatic = false
    decide
  have joined : TypeSig.joinNames patch.paramTypes = TypeSig.joinNames asked.paramTypes := by
    have holds := List.find?_some found
    simp only [Bool.and_eq_true, beq_iff_eq] at holds
    exact holds.2
  refine ⟨instance_, rfl, ?_, ?_, patch, List.mem_of_find?_eq_some found, own, rfl, defined,
    fun index => MethodDef.argumentAt?_method (instance_.trans own.symm) index⟩
  · have asks : TypeSig.joinNames (asked.paramTypes.map (TypeSig.within provider)) = TypeSig.joinNames asked.paramTypes := by
      simp only [TypeSig.joinNames, TypeSig.fullNames_eq_map, List.map_map, Function.comp_def, TypeSig.fullName_within]
    have moved := Rehoming.fullNames_sig_congr (fun sig member => ordinary sig (List.mem_cons_of_mem _ member))
      (fun sig member => by
        obtain ⟨old, listed, rfl⟩ := List.mem_map.mp member
        exact expected old (List.mem_cons_of_mem _ listed)) (joined.trans asks.symm)
    simpa [Rehoming.method, Rehoming.param, MethodDef.paramTypes, Function.comp_def] using moved
  · obtain ⟨plain, owned⟩ := ordinary patch.returns List.mem_cons_self
    obtain ⟨plain', owned'⟩ := expected asked.returns List.mem_cons_self
    exact Rehoming.fullName_sig_congr plain plain' owned owned' (returns.trans (asked.returns.fullName_within provider).symm)

end MixinContext

namespace MixinEngine

variable {engine : MixinEngine} {target woven : Module} {mixin : MixinDescriptor} {assemblies known : Assemblies}
  {applied : AppliedMixin} {context : MixinContext} {interface : TypeSig} {provider : Provider} {definition : TypeDef}
  {state after : PatchState}

/-- What an accepted interface adds are the mixin's answers to its methods, in their order. -/
theorem Implements.ports
    (implemented : engine.Implements target mixin assemblies context interface provider definition state after) :
    ∃ added, after.type.methods = state.type.methods ++ added ∧
      List.Forall₂ context.Ports (definition.methods.filter fun method => !method.isStatic) added := by
  obtain ⟨_, _, _, _, _, _, between, _, -, -, -, -, provided, one⟩ := implemented
  obtain ⟨found, _, added, resolved, ported, type, -⟩ := MixinContext.applyImplements_ok (congrArg Prod.fst one)
  have looked : (engine.resolveInterface between target interface).1 = some definition := by
    rw [resolveInterface_provided, provided]
    rfl
  cases looked.symm.trans resolved
  exact ⟨added, congrArg TypeDef.methods type, MixinContext.portInterfaceMethods_ports ported⟩

/-- The target's type in the module that an accepted mixin leaves has grown out of what an interface left. -/
theorem Implements.hosted (accepted : engine.apply target mixin assemblies = (.ok (applied, woven), known))
    (implemented : engine.Implements target mixin assemblies context interface provider definition state after) :
    ∃ host, woven.type? mixin.target.fullName = some host ∧ after.type.Extends host := by
  obtain ⟨index, type, mixinDef, mapped, earlier, later, between, reached, subjects, begun, split,
    ran, -, one⟩ := implemented
  rw [List.append_cons] at split
  obtain ⟨-, host, found, extended⟩ := hosts subjects begun split (applyOps_concat ran one) accepted
  exact ⟨host, found, extended⟩

/-- If a mixin fulfils an interface, the target gets a method for each of the interface's that is not static, in order, and
has it in the end, with the body that overwrites and injections leave. -/
theorem interface_served (accepted : engine.apply target mixin assemblies = (.ok (applied, woven), known))
    (implemented : engine.Implements target mixin assemblies context interface provider definition state after)
    (fulfilled : ∀ asked ∈ definition.methods, asked.isStatic = false → ∀ patch, context.answer? asked = some patch →
      context.Fulfils (engine.providerName target provider) asked patch) :
    ∃ added host, after.type.methods = state.type.methods ++ added ∧
      List.Forall₂ (context.Serves (engine.providerName target provider))
        (definition.methods.filter fun method => !method.isStatic) added ∧
      woven.type? mixin.target.fullName = some host ∧
      ∀ (position : Nat) (method : MethodDef), added[position]? = some method →
        ∃ held, host.methods[state.type.methods.length + position]? = some held ∧ method.Alike held := by
  obtain ⟨added, methods, ports⟩ := implemented.ports
  obtain ⟨host, found, extended⟩ := implemented.hosted accepted
  refine ⟨added, host, methods, ?_, found, fun position method held => ?_⟩
  · have each : ∀ asked ∈ definition.methods.filter fun method => !method.isStatic, asked ∈ definition.methods ∧
        asked.isStatic = false := by
      intro asked member
      simpa using List.mem_filter.mp member
    refine List.Forall₂.imp ?_ ((List.forall₂_and_left _ _).mpr ⟨each, ports⟩)
    exact fun asked method ⟨⟨member, own⟩, ports⟩ => ports.serves (fulfilled asked member own)
  · refine extended.grows.methods _ _ ?_
    rw [methods, List.getElem?_append_right (Nat.le_add_right _ _), Nat.add_sub_cancel_left, held]

end MixinEngine

namespace Peer

def other : ParamDef := ⟨"other", .classType ⟨none, "", "M"⟩, []⟩

def same : MethodDef :=
  ⟨"Same", ⟨0⟩, .primitive .boolean, [other],
    some ⟨8, true, #[], #[⟨0, .ldarg0, .none⟩, ⟨1, .ldarg1, .none⟩, ⟨2, .ceq, .none⟩, ⟨3, .ret, .none⟩], 0⟩,
      []⟩

def definition : TypeDef :=
  { TypeDef.empty "" "I" ⟨TypeFlags.isInterface⟩ none with methods := [{ same with body := none }] }

/-- A mixin with a method that takes another of its type, as the interface asks. -/
def mixinType : TypeDef :=
  { TypeDef.empty "" "M" ⟨0⟩ none with
    methods := [same]
    attributes := [Deeper.marked .mixin [.type "T"], Deeper.marked .implements [.type "I"]] }

def type : TypeDef := TypeDef.empty "" "T" ⟨0⟩ none

def target : Module := ⟨"Game", [], [type]⟩

def interface : TypeSig := .classType ⟨none, "", "I"⟩

def mixin : MixinDescriptor := ⟨"M", .type "T", 0, [], [.implements interface]⟩

def engine : MixinEngine := Weaver.engine (.new .standard target ⟨"Mods", [], [definition, mixinType]⟩ ⟨[]⟩) [mixin]

def context : MixinContext :=
  ⟨mixin, mixinType, "T", type.sig, ⟨.standard, "Mods", "Game", "M", Weaver.targets [mixin], .empty⟩⟩

def before : PatchState := ⟨type, ⟨"M", "T", 0, 0, 0, 0, []⟩, []⟩

def after : PatchState := (engine.applyOp context target .empty before (.implements interface)).1.toOption.getD before

theorem implemented : engine.Implements target mixin .empty context interface .mixins definition before after :=
  ⟨0, type, mixinType, before, [], [], .empty, .empty, rfl, rfl, rfl, rfl, rfl,
    Prod.ext (ok_of_isOk before (by decide +kernel)) rfl⟩

def applied : AppliedMixin × Module := ((engine.apply target mixin .empty).1.toOption).getD default

/-- The method takes another of the target's type. -/
theorem interface_served_same :
    (engine.apply target mixin .empty).1 = .ok applied ∧
      engine.Implements target mixin .empty context interface .mixins definition before after ∧
      (∀ asked ∈ definition.methods, asked.isStatic = false → ∀ patch, context.answer? asked = some patch →
        context.Fulfils "Mods" asked patch) ∧
      ∃ method host, after.type.methods = [method] ∧ context.Serves "Mods" { same with body := none } method ∧
        TypeSig.fullNames method.paramTypes = ["T"] ∧ applied.2.type? "T" = some host ∧
        ∃ held, host.methods[0]? = some held ∧ method.Alike held := by
  have accepted : (engine.apply target mixin .empty).1 = .ok applied := ok_of_isOk default (by decide +kernel)
  have fulfilled : ∀ asked ∈ definition.methods, asked.isStatic = false →
    ∀ patch, context.answer? asked = some patch →
      context.Fulfils "Mods" asked patch := by
    intro asked member _ patch found
    cases List.mem_singleton.mp member
    cases (show context.answer? { same with body := none } = some same from rfl).symm.trans found
    exact ⟨rfl, rfl, by decide +kernel, by decide +kernel⟩
  obtain ⟨added, host, methods, serves, found, kept⟩ :=
    MixinEngine.interface_served (Prod.ext accepted rfl) implemented fulfilled
  obtain ⟨method, rest, first, others, rfl⟩ := List.forall₂_cons_left_iff.mp serves
  cases others
  refine ⟨accepted, implemented, fulfilled, method, host, methods, first, ?_, found, kept 0 method rfl⟩
  rw [first.params]
  decide +kernel

end Peer

namespace Turned

def number : ParamDef := ⟨"x", .primitive .int32, []⟩

/-- A static method that returns its argument. -/
def get : MethodDef :=
  ⟨"Get", ⟨MethodFlags.isStatic⟩, .primitive .int32, [number],
    some ⟨8, true, #[], #[⟨0, .ldarg0, .none⟩, ⟨1, .ret, .none⟩], 0⟩, []⟩

def definition : TypeDef :=
  { TypeDef.empty "" "I" ⟨TypeFlags.isInterface⟩ none with methods := [{ get with flags := ⟨0⟩, body := none }] }

def mixinType : TypeDef :=
  { TypeDef.empty "" "M" ⟨0⟩ none with
    methods := [get]
    attributes := [Deeper.marked .mixin [.type "T"], Deeper.marked .implements [.type "I"]] }

def weaver : Weaver := .new .standard Peer.target ⟨"Mods", [], [definition, mixinType]⟩ ⟨[]⟩

/-- Whether an argument is the instance, or the name of the parameter that it is. -/
def meaning : MethodDef.Argument → Option String
  | .this => none
  | .parameter param => some param.name

/-- The code returned a parameter, and returns the instance where it has been moved. -/
theorem static_turned : get.isStatic = true ∧ (get.argumentAt? 0).map meaning = some (some "x") ∧
    weaver.apply.1.isOk = true ∧
    (weaver.apply.2.target.types.flatMap (·.methods)).map (fun method =>
        (method.fullNameIn "T", method.isStatic, (method.argumentAt? 0).map meaning,
          method.body.map fun body => body.instructions.toList.map (·.opcode))) =
      [("System.Int32 T::Get(System.Int32)", false, some none, some [.ldarg0, .ret])] :=
  ⟨by decide +kernel, by decide +kernel, by decide +kernel, by decide +kernel⟩

end Turned

end CilWeave
