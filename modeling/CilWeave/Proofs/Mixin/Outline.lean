import CilWeave.Proofs.Mixin.Touched

/-!
Types by what their members are called and what code they have. Members are looked up by nothing else, and
verification, which only writes down depths, changes none of it.
-/

namespace CilWeave

open Stateful

/-- The code of a method, if it has any: its instructions and the types of its locals. -/
def MethodDef.code (method : MethodDef) : Option (Array Instruction × Array TypeSig) :=
  method.body.map fun body => (body.instructions, body.locals)

/-- A type by its name, those of its members, and the code of its methods. -/
structure TypeOutline where
  fullName : String
  fields : List String
  methods : List (String × Option (Array Instruction × Array TypeSig))

namespace TypeDef

variable (type : TypeDef)

def fieldNames : List String := type.fields.map (·.name)

/-- Full names of the methods, in order. -/
def memberNames : List String := type.methods.map fun method => method.fullNameIn type.fullName

def outline : TypeOutline where
  fullName := type.fullName
  fields := type.fieldNames
  methods := type.methods.map fun method => (method.fullNameIn type.fullName, method.code)

theorem outline_memberNames : type.outline.methods.map Prod.fst = type.memberNames := by
  rw [outline, List.map_map]
  rfl

theorem methodIndex?_eq (name : String) : type.methodIndex? name = type.memberNames.findIdx? (· == name) := by
  rw [methodIndex?, memberNames, List.findIdx?_map]
  rfl

end TypeDef

namespace Module

variable (module : Module)

def outline : List TypeOutline := module.types.map TypeDef.outline

/-- The code of the method in a place of the module. -/
def code? (place index : Nat) : Option (Option (Array Instruction × Array TypeSig)) := do
  let type ← module.outline[place]?
  let method ← type.methods[index]?
  return method.2

theorem typeIndex?_eq (name : String) :
    module.typeIndex? name = module.outline.findIdx? fun type => type.fullName == name := by
  rw [typeIndex?, outline, List.findIdx?_map]
  rfl

theorem code?_of {module : Module} {place index : Nat} {type : TypeDef} {method : MethodDef}
    (held : module.types[place]? = some type) (listed : type.methods[index]? = some method) :
    module.code? place index = some method.code := by
  simp [code?, outline, TypeDef.outline, held, listed]

variable {module}

theorem typeIndex?_of_outline {other : Module} (same : other.outline = module.outline) (name : String) :
    other.typeIndex? name = module.typeIndex? name := by
  rw [typeIndex?_eq, typeIndex?_eq, same]

/-- Modules of one outline have types of one outline in their places. -/
theorem type_of_outline {other : Module} (same : other.outline = module.outline) {place : Nat} {type : TypeDef}
    (held : other.types[place]? = some type) : ∃ twin, module.types[place]? = some twin ∧ twin.outline = type.outline := by
  have there : module.outline[place]? = some type.outline := by
    rw [← same, outline, List.getElem?_map, held]
    rfl
  rw [outline, List.getElem?_map] at there
  exact Option.map_eq_some_iff.mp there

/-- What outlines decide holds of the types of both or of neither of two modules of one outline. -/
theorem forall_types_of_outline {other : Module} (same : other.outline = module.outline) (holds : TypeOutline → Prop) :
    (∀ type ∈ other.types, holds type.outline) ↔ ∀ type ∈ module.types, holds type.outline := by
  have each (module : Module) : (∀ outline ∈ module.outline, holds outline) ↔
    ∀ type ∈ module.types, holds type.outline :=
    List.forall_mem_map
  rw [← each, ← each, same]

end Module

theorem TypeDef.method_of_outline {type twin : TypeDef} (same : twin.outline = type.outline) {index : Nat} {method : MethodDef}
    (listed : type.methods[index]? = some method) : ∃ own, twin.methods[index]? = some own ∧
      own.fullNameIn twin.fullName = method.fullNameIn type.fullName ∧ own.code = method.code := by
  have there : twin.outline.methods[index]? = some (method.fullNameIn type.fullName, method.code) := by
    rw [same, outline, List.getElem?_map, listed]
    rfl
  rw [outline, List.getElem?_map] at there
  obtain ⟨own, held, equal⟩ := Option.map_eq_some_iff.mp there
  exact ⟨own, held, congrArg Prod.fst equal, congrArg Prod.snd equal⟩

theorem map_modify_of_blind {α β : Type} (view : α → β) {change : α → α}
    (blind : ∀ item, view (change item) = view item)
    (items : List α) (index : Nat) : (items.modify index change).map view = items.map view := by
  refine List.ext_getElem? fun position => ?_
  simp only [List.getElem?_map, List.getElem?_modify]
  cases items[position]? with
  | none => rfl
  | some item => by_cases here : index = position <;> simp [here, blind]

theorem flatMap_modify_of_blind {α β : Type} {view : α → List β} {change : α → α}
    (blind : ∀ item, view (change item) = view item)
    (items : List α) (index : Nat) : (items.modify index change).flatMap view = items.flatMap view := by
  rw [List.flatMap_def, map_modify_of_blind view blind, ← List.flatMap_def]

namespace Verification

variable {config : WeaveConfig} {state after : Verification}

theorem withMaxStack_code (method : MethodDef) (depth : UInt16) : (method.withMaxStack depth).code = method.code := by
  simp [MethodDef.code, MethodDef.withMaxStack, Function.comp_def]

theorem method_outline {typeName name : String} (verified : method config typeName state name = .ok after) :
    after.module.outline = state.module.outline := by
  rcases method_ok verified with same | ⟨index, depth, same⟩
  · rw [same]
  · have blind (type : TypeDef) :
        TypeDef.outline { type with methods := type.methods.modify index fun method => method.withMaxStack depth } =
          type.outline := by
      have sized (method : MethodDef) : ((method.withMaxStack depth).fullNameIn type.fullName,
        (method.withMaxStack depth).code) =
          (method.fullNameIn type.fullName, method.code) := congrArg (Prod.mk _) (withMaxStack_code method depth)
      have methods := map_modify_of_blind (fun method : MethodDef => (method.fullNameIn type.fullName, method.code)) sized
        type.methods index
      exact congrArg (TypeOutline.mk type.fullName type.fieldNames) methods
    rw [same, Module.modifyType]
    split
    · exact map_modify_of_blind TypeDef.outline blind state.module.types _
    · rfl

theorem run_outline {module : Module} {applied : List AppliedMixin} (ran : run config module applied = .ok after) :
    after.module.outline = module.outline :=
  run_keeps (motive := fun state => state.module.outline = module.outline)
    (fun _ _ _ _ _ _ kept verified => (method_outline verified).trans kept) rfl ran

end Verification

/-- What an operation does: it adds methods behind those there are, and touches those it adds or changes. -/
structure PatchState.Advances (state after : PatchState) (added : List MethodDef) : Prop where
  fullName : after.type.fullName = state.type.fullName
  fields : after.type.fields = state.type.fields
  names : after.type.memberNames = state.type.memberNames ++ added.map fun method => method.fullNameIn state.type.fullName
  targetType : after.applied.targetType = state.applied.targetType
  touched : ∀ name ∈ state.applied.touched, name ∈ after.applied.touched
  changed : ∀ (index : Nat) (method : MethodDef), after.type.methods[index]? = some method →
    state.type.methods[index]? = some method ∨ method.fullNameIn state.type.fullName ∈ after.applied.touched
  found : ∀ name ∈ after.applied.touched, name ∈ state.applied.touched ∨ name ∈ after.type.memberNames

theorem TypeDef.mem_memberNames {type : TypeDef} {method : MethodDef} (member : method ∈ type.methods) :
    method.fullNameIn type.fullName ∈ type.memberNames := List.mem_map_of_mem member

theorem TypeDef.methodIndex?_mem {type : TypeDef} {name : String} {index : Nat} (named : type.methodIndex? name = some index) :
    ∃ method, type.methods[index]? = some method ∧ method.fullNameIn type.fullName = name := by
  obtain ⟨inside, same, -⟩ := List.findIdx?_eq_some_iff_getElem.mp named
  exact ⟨_, List.getElem?_eq_getElem inside, eq_of_beq same⟩

theorem getElem?_modify_or {α : Type} {change : α → α} {items : List α} {position index : Nat} {result : α}
    (held : (items.modify position change)[index]? = some result) :
    items[index]? = some result ∨ index = position ∧ ∃ item, items[index]? = some item ∧ result = change item := by
  rw [List.getElem?_modify] at held
  obtain ⟨old, there, rfl⟩ := Option.map_eq_some_iff.mp held
  by_cases here : position = index
  · exact .inr ⟨here.symm, old, there, by rw [if_pos here]⟩
  · exact .inl (by rw [if_neg here]; exact there)

theorem getElem?_append_or {α : Type} {items more : List α} {index : Nat} {result : α}
    (held : (items ++ more)[index]? = some result) : items[index]? = some result ∨ result ∈ more := by
  rcases Nat.lt_or_ge index items.length with less | behind
  · exact .inl (List.getElem?_append_left less ▸ held)
  · rw [List.getElem?_append_right behind] at held
    exact .inr (List.mem_of_getElem? held)

namespace PatchState

variable {state after : PatchState}

theorem advances_implements {methods : List MethodDef} {interfaces : List TypeSig}
    (type : after.type = { state.type with interfaces, methods := state.type.methods ++ methods })
    (touches : state.applied.Touches (methods.map fun method => method.fullNameIn state.type.fullName) after.applied) :
    state.Advances after methods where
  fullName := by rw [type]; rfl
  fields := by rw [type]
  names := by rw [type]; exact List.map_append
  targetType := touches.1
  touched name member := touches.2 ▸ List.mem_append_left _ member
  changed index method held := by
    rw [type] at held
    rcases getElem?_append_or held with old | new
    · exact .inl old
    · exact .inr (touches.2 ▸ List.mem_append_right _ (List.mem_map_of_mem new))
  found name member := by
    rw [touches.2] at member
    rcases List.mem_append.mp member with old | new
    · exact .inl old
    · obtain ⟨method, added, rfl⟩ := List.mem_map.mp new
      rw [type]
      exact .inr (List.mem_map_of_mem (List.mem_append_right _ added))

theorem modify_memberNames (type : TypeDef) (position : Nat) (body : Body) :
    TypeDef.memberNames
        { type with methods := type.methods.modify position fun method => { method with body := some body } } =
      type.memberNames := by
  have blind (method : MethodDef) : MethodDef.fullNameIn { method with body := some body } type.fullName =
      method.fullNameIn type.fullName := rfl
  exact map_modify_of_blind _ blind type.methods position

theorem advances_overwrite {position : Nat} {name : String} {body : Body}
    (named : state.type.methodIndex? name = some position)
    (type : after.type =
      { state.type with methods := state.type.methods.modify position fun method => { method with body := some body } })
    (touches : state.applied.Touches [name] after.applied) : state.Advances after [] where
  fullName := by rw [type]; rfl
  fields := by rw [type]
  names := by rw [type, modify_memberNames, List.map_nil, List.append_nil]
  targetType := touches.1
  touched other member := touches.2 ▸ List.mem_append_left _ member
  changed index method held := by
    rw [type] at held
    rcases getElem?_modify_or held with old | ⟨rfl, old, there, rfl⟩
    · exact .inl old
    · obtain ⟨own, same, found⟩ := TypeDef.methodIndex?_mem named
      cases there.symm.trans same
      exact .inr (touches.2 ▸ List.mem_append_right _ (List.mem_singleton.mpr found))
  found other member := by
    rw [touches.2] at member
    rcases List.mem_append.mp member with old | new
    · exact .inl old
    · obtain ⟨own, same, found⟩ := TypeDef.methodIndex?_mem named
      rw [type, modify_memberNames, List.mem_singleton.mp new, ← found]
      exact .inr (TypeDef.mem_memberNames (List.mem_of_getElem? same))

theorem Advances.trans {middle : PatchState} {one two : List MethodDef} (first : state.Advances middle one)
    (second : middle.Advances after two) : state.Advances after (one ++ two) where
  fullName := second.fullName.trans first.fullName
  fields := second.fields.trans first.fields
  names := by rw [second.names, first.names, first.fullName, List.map_append, List.append_assoc]
  targetType := second.targetType.trans first.targetType
  touched name member := second.touched name (first.touched name member)
  changed index method held := by
    rcases second.changed index method held with same | touched
    · exact (first.changed index method same).imp_right fun touched => second.touched _ touched
    · exact .inr (first.fullName ▸ touched)
  found name member := by
    rcases second.found name member with before | there
    · refine (first.found name before).imp_right fun there => ?_
      rw [second.names]
      exact List.mem_append_left _ there
    · exact .inr there

/-- An injection adds its callback and then changes a method as an overwrite does. -/
theorem advances_inject (injection : Injection) : injection.before.Advances injection.after [injection.callback] := by
  obtain ⟨-, -, -, -, -, -, -, type⟩ := injection.accepted
  obtain ⟨targetType, touched⟩ := injection.touches
  have added : injection.before.Advances (injection.before.addTouched injection.callback) [injection.callback] :=
    advances_implements rfl ⟨rfl, rfl⟩
  have named : (injection.before.addTouched injection.callback).type.methodIndex? injection.descriptor.targetMethod =
      some injection.index := by
    rw [TypeDef.methodIndex?, show (injection.before.addTouched injection.callback).type.methods =
      injection.before.type.methods ++ [injection.callback] from rfl, List.findIdx?_append]
    exact Option.or_of_isSome (congrArg Option.isSome injection.named) ▸ injection.named
  refine added.trans (advances_overwrite named type ⟨targetType, ?_⟩)
  rw [touched]
  exact (List.append_assoc _ [_] [_]).symm

end PatchState

namespace MixinEngine

variable {engine : MixinEngine} {context : MixinContext} {target : Module} {assemblies known : Assemblies}
  {state after : PatchState}

theorem applyOp_advances {op : MixinOp} (applied : engine.applyOp context target assemblies state op = (.ok after, known)) :
    ∃ added, state.Advances after added := by
  cases op with
  | implements interface =>
      obtain ⟨_, _, methods, -, -, type, touches, -⟩ := MixinContext.applyImplements_ok (congrArg Prod.fst applied)
      exact ⟨methods, PatchState.advances_implements type touches⟩
  | overwrite index name =>
      obtain ⟨_, _, position, _, -, -, named, -, -, type, touches, -⟩ :=
        MixinContext.applyOverwrite_ok (congrArg Prod.fst applied)
      exact ⟨[], PatchState.advances_overwrite named type touches⟩
  | inject descriptor =>
      obtain ⟨injection, rfl, rfl, rfl, rfl⟩ := Injection.of_applied (congrArg Prod.fst applied)
      exact ⟨[injection.callback], PatchState.advances_inject injection⟩

end MixinEngine

end CilWeave
