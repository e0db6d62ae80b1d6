import CilWeave.Proofs.Mixin.References

/-!
What stands for the fields of a mixin. A field that is added has the type of the mixin's and is static where that one is; of a
field that is captured nothing is asked but its name, so code that is moved may use it as what it is not.
-/

namespace CilWeave

open Stateful

/-- A field that is static where one of a mixin is, and whose type is called as the type of that one when it is moved. -/
structure Rehoming.Suits (home : Rehoming) (own field : FieldDef) : Prop where
  static : field.isStatic = own.isStatic
  type : field.type.fullName = (home.sig own.type).fullName

namespace TypeDef

variable {type later : TypeDef} {name : String} {field : FieldDef}

theorem field?_of_prefix (kept : type.fields <+: later.fields) (found : type.field? name = some field) :
    later.field? name = some field := by
  obtain ⟨added, same⟩ := kept
  rw [field?] at found ⊢
  rw [← same, List.find?_append, found, Option.some_or]

theorem field?_added (free : ¬(type.field? field.name).isSome = true) :
    field? { type with fields := type.fields ++ [field] } field.name = some field := by
  rw [Bool.not_eq_true, Option.isSome_eq_false_iff, Option.isNone_iff_eq_none, field?] at free
  simp only [field?, List.find?_append, free, Option.none_or, List.find?_cons, beq_self_eq_true]

end TypeDef

namespace MixinContext

variable {context : MixinContext} {type : TypeDef} {state after : PatchState}

/-- The fields that a mixin can capture: those of the target type, and those that it adds itself. -/
def Offers (context : MixinContext) (type : TypeDef) (field : FieldDef) : Prop :=
  type.field? field.name = some field ∨ ∃ own, .add own.name ∈ context.mixin.fields ∧
    context.mixinDef.field? own.name = some own ∧
    field = ⟨own.name, own.flags, context.home.sig own.type, context.home.attributes own.attributes⟩

/-- The field that code is to use in the place of a mixin's: one that has been added for it, or one that is captured. -/
structure StandsFor (context : MixinContext) (type later : TypeDef) (own field : FieldDef) : Prop where
  held : later.field? field.name = some field
  origin : context.home.Suits own field ∨ .capture own.name field.name ∈ context.mixin.fields ∧ context.Offers type field

/-- The type has got its fields, or is getting them: what is not the target's has been added by the mixin. -/
structure Gathers (context : MixinContext) (type : TypeDef) (state : PatchState) (fields : Table FieldRef) : Prop where
  offered : ∀ name field, state.type.field? name = some field → context.Offers type field
  stand : ∀ key found, fields.get? key = some found → ∃ own field, context.mixinDef.field? key = some own ∧
    found = field.ref context.targetSig ∧ context.StandsFor type state.type own field

namespace Gathers

variable {fields mapped : Table FieldRef} {own field : FieldDef} {name : String}

theorem insert (gathers : context.Gathers type state fields) (named : context.mixinDef.field? name = some own)
    (stands : context.StandsFor type state.type own field) :
    context.Gathers type state (fields.insert name (field.ref context.targetSig)) := by
  refine ⟨gathers.offered, fun key found held => ?_⟩
  rw [Table.get?_insert] at held
  split at held
  · rename_i same
    cases held
    exact ⟨own, field, same ▸ named, rfl, stands⟩
  · exact gathers.stand key found held

theorem add (gathers : context.Gathers type state fields) (grown : after.type.fields = state.type.fields ++ [field])
    (offered : context.Offers type field) : context.Gathers type after fields := by
  constructor
  · intro name other found
    rw [TypeDef.field?, grown, List.find?_append, Option.or_eq_some_iff] at found
    rcases found with old | ⟨-, new⟩
    · exact gathers.offered name other old
    · exact List.mem_singleton.mp (List.mem_of_find?_eq_some new) ▸ offered
  · intro key found held
    obtain ⟨own, field, named, same, stands, origin⟩ := gathers.stand key found held
    exact ⟨own, field, named, same, TypeDef.field?_of_prefix (grown ▸ List.prefix_append _ _) stands, origin⟩

theorem mapField {descriptor : FieldDescriptor} {found : FieldRef} (gathers : context.Gathers type state fields)
    (member : descriptor ∈ context.mixin.fields) (mapped : context.mapField state descriptor = .ok (after, name, found)) :
    context.Gathers type after (fields.insert name found) := by
  cases mapField_iff.mp mapped with
  | captured there held => exact gathers.insert there ⟨held, .inr ⟨member, gathers.offered _ _ held⟩⟩
  | @added own there free =>
      have grown : context.Gathers type (context.withField state own) fields :=
        gathers.add rfl (.inr ⟨own, member, there, rfl⟩)
      exact grown.insert there ⟨TypeDef.field?_added free, .inl ⟨rfl, rfl⟩⟩

theorem mapFields {descriptors : List FieldDescriptor} (ran : context.mapFields descriptors state fields = .ok (after, mapped))
    (listed : ∀ descriptor ∈ descriptors, descriptor ∈ context.mixin.fields)
    (gathers : context.Gathers type state fields) :
    context.Gathers type after mapped := by
  induction descriptors generalizing state fields with
  | nil =>
      cases ran
      exact gathers
  | cons descriptor rest ih =>
      obtain ⟨member, others⟩ := List.forall_mem_cons.mp listed
      obtain ⟨⟨middle, name, field⟩, first, ran⟩ := bind_ok ran
      exact ih ran others (gathers.mapField member first)

end Gathers

end MixinContext

namespace MixinEngine

variable {engine : MixinEngine} {context : MixinContext} {target woven : Module} {assemblies known : Assemblies}
  {state after : PatchState} {mixin : MixinDescriptor} {applied : AppliedMixin} {index : Nat} {type mixinDef : TypeDef}
  {mapped : PatchState}

theorem applyOps_fields {ops : List MixinOp} (ran : engine.applyOps context target ops assemblies state = (.ok after, known)) :
    after.type.fields = state.type.fields :=
  applyOps_preserves (motive := fun later => later.type.fields = state.type.fields)
    (fun _ _ _ _ _ _ _ _ _ one kept => (applyOp_advances one).elim fun _ advances => advances.fields.trans kept) rfl ran

theorem begin_gathers (begun : engine.begin target mixin type mixinDef = .ok (mapped, context)) :
    context.Gathers type mapped context.home.fields := by
  obtain ⟨fields, rfl, ran⟩ := begin_mapped begun
  obtain ⟨offered, stand⟩ := MixinContext.Gathers.mapFields ran (fun _ => id)
    ⟨fun _ _ found => .inl (TypeDef.field?_name found ▸ found), nofun⟩
  -- The fields that have been mapped say nothing about where types move to.
  refine ⟨offered, fun key found held => ?_⟩
  obtain ⟨own, field, named, same, there, ⟨static, typed⟩ | captured⟩ := stand key found held
  · exact ⟨own, field, named, same, there, .inl ⟨static, typed⟩⟩
  · exact ⟨own, field, named, same, there, .inr captured⟩

/-- What stands for a mixin's field is a field of the target type, as the type is in the end. If all fields that the mixin
captures suit its own, every operand that is moved by way of the mixin's fields names one that does. -/
theorem captured_suit (subjects : engine.subjects target mixin = .ok (index, type, mixinDef))
    (begun : engine.begin target mixin type mixinDef = .ok (mapped, context))
    (accepted : engine.apply target mixin assemblies = (.ok (applied, woven), known))
    (captured : ∀ own field, .capture own.name field.name ∈ mixin.fields → mixinDef.field? own.name = some own →
      context.Offers type field → context.home.Suits own field)
    {reference found : FieldRef} (stands : context.home.mapped? reference = some found) :
    ∃ own host field, mixinDef.field? reference.name = some own ∧ woven.type? mixin.target.fullName = some host ∧
      woven.resolveField? found = some (host, field) ∧ found.type = field.type ∧ context.home.Suits own field := by
  obtain ⟨final, ran, hosted⟩ := apply_host subjects begun accepted
  have worked := applyOps_extends ran
  have grown : type.Extends final.type := .trans _ _ _ (begin_extends begun) worked
  have fields := applyOps_fields ran
  obtain ⟨own, field, named, same, held, origin⟩ := (begin_gathers begun).stand _ _ (Rehoming.mapped?_found stands)
  obtain ⟨-, signed, described, defined, -⟩ := begin_ok begun
  rw [defined] at named
  have called : own.name = reference.name := TypeDef.field?_name named
  have resolved : woven.resolveType? type.ref = some final.type := by
    refine Module.resolveType?_eq_some.mpr ⟨rfl, ?_⟩
    rw [show type.ref.fullName = mixin.target.fullName from subjects_fullName subjects, hosted]
  refine ⟨own, final.type, field, named, hosted, ?_, by rw [same]; rfl, ?_⟩
  · rw [same, signed]
    refine Module.resolveField?_eq_some.mpr ⟨type.ref, Injection.reference?_sig type, resolved, ?_⟩
    exact TypeDef.field?_of_prefix (fields ▸ List.prefix_rfl) held
  · rcases origin with suits | ⟨member, offered⟩
    · exact suits
    · exact captured own field (described ▸ member) (called ▸ named) offered

end MixinEngine

namespace Linked

def next (owner : String) (attributes : List Attribute) : FieldDef :=
  ⟨"next", ⟨0⟩, .classType ⟨none, "", owner⟩, attributes⟩

def test : MethodDef := ⟨"Test", ⟨0⟩, .void, [], some ⟨8, true, #[], #[⟨0, .ret, .none⟩], 0⟩, []⟩

def used : FieldRef := (next "M" []).ref (.classType ⟨none, "", "M"⟩)

/-- Reads a field of its own type. -/
def patch : MethodDef :=
  { test with
    body := some ⟨8, true, #[], #[⟨0, .ldarg0, .none⟩, ⟨1, .ldfld, .field used⟩, ⟨2, .pop, .none⟩,
      ⟨3, .ret, .none⟩], 0⟩
    attributes := [Leak.marked .overwrite []] }

def mixinType : TypeDef :=
  { TypeDef.empty "" "M" ⟨0⟩ none with
    fields := [next "M" [Leak.marked .captureField [.string "next"]]]
    methods := [patch]
    attributes := [Leak.marked .mixin [.type "T"]] }

def type : TypeDef := { TypeDef.empty "" "T" ⟨0⟩ none with fields := [next "T" []], methods := [test] }

def target : Module := ⟨"Game", [], [type]⟩

def mixin : MixinDescriptor := ⟨"M", .type "T", 0, [.capture "next" "next"], [.overwrite 0 "Test"]⟩

def weaver : Weaver := .new .standard target ⟨"Mods", [], [mixinType]⟩ ⟨[]⟩

def engine : MixinEngine := weaver.engine [mixin]

def found : FieldRef := (next "T" []).ref type.sig

def context : MixinContext :=
  ⟨mixin, mixinType, "T", type.sig,
    ⟨.standard, "Mods", "Game", "M", Weaver.targets [mixin], Table.empty.insert "next" found⟩⟩

def mapped : PatchState := ⟨type, ⟨"M", "T", 0, 0, 0, 0, []⟩, []⟩

def applied : AppliedMixin × Module := ((engine.apply target mixin .empty).1.toOption).getD default

/-- The type of the field is the mixin's own, which becomes the target's. -/
theorem captured_suit_next :
    weaver.descriptors = .ok [mixin] ∧ engine.subjects target mixin = .ok (0, type, mixinType) ∧
      engine.begin target mixin type mixinType = .ok (mapped, context) ∧
      (engine.apply target mixin .empty).1 = .ok applied ∧
      (∀ own field, .capture own.name field.name ∈ mixin.fields → mixinType.field? own.name = some own →
        context.Offers type field → context.home.Suits own field) ∧
      context.home.mapped? used = some found ∧
      ∃ own host field, mixinType.field? "next" = some own ∧ applied.2.type? "T" = some host ∧
        applied.2.resolveField? found = some (host, field) ∧ found.type = field.type ∧ context.home.Suits own field := by
  have accepted : (engine.apply target mixin .empty).1 = .ok applied := ok_of_isOk default (by decide +kernel)
  have captured (own field : FieldDef) (member : .capture own.name field.name ∈ mixin.fields)
      (defined : mixinType.field? own.name = some own) (offered : context.Offers type field) :
      context.home.Suits own field := by
    obtain ⟨key, name⟩ := FieldDescriptor.capture.inj (List.mem_singleton.mp member)
    rw [key] at defined
    cases defined
    rcases offered with held | ⟨other, added, -⟩
    · rw [name] at held
      cases held
      exact ⟨by decide +kernel, by decide +kernel⟩
    · cases List.mem_singleton.mp added
  have stands : context.home.mapped? used = some found := by decide +kernel
  exact ⟨ok_of_toOption (by decide +kernel), rfl, rfl, accepted, captured, stands,
    MixinEngine.captured_suit rfl rfl (Prod.ext accepted rfl) captured stands⟩

end Linked

namespace Stale

def count (static : Bool) (type : TypeSig) (attributes : List Attribute) : FieldDef :=
  ⟨"count", ⟨if static then FieldFlags.isStatic else 0⟩, type, attributes⟩

def used : FieldRef := (count false (.primitive .string) []).ref (.classType ⟨none, "", "M"⟩)

def patch : MethodDef :=
  { Linked.test with
    body := some ⟨8, true, #[], #[⟨0, .ldarg0, .none⟩, ⟨1, .ldfld, .field used⟩, ⟨2, .pop, .none⟩,
      ⟨3, .ret, .none⟩], 0⟩
    attributes := [Leak.marked .overwrite []] }

/-- Written for a target with a text for each instance. -/
def mixinType : TypeDef :=
  { TypeDef.empty "" "M" ⟨0⟩ none with
    fields := [count false (.primitive .string) [Leak.marked .captureField [.string "count"]]]
    methods := [patch]
    attributes := [Leak.marked .mixin [.type "T"]] }

/-- The target now has one number for all instances. -/
def type : TypeDef :=
  { TypeDef.empty "" "T" ⟨0⟩ none with fields := [count true (.primitive .int32) []], methods := [Linked.test] }

def weaver : Weaver := .new .standard ⟨"Game", [], [type]⟩ ⟨"Mods", [], [mixinType]⟩ ⟨[]⟩

/-- The fields that the code of a type uses, and whether those of the type are static. -/
def uses (type : TypeDef) : List (String × Option Bool) :=
  type.operands.filterMap fun operand =>
    match operand with
    | .field reference => some (reference.fullName, (type.field? reference.name).map FieldDef.isStatic)
    | _ => none

/-- Code that reads a text of an instance is taken to read a number of the type. -/
theorem number_captured :
    (weaver.descriptors.toOption.getD []).map (fun mixin => mixin.fields) = [[.capture "count" "count"]] ∧
      uses mixinType = [("System.String M::count", some false)] ∧ weaver.apply.1.isOk = true ∧
      weaver.apply.2.target.types.flatMap uses = [("System.Int32 T::count", some true)] :=
  ⟨by decide +kernel, by decide +kernel, by decide +kernel, by decide +kernel⟩

end Stale

end CilWeave
