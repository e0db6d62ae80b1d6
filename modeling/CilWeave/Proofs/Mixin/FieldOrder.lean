import CilWeave.Proofs.Mixin.CapturedFields
import Mathlib.Data.List.Find

/-!
The order of a mixin's fields. Fields are mapped one after the other, and those that have been added can be captured by later
ones. Where two orders are accepted, the fields come to stand for the same ones, and the same ones are added; and all orders
are accepted or none is, exactly if the mixin captures only what the target type has had before.
-/

namespace CilWeave

open Stateful

/-- The name of the target's field that a field of a mixin stands for. -/
def FieldDescriptor.sought : FieldDescriptor → String
  | .capture _ target => target
  | .add field => field

def FieldDescriptor.isCapture : FieldDescriptor → Bool
  | .capture .. => true
  | .add _ => false

/-- The first field of a name is the only one, wherever it stands. -/
theorem find?_named_perm {fields other : List FieldDef} (same : other.Perm fields)
    (distinct : (fields.map (·.name)).Nodup) (name : String) :
    other.find? (fun field => field.name == name) = fields.find? fun field => field.name == name := by
  refine (List.find?_eq_find?_of_perm same.symm ?_).symm
  rintro one ⟨member, named⟩ two ⟨there, called⟩
  exact List.inj_on_of_nodup_map distinct member there ((eq_of_beq named).trans (eq_of_beq called).symm)

namespace MixinContext

variable {context : MixinContext} {state after : PatchState} {descriptor : FieldDescriptor}
  {descriptors : List FieldDescriptor} {fields mapped : Table FieldRef}

/-- The fields that mapping one of the mixin's adds: none or one. -/
def creates (context : MixinContext) : FieldDescriptor → List FieldDef
  | .capture .. => []
  | .add name => ((context.mixinDef.field? name).map context.newField).toList

theorem creates_names (descriptor : FieldDescriptor) :
    ((context.creates descriptor).map (·.name)).Sublist [descriptor.field] := by
  cases descriptor with
  | capture field target => exact List.nil_sublist _
  | add name =>
      cases found : context.mixinDef.field? name with
      | none => simp [creates, found]
      | some own => simp [creates, found, newField, FieldDescriptor.field, TypeDef.field?_name found]

/-- Added fields are called as the fields they are added for. -/
theorem flatMap_creates_names (descriptors : List FieldDescriptor) :
    ((descriptors.flatMap context.creates).map (·.name)).Sublist (descriptors.map FieldDescriptor.field) := by
  induction descriptors with
  | nil => exact .refl _
  | cons descriptor rest ih =>
      rw [List.flatMap_cons, List.map_append, List.map_cons]
      exact (creates_names descriptor).append ih

/-- The field is there to be captured, or its name is free. -/
def Placed (state : PatchState) (descriptor : FieldDescriptor) : Prop :=
  (state.type.field? descriptor.sought).isSome = descriptor.isCapture

theorem mapField_isOk : (context.mapField state descriptor).isOk = true ↔
    (context.mixinDef.field? descriptor.field).isSome = true ∧ Placed state descriptor := by
  unfold mapField Placed
  cases context.mixinDef.field? descriptor.field with
  | none => exact iff_of_false nofun (by simp)
  | some own =>
      cases descriptor with
      | capture field target =>
          cases found : state.type.field? target <;> simp [FieldDescriptor.sought, FieldDescriptor.isCapture, found] <;> rfl
      | add name =>
          cases found : state.type.field? name <;> simp [FieldDescriptor.sought, FieldDescriptor.isCapture, found] <;> rfl

theorem mapField_creates {name : String} {reference : FieldRef}
    (ran : context.mapField state descriptor = .ok (after, name, reference)) :
    name = descriptor.field ∧ after.type = { state.type with fields := state.type.fields ++ context.creates descriptor } ∧
      ∃ field, after.type.field? descriptor.sought = some field ∧ reference = field.ref context.targetSig := by
  cases mapField_iff.mp ran with
  | @captured own existing found there => exact ⟨rfl, by rw [creates, List.append_nil], existing, there, rfl⟩
  | @added own found free =>
      refine ⟨rfl, ?_, context.newField own, TypeDef.field?_added free, rfl⟩
      simp only [creates, found]
      rfl

theorem Placed.grown {other : FieldDescriptor} (placed : Placed state other) (apart : other.field ≠ descriptor.field)
    (adds : after.type = { state.type with fields := state.type.fields ++ context.creates descriptor }) :
    Placed after other := by
  unfold Placed at placed ⊢
  rw [← placed, adds, TypeDef.field?, TypeDef.field?, List.find?_append]
  cases held : state.type.fields.find? fun field => field.name == other.sought with
  | some field => rfl
  | none =>
      -- Nothing was there, so the other field is one to be added, which the new field is not called like.
      rw [TypeDef.field?, held] at placed
      cases other with
      | capture field target => cases placed
      | add name =>
          rw [Option.none_or, Option.isSome_none, Option.isSome_eq_false_iff, Option.isNone_iff_eq_none, List.find?_eq_none]
          intro field member named
          have called := (creates_names descriptor).subset (List.mem_map_of_mem member)
          exact apart ((eq_of_beq named).symm.trans (List.mem_singleton.mp called))

theorem mapFields_isOk_of_placed
    (known : ∀ descriptor ∈ descriptors, (context.mixinDef.field? descriptor.field).isSome = true)
    (placed : ∀ descriptor ∈ descriptors, Placed state descriptor)
    (keyed : (descriptors.map FieldDescriptor.field).Nodup) : (context.mapFields descriptors state fields).isOk = true := by
  induction descriptors generalizing state fields with
  | nil => rfl
  | cons descriptor rest ih =>
      rw [List.forall_mem_cons] at known placed
      rw [List.map_cons, List.nodup_cons] at keyed
      have first := mapField_isOk.mpr ⟨known.1, placed.1⟩
      cases ran : context.mapField state descriptor with
      | error fault => simp [ran, Except.isOk, Except.toBool] at first
      | ok value =>
          obtain ⟨middle, name, reference⟩ := value
          obtain ⟨-, grown, -⟩ := mapField_creates ran
          rw [mapFields, ran]
          refine ih known.2 (fun other member => (placed.2 other member).grown (fun same => ?_) grown) keyed.2
          exact keyed.1 (same ▸ List.mem_map_of_mem member)

/-- What is mapped exists, and what is added was not there. -/
theorem mapFields_requires (ran : context.mapFields descriptors state fields = .ok (after, mapped)) :
    ∀ descriptor ∈ descriptors, (context.mixinDef.field? descriptor.field).isSome = true ∧
      (descriptor.isCapture = false → Placed state descriptor) := by
  induction descriptors generalizing state fields with
  | nil => exact nofun
  | cons descriptor rest ih =>
      obtain ⟨⟨middle, name, reference⟩, first, ran⟩ := bind_ok ran
      obtain ⟨-, grown, -⟩ := mapField_creates first
      obtain ⟨known, placed⟩ := mapField_isOk.mp (by rw [first]; rfl)
      refine List.forall_mem_cons.mpr ⟨⟨known, fun _ => placed⟩, fun other member => ?_⟩
      obtain ⟨there, later⟩ := ih ran other member
      refine ⟨there, fun adds => ?_⟩
      have free := later adds
      rw [Placed, adds, Option.isSome_eq_false_iff, Option.isNone_iff_eq_none] at free ⊢
      rw [grown, TypeDef.field?, List.find?_append, Option.or_eq_none_iff] at free
      exact free.1

/-- Fields that are captured before any is added are the target's own. -/
theorem mapFields_first {rest : List FieldDescriptor} (captures : ∀ descriptor ∈ descriptors, descriptor.isCapture = true)
    (ran : context.mapFields (descriptors ++ rest) state fields = .ok (after, mapped)) :
    ∀ descriptor ∈ descriptors, Placed state descriptor := by
  induction descriptors generalizing state fields with
  | nil => exact nofun
  | cons descriptor others ih =>
      obtain ⟨⟨middle, name, reference⟩, first, ran⟩ := bind_ok ran
      obtain ⟨-, grown, -⟩ := mapField_creates first
      obtain ⟨-, placed⟩ := mapField_isOk.mp (by rw [first]; rfl)
      rw [List.forall_mem_cons] at captures ⊢
      refine ⟨placed, fun other member => ?_⟩
      have later := ih captures.2 ran other member
      cases descriptor with
      | add name => exact absurd captures.1 Bool.false_ne_true
      | capture field target => rwa [Placed, grown, creates, List.append_nil] at later

/-- Each of the mixin's fields stands for the one of the type, as it is in the end, that it is looked for under. -/
theorem mapFields_creates (ran : context.mapFields descriptors state fields = .ok (after, mapped))
    (keyed : (descriptors.map FieldDescriptor.field).Nodup) :
    after.type = { state.type with fields := state.type.fields ++ descriptors.flatMap context.creates } ∧
      (∀ key ∉ descriptors.map FieldDescriptor.field, mapped.get? key = fields.get? key) ∧
      ∀ descriptor ∈ descriptors, ∃ field, after.type.field? descriptor.sought = some field ∧
        mapped.get? descriptor.field = some (field.ref context.targetSig) := by
  induction descriptors generalizing state fields with
  | nil =>
      cases ran
      exact ⟨by rw [List.flatMap_nil, List.append_nil], fun _ _ => rfl, nofun⟩
  | cons descriptor rest ih =>
      obtain ⟨⟨middle, name, reference⟩, first, ran⟩ := bind_ok ran
      obtain ⟨rfl, grown, field, held, rfl⟩ := mapField_creates first
      rw [List.map_cons, List.nodup_cons] at keyed
      obtain ⟨type, others, each⟩ := ih ran keyed.2
      refine ⟨?_, fun key apart => ?_, List.forall_mem_cons.mpr ⟨?_, each⟩⟩
      · rw [type, grown, List.flatMap_cons, List.append_assoc]
      · rw [List.map_cons, List.mem_cons, not_or] at apart
        rw [others key apart.2, Table.get?_insert_of_ne (Ne.symm apart.1)]
      · refine ⟨field, TypeDef.field?_of_prefix (type ▸ List.prefix_append _ _) held, ?_⟩
        rw [others _ keyed.1, Table.get?_insert_self]

/-- Two orders that are accepted add the same fields, and let the mixin's stand for the same ones. -/
theorem mapFields_agree {twin : MixinContext} {other : List FieldDescriptor} {later : PatchState} {table : Table FieldRef}
    (creates : ∀ descriptor, twin.creates descriptor = context.creates descriptor)
    (located : twin.targetSig = context.targetSig)
    (same : other.Perm descriptors) (keyed : (descriptors.map FieldDescriptor.field).Nodup)
    (ran : context.mapFields descriptors state .empty = .ok (after, mapped))
    (again : twin.mapFields other state .empty = .ok (later, table)) :
    (∀ key, mapped.get? key = table.get? key) ∧ ∃ added more, added.Perm more ∧
      after.type = { state.type with fields := state.type.fields ++ added } ∧
      later.type = { state.type with fields := state.type.fields ++ more } := by
  obtain ⟨type, none, each⟩ := mapFields_creates ran keyed
  obtain ⟨type', none', each'⟩ := mapFields_creates again ((same.map _).nodup_iff.mpr keyed)
  have added : (descriptors.flatMap context.creates).Perm (other.flatMap twin.creates) := by
    rw [funext creates]
    exact same.symm.flatMap_right _
  refine ⟨fun key => ?_, _, _, added, type, type'⟩
  by_cases listed : key ∈ descriptors.map FieldDescriptor.field
  · obtain ⟨descriptor, member, rfl⟩ := List.mem_map.mp listed
    obtain ⟨field, held, stands⟩ := each descriptor member
    obtain ⟨field', held', stands'⟩ := each' descriptor (same.mem_iff.mpr member)
    have alike : later.type.field? descriptor.sought = after.type.field? descriptor.sought := by
      rw [type, type', TypeDef.field?, TypeDef.field?, List.find?_append, List.find?_append,
        find?_named_perm added.symm (keyed.sublist (flatMap_creates_names descriptors))]
    cases held'.symm.trans (alike.trans held)
    rw [stands, stands', located]
  · rw [none key listed, none' key fun there => listed ((same.map _).mem_iff.mp there)]

end MixinContext

/-- An order for the fields of a mixin's type, and one for what becomes of them. -/
structure FieldOrder (mixin : MixinDescriptor) (mixinDef : TypeDef) where
  descriptors : List FieldDescriptor
  fields : List FieldDef
  described : descriptors.Perm mixin.fields
  declared : fields.Perm mixinDef.fields

namespace FieldOrder

variable {engine : MixinEngine} {target : Module} {mixin : MixinDescriptor} {type mixinDef : TypeDef}
  {order other : FieldOrder mixin mixinDef}

/-- Where the fields are mapped in this order. -/
def context (order : FieldOrder mixin mixinDef) (engine : MixinEngine) (target : Module) (type : TypeDef) : MixinContext :=
  ⟨{ mixin with fields := order.descriptors }, { mixinDef with fields := order.fields }, mixin.target.fullName, type.sig,
    ⟨engine.config, engine.mixinModule.name, target.name, mixin.mixinType, engine.types, .empty⟩⟩

/-- The type and the account of a mixin that has done nothing yet. -/
def start (mixin : MixinDescriptor) (type : TypeDef) : PatchState :=
  ⟨type, ⟨mixin.mixinType, mixin.target.fullName, 0, 0, 0, 0, []⟩, []⟩

/-- What the mixin begins with if its fields stand in this order. -/
def begin (order : FieldOrder mixin mixinDef) (engine : MixinEngine) (target : Module) (type : TypeDef) :
    Except WeaveFault (PatchState × MixinContext) :=
  engine.begin target { mixin with fields := order.descriptors } type { mixinDef with fields := order.fields }

theorem begin_ok {mapped : PatchState} {context : MixinContext}
    (begun : order.begin engine target type = .ok (mapped, context)) :
    (order.context engine target type).mapFields order.descriptors (start mixin type) .empty =
      .ok (mapped, context.home.fields) := by
  obtain ⟨fields, rfl, ran⟩ := MixinEngine.begin_mapped begun
  exact ran

theorem begin_isOk : (order.begin engine target type).isOk =
    ((order.context engine target type).mapFields order.descriptors (start mixin type) .empty).isOk := by
  unfold begin MixinEngine.begin
  change Except.isOk ((order.context engine target type).mapFields order.descriptors (start mixin type) .empty >>= _) = _
  cases (order.context engine target type).mapFields order.descriptors (start mixin type) .empty <;> rfl

/-- Captured fields come before those that are added. -/
def capturesFirst (mixin : MixinDescriptor) (mixinDef : TypeDef) : FieldOrder mixin mixinDef where
  descriptors := mixin.fields.filter FieldDescriptor.isCapture ++ mixin.fields.filter fun descriptor => !descriptor.isCapture
  fields := mixinDef.fields
  described := List.filter_append_perm _ _
  declared := .refl _

theorem capturesFirst_own (accepted : ((capturesFirst mixin mixinDef).begin engine target type).isOk = true)
    {field name : String} (captured : .capture field name ∈ mixin.fields) : name ∈ type.fieldNames := by
  rw [begin_isOk] at accepted
  have ran := ok_of_isOk (start mixin type, Table.empty) accepted
  have own := MixinContext.mapFields_first (fun descriptor member => (List.mem_filter.mp member).2) ran
    (.capture field name) (List.mem_filter.mpr ⟨captured, rfl⟩)
  exact TypeDef.field?_isSome.mp own

section

variable (named : mixinDef.fieldNames.Nodup) (keyed : (mixin.fields.map FieldDescriptor.field).Nodup)

include named in
theorem field?_context (name : String) :
    (order.context engine target type).mixinDef.field? name = (other.context engine target type).mixinDef.field? name :=
  find?_named_perm (order.declared.trans other.declared.symm) ((other.declared.map _).nodup_iff.mpr named) name

include named in
theorem creates_context (descriptor : FieldDescriptor) :
    (order.context engine target type).creates descriptor = (other.context engine target type).creates descriptor := by
  cases descriptor with
  | capture field target => rfl
  | add name =>
      rw [MixinContext.creates, MixinContext.creates, field?_context named name]
      rfl

include named keyed

theorem begin_agree {mapped later : PatchState} {context twin : MixinContext}
    (begun : order.begin engine target type = .ok (mapped, context))
    (again : other.begin engine target type = .ok (later, twin)) :
    (∀ key, context.home.fields.get? key = twin.home.fields.get? key) ∧ ∃ added more, added.Perm more ∧
      mapped.type = { type with fields := type.fields ++ added } ∧
      later.type = { type with fields := type.fields ++ more } := by
  have creates : ∀ descriptor,
      (other.context engine target type).creates descriptor = (order.context engine target type).creates descriptor :=
    creates_context named
  exact MixinContext.mapFields_agree creates rfl (other.described.trans order.described.symm)
    ((order.described.map _).nodup_iff.mpr keyed) (begin_ok begun) (begin_ok again)

/-- If the mixin captures the target's own fields only, every order does as well as any. -/
theorem begin_isOk_of_own (own : ∀ field name, .capture field name ∈ mixin.fields → name ∈ type.fieldNames)
    (accepted : (order.begin engine target type).isOk = true) : (other.begin engine target type).isOk = true := by
  rw [begin_isOk] at accepted ⊢
  have requires := MixinContext.mapFields_requires (ok_of_isOk (start mixin type, Table.empty) accepted)
  have same := other.described.trans order.described.symm
  refine MixinContext.mapFields_isOk_of_placed (fun descriptor member => ?_) (fun descriptor member => ?_)
    ((other.described.map _).nodup_iff.mpr keyed)
  · exact field?_context named descriptor.field ▸ (requires descriptor (same.mem_iff.mp member)).1
  · cases descriptor with
    | capture field name => exact TypeDef.field?_isSome.mpr (own field name (other.described.mem_iff.mp member))
    | add name => exact (requires (.add name) (same.mem_iff.mp member)).2 rfl

end

end FieldOrder

/-- In whatever orders a mixin's fields are mapped, they come to stand for the same fields of the target, and the same are added
to it. It depends on the order whether they can be mapped at all exactly if some order lets the mixin capture a field that the
target type has not had before. -/
theorem MixinEngine.begin_reordered {engine : MixinEngine} {target : Module} {mixin : MixinDescriptor} {type mixinDef : TypeDef}
    (named : mixinDef.fieldNames.Nodup) (keyed : (mixin.fields.map FieldDescriptor.field).Nodup) :
    (∀ (one two : FieldOrder mixin mixinDef) (mapped later : PatchState) (context twin : MixinContext),
      one.begin engine target type = .ok (mapped, context) → two.begin engine target type = .ok (later, twin) →
        (∀ key, context.home.fields.get? key = twin.home.fields.get? key) ∧ ∃ added more, added.Perm more ∧
          mapped.type = { type with fields := type.fields ++ added } ∧
          later.type = { type with fields := type.fields ++ more }) ∧
      ((∀ one two : FieldOrder mixin mixinDef, (one.begin engine target type).isOk = (two.begin engine target type).isOk) ↔
        ∀ order : FieldOrder mixin mixinDef, (order.begin engine target type).isOk = true →
          ∀ field name, .capture field name ∈ mixin.fields → name ∈ type.fieldNames) := by
  refine ⟨fun one two mapped later context twin => FieldOrder.begin_agree named keyed,
    fun alike order accepted field name => ?_,
    fun own one two => ?_⟩
  · exact FieldOrder.capturesFirst_own ((alike _ order).trans accepted)
  · exact Bool.eq_iff_iff.mpr
      ⟨fun accepted => FieldOrder.begin_isOk_of_own named keyed (own one accepted) accepted,
        fun accepted => FieldOrder.begin_isOk_of_own named keyed (own two accepted) accepted⟩

namespace Tandem

def plain (name : String) : FieldDef := ⟨name, ⟨0⟩, .primitive .int32, []⟩

/-- Stands for a field of the target. -/
def linked (name target : String) : FieldDef := { plain name with attributes := [Leak.marked .captureField [.string target]] }

def mixinType (fields : List FieldDef) : TypeDef :=
  { TypeDef.empty "" "M" ⟨0⟩ none with fields, attributes := [Leak.marked .mixin [.type "T"]] }

def type : TypeDef := { TypeDef.empty "" "T" ⟨0⟩ none with fields := [plain "count"] }

def target : Module := ⟨"Game", [], [type]⟩

def weaver (fields : List FieldDef) : Weaver := .new .standard target ⟨"Mods", [], [mixinType fields]⟩ ⟨[]⟩

def mixin (fields : List FieldDescriptor) : MixinDescriptor := ⟨"M", .type "T", 0, fields, []⟩

/-- One field of the target is captured, and one is added. -/
def fields : List FieldDef := [linked "total" "count", plain "step"]

def described : List FieldDescriptor := [.capture "total" "count", .add "step"]

def engine : MixinEngine := (weaver fields).engine [mixin described]

def given : FieldOrder (mixin described) (mixinType fields) := ⟨described, fields, .refl _, .refl _⟩

def turned : FieldOrder (mixin described) (mixinType fields) :=
  ⟨described.reverse, fields.reverse, List.reverse_perm _, List.reverse_perm _⟩

def outcome (order : FieldOrder (mixin described) (mixinType fields)) : PatchState × MixinContext :=
  (order.begin engine target type).toOption.getD (FieldOrder.start (mixin described) type, order.context engine target type)

theorem begin_reordered_turned :
    (weaver fields).descriptors = .ok [mixin described] ∧
      (mixinType fields).fieldNames.Nodup ∧ ((mixin described).fields.map FieldDescriptor.field).Nodup ∧
      given.begin engine target type = .ok (outcome given) ∧ turned.begin engine target type = .ok (outcome turned) ∧
      (∀ key, (outcome given).2.home.fields.get? key = (outcome turned).2.home.fields.get? key) ∧
      (∃ added more, added.Perm more ∧ (outcome given).1.type = { type with fields := type.fields ++ added } ∧
        (outcome turned).1.type = { type with fields := type.fields ++ more }) ∧
      ∀ one two : FieldOrder (mixin described) (mixinType fields),
        (one.begin engine target type).isOk = (two.begin engine target type).isOk := by
  have named : (mixinType fields).fieldNames.Nodup := by decide +kernel
  have keyed : ((mixin described).fields.map FieldDescriptor.field).Nodup := by decide +kernel
  have first : given.begin engine target type = .ok (outcome given) := ok_of_isOk _ (by decide +kernel)
  have second : turned.begin engine target type = .ok (outcome turned) := ok_of_isOk _ (by decide +kernel)
  obtain ⟨agree, alike⟩ := @MixinEngine.begin_reordered engine target (mixin described) type (mixinType fields) named keyed
  obtain ⟨stand, added⟩ := agree given turned _ _ _ _ first second
  refine ⟨ok_of_toOption (by decide +kernel), named, keyed, first, second, stand, added, alike.mpr ?_⟩
  rintro - - field name captured
  obtain ⟨rfl, rfl⟩ : field = "total" ∧ name = "count" := by simpa [mixin, described] using captured
  decide +kernel

/-- A field of the mixin stands for one that the mixin adds. -/
def chained : List FieldDef := [plain "step", linked "total" "step"]

def chain : List FieldDescriptor := [.add "step", .capture "total" "step"]

/-- The added field can be captured behind itself, but not in front of itself. -/
theorem chained_turned_refused :
    (mixinType chained).fieldNames.Nodup ∧ chained.reverse.Perm chained ∧
      (weaver chained).descriptors = .ok [mixin chain] ∧ (weaver chained.reverse).descriptors = .ok [mixin chain.reverse] ∧
      (((weaver chained).engine [mixin chain]).begin target (mixin chain) type (mixinType chained)).isOk = true ∧
      (((weaver chained.reverse).engine [mixin chain.reverse]).begin target (mixin chain.reverse) type
        (mixinType chained.reverse)).isOk = false ∧
      (weaver chained).refusal? = none ∧
      (weaver chained.reverse).refusal? = some "Failed to capture field, 'step' not found in T for M" :=
  ⟨by decide +kernel, List.reverse_perm _, ok_of_toOption (by decide +kernel), ok_of_toOption (by decide +kernel),
    by decide +kernel, by decide +kernel, by decide +kernel, by decide +kernel⟩

end Tandem

end CilWeave
