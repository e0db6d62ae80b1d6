import CilWeave.Proofs.Mixin.Carriers
import Mathlib.Data.List.Find
import Mathlib.Data.List.Pairwise
import Mathlib.Logic.Relation

/-!
Annotations that say the same in different ways. An argument may be given by position or by name, names are compared without
regard to case, and arguments that are given by name may stand in any order.
-/

namespace CilWeave

open Stateful Text

/-- An argument of an annotation as it is documented: its name, its position, and what it has to be. -/
structure Slot where
  name : String
  position : Nat
  kind : ArgumentKind
deriving DecidableEq

/-- The documented arguments of an annotation. A mixin's target is a type or a text, at one position. -/
def Marker.slots : Marker → List Slot
  | .mixin => [⟨"TargetType", 0, .type⟩, ⟨"Target", 0, .string⟩, ⟨"Priority", 1, .integer⟩]
  | .implements => [⟨"TargetType", 0, .type⟩]
  | .overwrite => []
  | .inject =>
    [⟨"Method", 0, .string⟩, ⟨"At", 1, .string⟩, ⟨"Cancellable", 2, .boolean⟩, ⟨"CancelTarget", 3, .string⟩,
      ⟨"ExpectedInjections", 4, .integer⟩]
  | .captureLocal | .storeLocal => [⟨"Index", 0, .integer⟩, ⟨"Type", 1, .type⟩]
  | .captureField => [⟨"Field", 0, .string⟩]

/-- An argument is of a kind. -/
def ArgumentKind.Fits : ArgumentKind → Argument → Prop
  | .string, given => ∃ text, given = .string text
  | .type, given => ∃ name, given = .type name
  | .boolean, given => given.bool?.isSome = true
  | .integer, given => given.integer?.isSome = true

/-- What stands at a position is passed over if a text or a type is looked for there and it is something else. -/
def ArgumentKind.takes : ArgumentKind → Argument → Bool
  | .string, .string _ | .type, .type _ | .boolean, _ | .integer, _ => true
  | _, _ => false

theorem ArgumentKind.Fits.takes {kind : ArgumentKind} {given : Argument} (fits : kind.Fits given) :
    kind.takes given = true := by
  cases kind with
  | string | type =>
      obtain ⟨content, rfl⟩ := fits
      rfl
  | boolean | integer => rfl

/-- Two kinds that no argument is of both of. -/
def ArgumentKind.excludes : ArgumentKind → ArgumentKind → Bool
  | .string, .type | .type, .string => true
  | _, _ => false

theorem ArgumentKind.Fits.passed {kind other : ArgumentKind} {given : Argument} (fits : kind.Fits given)
    (excluded : kind.excludes other = true) : other.takes given = false := by
  cases kind <;> cases other <;> cases excluded
  all_goals
    obtain ⟨content, rfl⟩ := fits
    rfl

/-- Slots of one annotation differ in their names, and in their positions or in what is looked for there. -/
theorem Marker.slots_apart (marker : Marker) : ∀ slot ∈ marker.slots, ∀ other ∈ marker.slots, other ≠ slot →
    sameIgnoringCase slot.name other.name = false ∧
      (other.position = slot.position → slot.kind.excludes other.kind = true) := by
  cases marker <;> decide +kernel

theorem sameIgnoringCase_trans {left middle right : String} (first : sameIgnoringCase left middle = true) :
    sameIgnoringCase left right = sameIgnoringCase middle right := by
  unfold sameIgnoringCase at first ⊢
  rw [eq_of_beq first]

theorem sameIgnoringCase_comm (left right : String) : sameIgnoringCase left right = sameIgnoringCase right left :=
  BEq.comm

namespace AttributeValue

/-- What is said for a slot: by name, or else at its position. -/
def said? (value : AttributeValue) (slot : Slot) : Option Argument :=
  (value.named? slot.name).or ((value.fixed? slot.position).filter slot.kind.takes)

/-- One of two ways to write the arguments of an annotation. -/
inductive Rewrites (marker : Marker) : AttributeValue → AttributeValue → Prop
  /-- The last argument by position is given by its name. Of several arguments of a name the first one counts. -/
  | named {slot : Slot} {fixed : List Argument} {before after : List NamedArgument} {given : NamedArgument} :
    slot ∈ marker.slots → slot.position = fixed.length → slot.kind.Fits given.value →
    sameIgnoringCase given.name slot.name = true → (∀ other ∈ after, sameIgnoringCase other.name slot.name = false) →
    Rewrites marker ⟨fixed ++ [given.value], before ++ after⟩ ⟨fixed, before ++ given :: after⟩
  /-- Arguments of different names are given in another order. -/
  | permuted {fixed : List Argument} {named other : List NamedArgument} :
    other.Perm named → named.Pairwise (fun one two => sameIgnoringCase one.name two.name = false) →
    Rewrites marker ⟨fixed, named⟩ ⟨fixed, other⟩
  /-- An argument is given by position that is given by name, too. -/
  | surplus {slot : Slot} {fixed : List Argument} {named : List NamedArgument} {argument : Argument} :
    slot ∈ marker.slots → slot.position = fixed.length → slot.kind.Fits argument →
    (∃ given ∈ named, sameIgnoringCase given.name slot.name = true) →
    Rewrites marker ⟨fixed, named⟩ ⟨fixed ++ [argument], named⟩

/-- The same is said for each slot, and for each name that is of no slot. -/
structure Agrees (marker : Marker) (value other : AttributeValue) : Prop where
  said : ∀ slot ∈ marker.slots, value.said? slot = other.said? slot
  named : ∀ name, (∀ slot ∈ marker.slots, sameIgnoringCase slot.name name = false) →
    value.named? name = other.named? name

variable {marker : Marker} {value other : AttributeValue} {slot : Slot} {fixed : List Argument} {argument : Argument}
  {named before after : List NamedArgument} {given : NamedArgument}

theorem named?_insert (name : String) (apart : sameIgnoringCase given.name name = false) :
    named? ⟨fixed, before ++ given :: after⟩ name = named? ⟨fixed, before ++ after⟩ name := by
  simp only [named?, List.find?_append, List.find?_cons, apart]

theorem named?_perm {arranged : List NamedArgument} (same : arranged.Perm named)
    (distinct : named.Pairwise fun one two => sameIgnoringCase one.name two.name = false) (name : String) :
    named? ⟨fixed, named⟩ name = named? ⟨fixed, arranged⟩ name := by
  unfold named?
  congr 1
  refine List.find?_eq_find?_of_perm same.symm ?_
  rintro one ⟨member, called⟩ two ⟨there, alike⟩
  by_contra differs
  have : Std.Symm fun one two : NamedArgument => sameIgnoringCase one.name two.name = false :=
    ⟨fun _ _ apart => (sameIgnoringCase_comm _ _).trans apart⟩
  have apart := distinct.forall member there differs
  rw [sameIgnoringCase_trans called, sameIgnoringCase_comm, alike] at apart
  cases apart

/-- A position that is another, or at which something else is looked for, shows nothing of an argument that is added. -/
theorem filter_fixed?_append (next : slot.position = fixed.length) (fits : slot.kind.Fits argument) {more : List NamedArgument}
    {sought : Slot} (excluded : sought.position = slot.position → slot.kind.excludes sought.kind = true) :
    (fixed? ⟨fixed ++ [argument], named⟩ sought.position).filter sought.kind.takes =
      (fixed? ⟨fixed, more⟩ sought.position).filter sought.kind.takes := by
  unfold fixed?
  rcases Nat.lt_trichotomy sought.position fixed.length with inside | same | outside
  · rw [List.getElem?_append_left inside]
  · have passed := fits.passed (excluded (same.trans next.symm))
    rw [same, List.getElem?_concat_length, List.getElem?_eq_none le_rfl]
    simp [Option.filter, passed]
  · have longer : (fixed ++ [argument]).length ≤ sought.position := by
      rw [List.length_append, List.length_singleton]
      exact outside
    rw [List.getElem?_eq_none longer, List.getElem?_eq_none (Nat.le_of_lt outside)]

theorem Rewrites.agrees (rewrites : Rewrites marker value other) : Agrees marker value other := by
  cases rewrites with
  | @named slot fixed before after given documented next fits called last =>
      constructor
      · intro sought listed
        by_cases same : sought = slot
        · subst same
          have none : after.find? (fun argument => sameIgnoringCase argument.name sought.name) = none :=
            List.find?_eq_none.mpr fun argument member => Bool.eq_false_iff.mp (last argument member)
          simp only [said?, named?, fixed?, List.find?_append, List.find?_cons, called, none, next,
            List.getElem?_concat_length, Option.filter, fits.takes, Option.or_none]
          cases before.find? _ <;> rfl
        · obtain ⟨apart, excluded⟩ := marker.slots_apart slot documented sought listed same
          have unnamed : sameIgnoringCase given.name sought.name = false := (sameIgnoringCase_trans called).trans apart
          rw [said?, said?, named?_insert _ unnamed, filter_fixed?_append next fits excluded]
          rfl
      · intro name apart
        exact (named?_insert _ ((sameIgnoringCase_trans called).trans (apart slot documented))).symm
  | permuted same distinct =>
      refine ⟨fun slot _ => ?_, fun name _ => named?_perm same distinct name⟩
      rw [said?, named?_perm same distinct]
      rfl
  | @surplus slot fixed named argument documented next fits given =>
      refine ⟨fun sought listed => ?_, fun _ _ => rfl⟩
      by_cases same : sought = slot
      · subst same
        have found : (named.find? fun argument => sameIgnoringCase argument.name sought.name).isSome = true :=
          List.find?_isSome.mpr given
        obtain ⟨first, held⟩ := Option.isSome_iff_exists.mp found
        simp only [said?, named?, held, Option.map_some, Option.some_or]
      · obtain ⟨-, excluded⟩ := marker.slots_apart slot documented sought listed same
        rw [said?, said?, filter_fixed?_append next fits excluded]
        rfl

/-- The target's field is given by position, or by a second name, if nothing else names it. -/
inductive Renames : AttributeValue → AttributeValue → Prop
  | name {before after : List NamedArgument} {given : NamedArgument} :
    ArgumentKind.string.Fits given.value → sameIgnoringCase given.name "Name" = true →
    (∀ other ∈ before ++ after, sameIgnoringCase other.name "Field" = false ∧
      sameIgnoringCase other.name "Name" = false) →
    Renames ⟨[given.value], before ++ after⟩ ⟨[], before ++ given :: after⟩

/-- The arguments of an annotation, written in other ways any number of times. -/
def Restates (marker : Marker) : AttributeValue → AttributeValue → Prop :=
  Relation.EqvGen fun value other => Rewrites marker value other ∨ marker = .captureField ∧ Renames value other

/-- What is read from arguments is the same if each step of rewriting them leaves it. -/
theorem Restates.read {α : Type} (restates : Restates marker value other) (read : AttributeValue → α)
    (agreed : ∀ value other, Agrees marker value other → read value = read other)
    (renamed : marker = .captureField → ∀ value other, Renames value other → read value = read other) :
    read value = read other := by
  induction restates with
  | rel value other step =>
      rcases step with rewrites | ⟨captures, renames⟩
      · exact agreed value other rewrites.agrees
      · exact renamed captures value other renames
  | refl value => rfl
  | symm value other _ ih => exact ih.symm
  | trans value middle other _ _ first second => exact first.trans second

end AttributeValue

namespace MarkerArgs

variable (args : MarkerArgs) {value other : AttributeValue} {name marker owner : String} {position : Nat}

theorem string?_said (name : String) (position : Nat) : args.string? name (some position) =
    match args.value.said? ⟨name, position, .string⟩ with
    | some (.string text) => .ok text
    | some given => .error (args.fault (.wrongKind name .string given))
    | none => .ok none := by
  simp only [string?, AttributeValue.said?, fixed?, Option.bind_some]
  cases args.value.named? name with
  | some given => cases given <;> rfl
  | none =>
      cases args.value.fixed? position with
      | none => rfl
      | some given => cases given <;> rfl

theorem type?_said (name : String) (position : Nat) : args.type? name (some position) =
    match args.value.said? ⟨name, position, .type⟩ with
    | some (.type typeName) => .ok typeName
    | some given => .error (args.fault (.wrongKind name .type given))
    | none => .ok none := by
  simp only [type?, AttributeValue.said?, fixed?, Option.bind_some]
  cases args.value.named? name with
  | some given => cases given <;> rfl
  | none =>
      cases args.value.fixed? position with
      | none => rfl
      | some given => cases given <;> rfl

/-- A truth value or a number is read from whatever stands at its position. -/
theorem argument?_said {kind : ArgumentKind} (any : ∀ given, kind.takes given = true) (name : String) (position : Nat) :
    args.argument? name (some position) = args.value.said? ⟨name, position, kind⟩ := by
  simp only [argument?, AttributeValue.said?, fixed?, Option.bind_some]
  cases found : args.value.fixed? position with
  | none => rfl
  | some given => rw [Option.filter_some_pos (any given)]

/-! What is read for a slot is a matter of what is said for it. -/

theorem string?_congr (same : value.said? ⟨name, position, .string⟩ = other.said? ⟨name, position, .string⟩) :
    string? ⟨value, marker, owner⟩ name (some position) = string? ⟨other, marker, owner⟩ name (some position) := by
  rw [string?_said, string?_said, same]
  rfl

theorem type?_congr (same : value.said? ⟨name, position, .type⟩ = other.said? ⟨name, position, .type⟩) :
    type? ⟨value, marker, owner⟩ name (some position) = type? ⟨other, marker, owner⟩ name (some position) := by
  rw [type?_said, type?_said, same]
  rfl

theorem argument?_congr {kind : ArgumentKind} (any : ∀ given, kind.takes given = true)
    (same : value.said? ⟨name, position, kind⟩ = other.said? ⟨name, position, kind⟩) :
    argument? ⟨value, marker, owner⟩ name (some position) = argument? ⟨other, marker, owner⟩ name (some position) :=
  (argument?_said _ any name position).trans (same.trans (argument?_said ⟨other, marker, owner⟩ any name position).symm)

theorem bool_congr (same : value.said? ⟨name, position, .boolean⟩ = other.said? ⟨name, position, .boolean⟩)
    (missing : Bool) : bool ⟨value, marker, owner⟩ name (some position) missing =
      bool ⟨other, marker, owner⟩ name (some position) missing := by
  unfold bool
  rw [argument?_congr (fun _ => rfl) same]
  rfl

theorem integerOr_congr (same : value.said? ⟨name, position, .integer⟩ = other.said? ⟨name, position, .integer⟩)
    (missing : Int) : integerOr ⟨value, marker, owner⟩ name (some position) missing =
      integerOr ⟨other, marker, owner⟩ name (some position) missing := by
  unfold integerOr
  rw [argument?_congr (fun _ => rfl) same]
  rfl

theorem localSlot_congr (index : value.said? ⟨"Index", 0, .integer⟩ = other.said? ⟨"Index", 0, .integer⟩)
    (type : value.said? ⟨"Type", 1, .type⟩ = other.said? ⟨"Type", 1, .type⟩) :
    localSlot ⟨value, marker, owner⟩ = localSlot ⟨other, marker, owner⟩ := by
  unfold localSlot integer MarkerArgs.type
  rw [argument?_congr (fun _ => rfl) index, type?_congr type]
  rfl

/-- Either name has nothing where the other one has the text. -/
theorem string?_renamed (renames : AttributeValue.Renames value other) (marker owner : String) : ∃ text,
    string? ⟨value, marker, owner⟩ "Field" (some 0) = .ok text ∧
      string? ⟨value, marker, owner⟩ "Name" none = .ok none ∧
      string? ⟨other, marker, owner⟩ "Field" (some 0) = .ok none ∧
      string? ⟨other, marker, owner⟩ "Name" none = .ok text := by
  obtain @⟨before, after, given, ⟨text, fits⟩, called, others⟩ := renames
  have unnamed (name : String) (apart : ∀ other ∈ before ++ after, sameIgnoringCase other.name name = false)
      (fixed : List Argument) : AttributeValue.named? ⟨fixed, before ++ after⟩ name = none :=
    Option.map_eq_none_iff.mpr (List.find?_eq_none.mpr fun other member => Bool.eq_false_iff.mp (apart other member))
  have field := unnamed "Field" fun other member => (others other member).1
  have second := unnamed "Name" fun other member => (others other member).2
  have found : AttributeValue.named? ⟨[], before ++ given :: after⟩ "Name" = some given.value := by
    have absent := Option.map_eq_none_iff.mp (second [])
    rw [List.find?_append, Option.or_eq_none_iff] at absent
    simp only [AttributeValue.named?, List.find?_append, absent.1, Option.none_or, List.find?_cons, called, Option.map_some]
  have none : AttributeValue.named? ⟨[], before ++ given :: after⟩ "Field" = none :=
    (AttributeValue.named?_insert "Field" ((sameIgnoringCase_trans called).trans (by decide))).trans (field [])
  refine ⟨text, ?_, ?_, ?_, ?_⟩
  · rw [string?, field, fits]
    rfl
  · rw [string?, second]
    rfl
  · rw [string?, none]
    rfl
  · rw [string?, found, fits]

end MarkerArgs

namespace WeaveConfig

variable {value other : AttributeValue} {name owner : String}

theorem mixinTarget_congr (agrees : AttributeValue.Agrees .mixin value other) (mixin : String) :
    mixinTarget mixin ⟨value, name, owner⟩ = mixinTarget mixin ⟨other, name, owner⟩ := by
  unfold mixinTarget
  rw [MarkerArgs.type?_congr (agrees.said ⟨"TargetType", 0, .type⟩ (by decide)),
    MarkerArgs.string?_congr (agrees.said ⟨"Target", 0, .string⟩ (by decide))]

theorem mixinPriority_congr (agrees : AttributeValue.Agrees .mixin value other) :
    mixinPriority ⟨value, name, owner⟩ = mixinPriority ⟨other, name, owner⟩ := by
  unfold mixinPriority
  rw [MarkerArgs.integerOr_congr (agrees.said ⟨"Priority", 1, .integer⟩ (by decide))]
  rfl

end WeaveConfig

/-- An attribute whose arguments, if it is an annotation, are written in another way. -/
inductive Attribute.Restates (config : WeaveConfig) : Attribute → Attribute → Prop
  | same (given : Attribute) : Attribute.Restates config given given
  | marked {given other : Attribute} {marker : Marker} {value written : AttributeValue} :
    given.typeName = config.attributeName marker.name → other.typeName = given.typeName → given.value = .ok value →
    other.value = .ok written → value.Restates marker written → Attribute.Restates config given other

theorem Marker.name_inj {marker other : Marker} (same : marker.name = other.name) : marker = other := by
  cases marker <;> cases other <;> first | rfl | exact absurd same (by decide)

namespace Attribute.Restates

variable {config : WeaveConfig} {given other : Attribute} {marker : Marker}

theorem typeName (restates : Attribute.Restates config given other) : other.typeName = given.typeName := by
  cases restates with
  | same => rfl
  | marked _ same => exact same

/-- What is read from the arguments of an annotation does not depend on how they are written. -/
theorem bind {α : Type} {read : MarkerArgs → Except WeaveFault α} {owner : String}
    (restates : Attribute.Restates config given other) (named : given.typeName = config.attributeName marker.name)
    (agreed : ∀ value other, AttributeValue.Agrees marker value other →
      read ⟨value, config.attributeName marker.name, owner⟩ = read ⟨other, config.attributeName marker.name, owner⟩)
    (renamed : marker = .captureField → ∀ value other, AttributeValue.Renames value other →
      read ⟨value, config.attributeName marker.name, owner⟩ = read ⟨other, config.attributeName marker.name, owner⟩) :
    (config.args given marker owner >>= read) = (config.args other marker owner >>= read) := by
  cases restates with
  | same => rfl
  | @marked _ stated value written called _ first second alike =>
      cases Marker.name_inj (WeaveConfig.attributeName_inj (named.symm.trans called))
      simp only [WeaveConfig.args, first, second]
      exact alike.read (fun value => read ⟨value, config.attributeName marker.name, owner⟩) agreed renamed

end Attribute.Restates

namespace WeaveConfig

variable {config : WeaveConfig} {attributes others : List Attribute}

theorem markers_restated (restated : List.Forall₂ (Attribute.Restates config) attributes others) (marker : Marker) :
    List.Forall₂ (fun given other => Attribute.Restates config given other ∧
      given.typeName = config.attributeName marker.name)
      (config.markers attributes marker) (config.markers others marker) := by
  induction restated with
  | nil => exact .nil
  | @cons given other rest more first _ ih =>
      unfold markers at ih ⊢
      rw [List.filter_cons, List.filter_cons, first.typeName]
      split
      · rename_i named
        exact .cons ⟨first, eq_of_beq named⟩ ih
      · exact ih

/-- Both lists have the annotation or neither has it. -/
theorem marker?_restated (restated : List.Forall₂ (Attribute.Restates config) attributes others) (marker : Marker) :
    config.marker? attributes marker = none ∧ config.marker? others marker = none ∨
      ∃ given other, config.marker? attributes marker = some given ∧ config.marker? others marker = some other ∧
        Attribute.Restates config given other ∧ given.typeName = config.attributeName marker.name := by
  have marked := markers_restated restated marker
  unfold marker?
  generalize config.markers attributes marker = one, config.markers others marker = two at marked ⊢
  cases marked with
  | nil => exact .inl ⟨rfl, rfl⟩
  | cons first _ => exact .inr ⟨_, _, rfl, rfl, first⟩

end WeaveConfig

/-- A parameter whose annotations are written in another way. -/
structure ParamDef.Restates (config : WeaveConfig) (param other : ParamDef) : Prop where
  rest : other = { param with attributes := other.attributes }
  attributes : List.Forall₂ (Attribute.Restates config) param.attributes other.attributes

structure FieldDef.Restates (config : WeaveConfig) (field other : FieldDef) : Prop where
  rest : other = { field with attributes := other.attributes }
  attributes : List.Forall₂ (Attribute.Restates config) field.attributes other.attributes

structure MethodDef.Restates (config : WeaveConfig) (method other : MethodDef) : Prop where
  rest : other = { method with params := other.params, attributes := other.attributes }
  params : List.Forall₂ (ParamDef.Restates config) method.params other.params
  attributes : List.Forall₂ (Attribute.Restates config) method.attributes other.attributes

structure TypeDef.Restates (config : WeaveConfig) (type other : TypeDef) : Prop where
  rest : other = { type with fields := other.fields, methods := other.methods, attributes := other.attributes }
  fields : List.Forall₂ (FieldDef.Restates config) type.fields other.fields
  methods : List.Forall₂ (MethodDef.Restates config) type.methods other.methods
  attributes : List.Forall₂ (Attribute.Restates config) type.attributes other.attributes

theorem forall₂_zipIdx {α β : Type} {related : α → β → Prop} {items : List α} {others : List β}
    (alike : List.Forall₂ related items others) (start : Nat) :
    List.Forall₂ (fun item other => related item.1 other.1 ∧ item.2 = other.2) (items.zipIdx start)
      (others.zipIdx start) := by
  induction alike generalizing start with
  | nil => exact .nil
  | cons first _ ih => exact .cons ⟨first, rfl⟩ (ih _)

namespace WeaveConfig

variable {config : WeaveConfig} {owner : String}

theorem paramRole_restated {param other : ParamDef} (restates : param.Restates config other) :
    config.paramRole owner param = config.paramRole owner other := by
  obtain ⟨rest, attributes⟩ := restates
  have name : other.name = param.name := by rw [rest]
  have type : other.type = param.type := by rw [rest]
  have slot (value other : AttributeValue) (marker owner : String)
      (said : ∀ slot ∈ Marker.captureLocal.slots, value.said? slot = other.said? slot) :
      MarkerArgs.localSlot ⟨value, marker, owner⟩ = MarkerArgs.localSlot ⟨other, marker, owner⟩ :=
    MarkerArgs.localSlot_congr (said _ (by decide)) (said _ (by decide))
  unfold paramRole
  rw [name, type]
  rcases marker?_restated attributes .captureLocal with ⟨one, two⟩ | ⟨given, given', one, two, alike, named⟩
  · rcases marker?_restated attributes .storeLocal with ⟨first, second⟩ | ⟨given, given', first, second, alike, named⟩
    · simp only [one, two, first, second]
    · simp only [one, two, first, second]
      exact alike.bind named (fun value other agrees => by rw [slot value other _ _ agrees.said]; rfl) nofun
  · simp only [one, two]
    exact alike.bind named (fun value other agrees => by rw [slot value other _ _ agrees.said]; rfl) nofun

/-- The second name of a captured field's target is asked for only if the first one and the position say nothing. -/
theorem fieldDescriptor_restated {field other : FieldDef} (restates : field.Restates config other) :
    config.fieldDescriptor owner field = config.fieldDescriptor owner other := by
  obtain ⟨rest, attributes⟩ := restates
  have name : other.name = field.name := by rw [rest]
  unfold fieldDescriptor
  rw [name]
  rcases marker?_restated attributes .captureField with ⟨one, two⟩ | ⟨given, given', one, two, alike, named⟩
  · simp only [one, two]
  · simp only [one, two]
    refine alike.bind named (fun value other agrees => ?_) (fun _ value other renames => ?_)
    · have second : value.named? "Name" = other.named? "Name" := agrees.named "Name" (by decide)
      rw [MarkerArgs.string?_congr (agrees.said ⟨"Field", 0, .string⟩ (by decide))]
      simp only [MarkerArgs.string, MarkerArgs.string?, second]
      rfl
    · obtain ⟨text, there, nothing, absent, found⟩ :=
        MarkerArgs.string?_renamed renames (config.attributeName Marker.captureField.name) (owner ++ "::" ++ field.name)
      simp only [MarkerArgs.string, there, nothing, absent, found]
      cases text <;> rfl

theorem interfaceOps_restated {type other : TypeDef}
    (attributes : List.Forall₂ (Attribute.Restates config) type.attributes other.attributes) :
    config.interfaceOps owner type = config.interfaceOps owner other := by
  unfold interfaceOps
  refine mapM_congr_forall₂ ((markers_restated attributes .implements).imp fun given other alike => ?_)
  refine alike.1.bind alike.2 (fun value other agrees => ?_) nofun
  unfold MarkerArgs.type
  rw [MarkerArgs.type?_congr (agrees.said ⟨"TargetType", 0, .type⟩ (by decide))]
  rfl

theorem injectDescriptor_restated {method method' : MethodDef} {given other : Attribute}
    (restates : method.Restates config method') (alike : Attribute.Restates config given other)
    (named : given.typeName = config.attributeName Marker.inject.name) (index : Nat) :
    config.injectDescriptor owner index method given = config.injectDescriptor owner index method' other := by
  obtain ⟨rest, params, -⟩ := restates
  have name : method'.name = method.name := by rw [rest]
  have roles (owner : String) : method.params.mapM (config.paramRole owner) = method'.params.mapM (config.paramRole owner) :=
    mapM_congr_forall₂ (params.imp fun _ _ alike => paramRole_restated alike)
  unfold injectDescriptor
  rw [name]
  simp only [roles]
  refine alike.bind named (fun value other agrees => ?_) nofun
  have said (slot : Slot) (documented : slot ∈ Marker.inject.slots) := agrees.said slot documented
  unfold MarkerArgs.string
  rw [MarkerArgs.string?_congr (said ⟨"Method", 0, .string⟩ (by decide)),
    MarkerArgs.string?_congr (said ⟨"At", 1, .string⟩ (by decide)),
    MarkerArgs.bool_congr (said ⟨"Cancellable", 2, .boolean⟩ (by decide)),
    MarkerArgs.string?_congr (said ⟨"CancelTarget", 3, .string⟩ (by decide)),
    MarkerArgs.integerOr_congr (said ⟨"ExpectedInjections", 4, .integer⟩ (by decide))]
  rfl

theorem overwriteOps_restated {type other : TypeDef}
    (methods : List.Forall₂ (MethodDef.Restates config) type.methods other.methods) :
    config.overwriteOps type = config.overwriteOps other := by
  unfold overwriteOps
  refine List.forall₂_eq_eq_eq ▸ List.rel_filterMap ?_ (forall₂_zipIdx methods 0)
  rintro ⟨method, index⟩ ⟨method', _⟩ ⟨restates, rfl⟩
  obtain ⟨rest, -, attributes⟩ : method.Restates config method' := restates
  have name : method'.name = method.name := by rw [rest]
  rcases marker?_restated attributes .overwrite with ⟨one, two⟩ | ⟨given, given', one, two, -⟩
  · simp only [one, two]
    exact .none
  · simp only [one, two, name]
    exact .some rfl

theorem injectOps_restated {type other : TypeDef}
    (methods : List.Forall₂ (MethodDef.Restates config) type.methods other.methods) :
    config.injectOps owner type = config.injectOps owner other := by
  unfold injectOps
  refine mapM_congr_forall₂ (List.rel_filterMap ?_ (forall₂_zipIdx methods 0))
  rintro ⟨method, index⟩ ⟨method', _⟩ ⟨restates, rfl⟩
  rcases marker?_restated restates.attributes .inject with ⟨one, two⟩ | ⟨given, given', one, two, alike, named⟩
  · simp only [one, two]
    exact .none
  · simp only [one, two]
    refine .some ?_
    rw [injectDescriptor_restated restates alike named]

theorem mixinDescriptor?_restated {type other : TypeDef} (restates : type.Restates config other) :
    config.mixinDescriptor? type = config.mixinDescriptor? other := by
  obtain ⟨rest, fields, methods, attributes⟩ := restates
  have fullName : other.fullName = type.fullName := by
    rw [rest]
    rfl
  have described (owner : String) :
      type.fields.mapM (config.fieldDescriptor owner) = other.fields.mapM (config.fieldDescriptor owner) :=
    mapM_congr_forall₂ (fields.imp fun _ _ alike => fieldDescriptor_restated alike)
  unfold mixinDescriptor?
  rw [fullName]
  rcases marker?_restated attributes .mixin with ⟨one, two⟩ | ⟨given, given', one, two, alike, named⟩
  · simp only [one, two]
  · simp only [one, two, described, interfaceOps_restated attributes, overwriteOps_restated methods,
      injectOps_restated methods]
    refine alike.bind named (fun value other agrees => ?_) nofun
    rw [mixinTarget_congr agrees, mixinPriority_congr agrees]

end WeaveConfig

/-- Mixins are described alike however the arguments of their annotations are written. -/
theorem WeaveConfig.mixinDescriptors_restated {config : WeaveConfig} {module other : Module}
    (restated : List.Forall₂ (TypeDef.Restates config) module.types other.types) :
    config.mixinDescriptors module = config.mixinDescriptors other := by
  unfold mixinDescriptors
  rw [mapM_congr_forall₂ (restated.imp fun _ _ alike => mixinDescriptor?_restated alike)]

namespace Phrasing

def marked (marker : Marker) (fixed : List Argument) (named : List NamedArgument) : Attribute :=
  ⟨.onInstance (.classType ⟨some "DotMixin", "DotMixin", marker.name⟩) ".ctor" .void [], .decoded ⟨fixed, named⟩⟩

def property (name : String) (tag : UInt8) (value : Argument) : NamedArgument := ⟨false, name, tag, value⟩

def module (mixin captured slot inject : Attribute) : Module :=
  ⟨"Mods", [],
    [{ TypeDef.empty "" "M" ⟨0⟩ none with
        fields := [⟨"total", ⟨0⟩, .primitive .int32, [captured]⟩]
        methods := [⟨"notice", ⟨0⟩, .void, [⟨"x", .primitive .int32, [slot]⟩], none, [inject]⟩]
        attributes := [mixin] }]⟩

def test : Argument := .string "System.Void T::Test()"

def head : NamedArgument := property "At" 14 (.string "HEAD")

def twice : NamedArgument := property "ExpectedInjections" 8 (.int32 2)

/-- Most is given by position. -/
def terse : Module :=
  module (marked .mixin [.type "T", .int32 3] []) (marked .captureField [.string "count"] [])
    (marked .captureLocal [.int32 0, .type "System.Int32"] []) (marked .inject [test] [head, twice])

/-- Most is given by name; what is given by position, too, says something else there. -/
def wordy : Module :=
  module (marked .mixin [.type "T"] [property "priority" 8 (.int32 3)])
    (marked .captureField [] [property "NAME" 14 (.string "count")])
    (marked .captureLocal [.int32 0] [property "type" 80 (.type "System.Int32")])
    (marked .inject [test, .string "RETURN"] [twice, head])

def described : MixinDescriptor :=
  ⟨"M", .type "T", 3, [.capture "total" "count"],
    [.inject ⟨0, "notice", "System.Void T::Test()", .head, false, .return, 2, [.captureLocal 0 (.primitive .int32)]⟩]⟩

theorem marked_restates {marker : Marker} {fixed others : List Argument} {named more : List NamedArgument}
    (restates : AttributeValue.Restates marker ⟨fixed, named⟩ ⟨others, more⟩) :
    Attribute.Restates .standard (marked marker fixed named) (marked marker others more) := by
  have named : (marked marker fixed named).typeName = WeaveConfig.standard.attributeName marker.name := by cases marker <;> rfl
  exact .marked named rfl rfl rfl restates

theorem restates_wordy : List.Forall₂ (TypeDef.Restates .standard) terse.types wordy.types := by
  have mixin : AttributeValue.Restates .mixin ⟨[.type "T", .int32 3], []⟩
      ⟨[.type "T"], [property "priority" 8 (.int32 3)]⟩ :=
    .rel _ _ (.inl (@AttributeValue.Rewrites.named .mixin ⟨"Priority", 1, .integer⟩ [.type "T"] [] []
      (property "priority" 8 (.int32 3)) (by decide) rfl rfl (by decide) nofun))
  have captured : AttributeValue.Restates .captureField ⟨[.string "count"], []⟩
      ⟨[], [property "NAME" 14 (.string "count")]⟩ :=
    .rel _ _ (.inr ⟨rfl, @AttributeValue.Renames.name [] [] (property "NAME" 14 (.string "count")) ⟨_, rfl⟩ (by decide)
      nofun⟩)
  have slot : AttributeValue.Restates .captureLocal ⟨[.int32 0, .type "System.Int32"], []⟩
      ⟨[.int32 0], [property "type" 80 (.type "System.Int32")]⟩ :=
    .rel _ _ (.inl (@AttributeValue.Rewrites.named .captureLocal ⟨"Type", 1, .type⟩ [.int32 0] [] []
      (property "type" 80 (.type "System.Int32")) (by decide) rfl ⟨_, rfl⟩ (by decide) nofun))
  have turned : AttributeValue.Restates .inject ⟨[test], [head, twice]⟩ ⟨[test], [twice, head]⟩ :=
    .rel _ _ (.inl (.permuted (.swap _ _ _) (by decide)))
  have more : AttributeValue.Restates .inject ⟨[test], [twice, head]⟩ ⟨[test, .string "RETURN"], [twice, head]⟩ :=
    .rel _ _ (.inl (@AttributeValue.Rewrites.surplus .inject ⟨"At", 1, .string⟩ [test] [twice, head] (.string "RETURN")
      (by decide) rfl ⟨_, rfl⟩ ⟨head, List.mem_cons_of_mem _ (List.mem_singleton_self _), by decide⟩))
  refine .cons ⟨rfl, .cons ⟨rfl, .cons ?field .nil⟩ .nil,
    .cons ⟨rfl, .cons ⟨rfl, .cons ?param .nil⟩ .nil, .cons ?method .nil⟩ .nil, .cons ?type .nil⟩ .nil
  case field => exact marked_restates captured
  case param => exact marked_restates slot
  case method => exact marked_restates (.trans _ _ _ turned more)
  case type => exact marked_restates mixin

theorem mixinDescriptors_restated_wordy :
    List.Forall₂ (TypeDef.Restates .standard) terse.types wordy.types ∧
      WeaveConfig.standard.mixinDescriptors terse = WeaveConfig.standard.mixinDescriptors wordy ∧
      WeaveConfig.standard.mixinDescriptors terse = .ok [described] :=
  ⟨restates_wordy, WeaveConfig.mixinDescriptors_restated restates_wordy, ok_of_toOption (by decide +kernel)⟩

end Phrasing

end CilWeave
