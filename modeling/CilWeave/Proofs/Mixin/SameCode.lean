import CilWeave.Proofs.Mixin.Counters
import CilWeave.Proofs.Store.Loading

/-!
Definitions of the same code: methods, types and modules that differ at most in the counters of their bodies, which go on alike.
What is looked up in one is found at the same place in the other, and a change that is made to both leaves them alike.
-/

namespace CilWeave

section

variable {α β γ : Type} {related : α → β → Prop} {left : List α} {right : List β}

theorem forall₂_getElem? (all : List.Forall₂ related left right) (index : Nat) :
    Option.Rel related left[index]? right[index]? := by
  induction all generalizing index with
  | nil => exact .none
  | cons same _ ih =>
      cases index with
      | zero => exact .some same
      | succ index => exact ih index

theorem rel_map_eq {view : α → γ} {view' : β → γ} {left : Option α} {right : Option β}
    (same : Option.Rel related left right)
    (agree : ∀ item item', related item item' → view' item' = view item) : right.map view' = left.map view := by
  cases same with
  | none => rfl
  | some same => exact congrArg some (agree _ _ same)

/-- What is to hold of two related results holds if it does when there are none and when there are two. -/
@[elab_as_elim]
theorem rel_elim {left : Option α} {right : Option β} {motive : Option α → Option β → Prop}
    (same : Option.Rel related left right)
    (none : motive none none) (some : ∀ item item', related item item' → motive (some item) (some item')) :
    motive left right := by
  cases same with
  | none => exact none
  | some same => exact some _ _ same

theorem rel_any_eq {wanted : α → Bool} {wanted' : β → Bool} {left : Option α} {right : Option β}
    (same : Option.Rel related left right) (agree : ∀ item item', related item item' → wanted' item' = wanted item) :
    right.any wanted' = left.any wanted := by
  cases same with
  | none => rfl
  | some same => exact agree _ _ same

theorem rel_isSome_eq {left : Option α} {right : Option β} (same : Option.Rel related left right) :
    right.isSome = left.isSome := by
  cases same <;> rfl

theorem forall₂_modify (all : List.Forall₂ related left right) (index : Nat) {change : α → α} {change' : β → β}
    (keeps : ∀ item item', related item item' → related (change item) (change' item')) :
    List.Forall₂ related (left.modify index change) (right.modify index change') := by
  induction all generalizing index with
  | nil => simp
  | cons same rest ih =>
      cases index with
      | zero => exact .cons (keeps _ _ same) rest
      | succ index => exact .cons same (ih index)

theorem forall₂_set (all : List.Forall₂ related left right) (index : Nat) {item : α} {item' : β}
    (same : related item item') :
    List.Forall₂ related (left.set index item) (right.set index item') := by
  rw [List.set_eq_modify, List.set_eq_modify]
  exact forall₂_modify all index fun _ _ _ => same

theorem forall₂_map {view : α → γ} {view' : β → γ} (all : List.Forall₂ related left right)
    (agree : ∀ item item', related item item' → view' item' = view item) : right.map view' = left.map view := by
  induction all with
  | nil => rfl
  | cons same _ ih => rw [List.map_cons, List.map_cons, agree _ _ same, ih]

theorem forall₂_findIdx? {wanted : α → Bool} {wanted' : β → Bool} (all : List.Forall₂ related left right)
    (agree : ∀ item item', related item item' → wanted' item' = wanted item) :
    right.findIdx? wanted' = left.findIdx? wanted := by
  induction all with
  | nil => rfl
  | cons same _ ih => rw [List.findIdx?_cons, List.findIdx?_cons, agree _ _ same, ih]

theorem forall₂_find? {wanted : α → Bool} {wanted' : β → Bool} (all : List.Forall₂ related left right)
    (agree : ∀ item item', related item item' → wanted' item' = wanted item) :
    Option.Rel related (left.find? wanted) (right.find? wanted') := by
  induction all with
  | nil => exact .none
  | cons same _ ih =>
      rw [List.find?_cons, List.find?_cons, agree _ _ same]
      split
      · exact .some same
      · exact ih

end

/-- Two methods that differ at most in the counters of their bodies, which go on alike. -/
inductive MethodDef.SameCode (method : MethodDef) : MethodDef → Prop
  | of (body : Option Body) (alike : Option.Rel Body.SameCode method.body body) : SameCode method { method with body }

/-- Two types that differ at most in the counters of their methods. -/
inductive TypeDef.SameCode (type : TypeDef) : TypeDef → Prop
  | of (methods : List MethodDef) (alike : List.Forall₂ MethodDef.SameCode type.methods methods) :
      SameCode type { type with methods }

/-- Two modules that differ at most in the counters of their methods. -/
inductive Module.SameCode (module : Module) : Module → Prop
  | of (types : List TypeDef) (alike : List.Forall₂ TypeDef.SameCode module.types types) :
      SameCode module { module with types }

namespace MethodDef

variable {method other : MethodDef}

theorem SameCode.refl (method : MethodDef) : method.SameCode method := by
  obtain ⟨name, flags, returns, params, body, attributes⟩ := method
  refine .of _ ?_
  cases body with
  | none => exact .none
  | some body => exact .some (.refl body)

theorem SameCode.withBody (same : method.SameCode other) {body body' : Body} (code : body.SameCode body') :
    SameCode { method with body := some body } { other with body := some body' } := by
  obtain ⟨_, -⟩ := same
  exact .of _ (.some code)

theorem SameCode.fullNameIn (same : method.SameCode other) (declaring : String) :
    other.fullNameIn declaring = method.fullNameIn declaring := by
  obtain ⟨_, -⟩ := same
  rfl

theorem SameCode.restart (same : method.SameCode other) : other.restart = method.restart := by
  obtain ⟨body, alike⟩ := same
  rw [MethodDef.restart, MethodDef.restart, rel_map_eq alike fun _ _ code => code.restart]

/-- Depths are found in the code. -/
theorem SameCode.maxDepth (same : method.SameCode other) : other.maxDepth = method.maxDepth := by
  obtain ⟨name, flags, returns, params, body, attributes⟩ := method
  obtain ⟨body, alike⟩ := same
  cases alike with
  | none => rfl
  | @some body _ code =>
      obtain ⟨next, -⟩ := code
      exact StackContext.maxDepth_rewritten ⟨body, argumentCount ⟨name, flags, returns, params, some body, attributes⟩,
        !returns.isVoid⟩ body.maxStack _

theorem SameCode.withMaxStack (same : method.SameCode other) (depth : UInt16) :
    (method.withMaxStack depth).SameCode (other.withMaxStack depth) := by
  obtain ⟨name, flags, returns, params, body, attributes⟩ := method
  obtain ⟨body, alike⟩ := same
  refine .of _ ?_
  cases alike with
  | none => exact .none
  | some code => exact .some (code.withMaxStack depth)

end MethodDef

namespace TypeDef

variable {type other : TypeDef}

theorem SameCode.fullName (same : type.SameCode other) : other.fullName = type.fullName := by
  obtain ⟨_, -⟩ := same
  rfl

theorem SameCode.methods (same : type.SameCode other) : List.Forall₂ MethodDef.SameCode type.methods other.methods := by
  obtain ⟨methods, alike⟩ := same
  exact alike

theorem SameCode.bodyAt (same : type.SameCode other) (index : Nat) :
    Option.Rel Body.SameCode ((type.methods[index]?).bind (·.body)) ((other.methods[index]?).bind (·.body)) := by
  refine rel_elim (forall₂_getElem? same.methods index) .none fun method method' alike => ?_
  obtain ⟨body, code⟩ := alike
  exact code

theorem SameCode.methodIndex? (same : type.SameCode other) (name : String) : other.methodIndex? name = type.methodIndex? name :=
  forall₂_findIdx? same.methods fun method method' alike => by rw [alike.fullNameIn, same.fullName]

theorem SameCode.restart (same : type.SameCode other) : other.restart = type.restart := by
  obtain ⟨methods, alike⟩ := same
  rw [TypeDef.restart, TypeDef.restart, forall₂_map alike fun _ _ one => one.restart]

theorem SameCode.modify (same : type.SameCode other) (index : Nat) {change change' : MethodDef → MethodDef}
    (keeps : ∀ method method', method.SameCode method' → (change method).SameCode (change' method')) :
    SameCode { type with methods := type.methods.modify index change }
      { other with methods := other.methods.modify index change' } := by
  obtain ⟨methods, alike⟩ := same
  exact .of _ (forall₂_modify alike index keeps)

end TypeDef

namespace Module

variable {module other : Module}

theorem SameCode.types (same : module.SameCode other) : List.Forall₂ TypeDef.SameCode module.types other.types := by
  obtain ⟨types, alike⟩ := same
  exact alike

theorem SameCode.typeIndex? (same : module.SameCode other) (name : String) : other.typeIndex? name = module.typeIndex? name :=
  forall₂_findIdx? same.types fun type type' alike => by rw [alike.fullName]

theorem SameCode.type? (same : module.SameCode other) (name : String) :
    Option.Rel TypeDef.SameCode (module.type? name) (other.type? name) :=
  forall₂_find? same.types fun type type' alike => by rw [alike.fullName]

theorem SameCode.resolveType? (same : module.SameCode other) (reference : TypeRef) :
    Option.Rel TypeDef.SameCode (module.resolveType? reference) (other.resolveType? reference) := by
  have found := same.type? reference.fullName
  obtain ⟨types, -⟩ := same
  have scope : Module.isLocal { module with types } reference.scope = module.isLocal reference.scope := rfl
  rw [Module.resolveType?, Module.resolveType?, scope]
  split
  · exact found
  · exact .none

theorem SameCode.restart (same : module.SameCode other) : other.restart = module.restart := by
  obtain ⟨types, alike⟩ := same
  rw [Module.restart, Module.restart, forall₂_map alike fun _ _ one => one.restart]

theorem SameCode.modifyType (same : module.SameCode other) (name : String) {change change' : TypeDef → TypeDef}
    (keeps : ∀ type type', type.SameCode type' → (change type).SameCode (change' type')) :
    (module.modifyType name change).SameCode (other.modifyType name change') := by
  rw [Module.modifyType, Module.modifyType, same.typeIndex?]
  obtain ⟨types, alike⟩ := same
  split
  · exact .of _ (forall₂_modify alike _ keeps)
  · exact .of _ alike

end Module

end CilWeave
