import CilWeave.Proofs.Body.Position
import CilWeave.Proofs.Stateful
import CilWeave.Store.Module

/-!
What loading guarantees: every body of a module that was read from disk has been validated, and none has
handed out an identity yet, because images do not hold the counter.
-/

namespace CilWeave

open Image Stateful

/-- A value that was read from an image. -/
def Image.IsRead {α : Type} [Image α] (value : α) : Prop := ∃ room json, read? room json = some value

namespace Image.IsRead

variable {α : Type} [Image α]

theorem ofList {values : List α} (given : IsRead values) : ∀ value ∈ values, IsRead value := by
  obtain ⟨room, json, read⟩ := given
  cases room with
  | zero => cases read
  | succ room =>
      cases json with
      | array elements =>
          have each (elements : List Json) (values : List α)
              (read : elements.mapM (read? room) = some values) : ∀ value ∈ values, IsRead value := by
            induction elements generalizing values with
            | nil =>
                cases read
                nofun
            | cons element rest ih =>
                rw [List.mapM_cons] at read
                obtain ⟨first, one, read⟩ := Option.bind_eq_some_iff.mp read
                obtain ⟨others, later, read⟩ := Option.bind_eq_some_iff.mp read
                cases read
                intro value member
                rcases List.mem_cons.mp member with rfl | more
                · exact ⟨room, element, one⟩
                · exact ih others later value more
          exact each elements values read
      | null | bool _ | number _ | string _ | object _ | textless => cases read

theorem ofSome {value : α} (given : IsRead (some value)) : IsRead value := by
  obtain ⟨room, json, read⟩ := given
  cases json with
  | null => cases read
  | bool _ | number _ | string _ | array _ | object _ | textless =>
      obtain ⟨same, one, held⟩ := Option.map_eq_some_iff.mp read
      cases held
      exact ⟨room, _, one⟩

theorem of_orElse {room : Nat} {missing value : α} {content : Option Json}
    (read : orElse? room missing content = some value) : value = missing ∨ IsRead value := by
  cases content with
  | none =>
      cases read
      exact .inl rfl
  | some json => exact .inr ⟨room, json, read⟩

end Image.IsRead

theorem Body.nextId_of_isRead {body : Body} (given : IsRead body) : body.nextId = 0 := by
  obtain ⟨room, json, read⟩ := given
  obtain ⟨⟨inner, contents⟩, -, read⟩ := Option.bind_eq_some_iff.mp read
  split at read
  · simp only [bind, Option.bind_eq_some_iff, pure, Option.some.injEq] at read
    obtain ⟨maxStack, -, initLocals, -, locals, -, instructions, -, rfl⟩ := read
    rfl
  · cases read

theorem MethodDef.body_of_isRead {method : MethodDef} (given : IsRead method) {body : Body}
    (defined : method.body = some body) : IsRead body := by
  obtain ⟨room, json, read⟩ := given
  obtain ⟨⟨inner, contents⟩, -, read⟩ := Option.bind_eq_some_iff.mp read
  split at read
  · simp only [bind, Option.bind_eq_some_iff, pure, Option.some.injEq] at read
    obtain ⟨name, -, flags, -, returns, -, params, -, held, code, attributes, -, rfl⟩ := read
    rcases Image.IsRead.of_orElse code with none | some
    · cases none.symm.trans defined
    · exact .ofSome (defined ▸ some)
  · cases read

theorem TypeDef.methods_of_isRead {type : TypeDef} (given : IsRead type) : ∀ method ∈ type.methods, IsRead method := by
  obtain ⟨room, json, read⟩ := given
  obtain ⟨⟨inner, contents⟩, -, read⟩ := Option.bind_eq_some_iff.mp read
  split at read
  · simp only [bind, Option.bind_eq_some_iff, pure, Option.some.injEq] at read
    obtain ⟨space, -, name, -, flags, -, base, -, interfaces, -, fields, -, methods, held, attributes, -, rfl⟩ := read
    rcases Image.IsRead.of_orElse held with none | some
    · simp [none]
    · exact some.ofList
  · cases read

theorem Module.types_of_isRead {module : Module} (given : IsRead module) : ∀ type ∈ module.types, IsRead type := by
  obtain ⟨room, json, read⟩ := given
  obtain ⟨⟨inner, contents⟩, -, read⟩ := Option.bind_eq_some_iff.mp read
  split at read
  · simp only [bind, Option.bind_eq_some_iff, pure, Option.some.injEq] at read
    obtain ⟨name, -, references, -, types, held, rfl⟩ := read
    rcases Image.IsRead.of_orElse held with none | some
    · simp [none]
    · exact some.ofList
  · cases read

/-- What holds of the body of every method that has one. -/
def Module.EachBody (module : Module) (holds : Body → Prop) : Prop :=
  ∀ type ∈ module.types, ∀ method ∈ type.methods, ∀ body ∈ method.body, holds body

instance (module : Module) (holds : Body → Prop) [DecidablePred holds] : Decidable (module.EachBody holds) := by
  unfold Module.EachBody
  infer_instance

theorem Module.validate_iff {module : Module} :
    module.validate = .ok () ↔ module.EachBody fun body => body.validate = .ok () := by
  simp only [validate, EachBody, forM_ok_iff]
  refine forall₂_congr fun type _ => forall₂_congr fun method _ => ?_
  cases method.body <;> simp

/-- The bodies of a module that was read and validated. -/
theorem Module.bodies_of_isRead {module : Module} (read : IsRead module) (valid : module.validate = .ok ()) :
    module.EachBody fun body => body.validate = .ok () ∧ body.nextId = 0 := by
  intro type listed method member body defined
  refine ⟨Module.validate_iff.mp valid type listed method member body defined, Body.nextId_of_isRead ?_⟩
  exact MethodDef.body_of_isRead (TypeDef.methods_of_isRead (Module.types_of_isRead read type listed) method member) defined

/-- A module loaded from disk was read from an image and validated. -/
theorem Disk.loadModule_ok {disk : Disk} {path : List String} {module : Module}
    (loaded : disk.loadModule path = .ok module) : IsRead module ∧ module.validate = .ok () := by
  unfold loadModule at loaded
  split at loaded
  · unfold Module.ofText at loaded
    split at loaded
    · cases loaded
    · rename_i read
      obtain ⟨⟨⟩, valid, loaded⟩ := bind_ok loaded
      cases loaded
      obtain ⟨json, -, given⟩ := Option.bind_eq_some_iff.mp read
      refine ⟨⟨_, json, given⟩, ?_⟩
      cases checked : module.validate with
      | ok done => rfl
      | error fault =>
          rw [checked] at valid
          cases valid
  · cases loaded

end CilWeave
