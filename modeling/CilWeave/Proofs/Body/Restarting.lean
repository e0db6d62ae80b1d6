import CilWeave.Definition.Module

/-!
Bodies without their counters, and definitions that hold such bodies. Images do not hold the counter of a body, so this is what
is left of a module that is saved and loaded; nothing that compares modules sees the difference.
-/

namespace CilWeave

/-- The body as an image holds it: without its counter. -/
def Body.restart (body : Body) : Body := { body with nextId := 0 }

def MethodDef.restart (method : MethodDef) : MethodDef := { method with body := method.body.map Body.restart }

def TypeDef.restart (type : TypeDef) : TypeDef := { type with methods := type.methods.map MethodDef.restart }

/-- The module as an image holds it: the counters of all bodies start over. -/
def Module.restart (module : Module) : Module := { module with types := module.types.map TypeDef.restart }

theorem map_beq {α : Type} [BEq α] {change : α → α} (same : ∀ item other, (change item == other) = (item == other))
    (items others : List α) : (items.map change == others) = (items == others) := by
  induction items generalizing others with
  | nil => rfl
  | cons item items ih =>
      cases others with
      | nil => rfl
      | cons other others => simp [same, ih]

theorem Body.restart_beq (body other : Body) : (body.restart == other) = (body == other) := rfl

theorem MethodDef.restart_beq (method other : MethodDef) : (method.restart == other) = (method == other) := by
  obtain ⟨name, flags, returns, params, body, attributes⟩ := method
  obtain ⟨name', flags', returns', params', body', attributes'⟩ := other
  cases body <;> cases body' <;> rfl

theorem TypeDef.restart_beq (type other : TypeDef) : (type.restart == other) = (type == other) := by
  obtain ⟨space, name, flags, base, interfaces, fields, methods, attributes⟩ := type
  obtain ⟨space', name', flags', base', interfaces', fields', methods', attributes'⟩ := other
  have same := map_beq MethodDef.restart_beq methods methods'
  change (_ && (_ && (_ && (_ && (_ && (_ && ((methods.map MethodDef.restart == methods') && _))))))) = _
  rw [same]
  rfl

theorem Module.restart_beq (module other : Module) : (module.restart == other) = (module == other) := by
  obtain ⟨name, assemblyRefs, types⟩ := module
  obtain ⟨name', assemblyRefs', types'⟩ := other
  have same := map_beq TypeDef.restart_beq types types'
  change (_ && (_ && (types.map TypeDef.restart == types'))) = _
  rw [same]
  rfl

end CilWeave
