import CilWeave.Image.Definition
import CilWeave.Proofs.Definition.Flags
import CilWeave.Proofs.Image.Attribute
import CilWeave.Proofs.Image.Code

/-!
Definitions and modules are read back from their images, up to the counters of bodies. Fields that are left out when they are
empty, absent or none read as what they were.
-/

namespace CilWeave

open Image

section

variable (field : FieldDef) (param : ParamDef) (method : MethodDef) (type : TypeDef) (module : Module)

def FieldDef.scalars : List Scalar := field.attributes.flatMap Attribute.scalars

def ParamDef.scalars : List Scalar := param.attributes.flatMap Attribute.scalars

def MethodDef.scalars : List Scalar :=
  method.params.flatMap ParamDef.scalars ++ method.body.toList.flatMap Body.scalars ++
    method.attributes.flatMap Attribute.scalars

def TypeDef.scalars : List Scalar :=
  type.fields.flatMap FieldDef.scalars ++ type.methods.flatMap MethodDef.scalars ++ type.attributes.flatMap Attribute.scalars

def Module.scalars : List Scalar := module.types.flatMap TypeDef.scalars

def FieldDef.reread : FieldDef := { field with attributes := field.attributes.map Attribute.reread }

def ParamDef.reread : ParamDef := { param with attributes := param.attributes.map Attribute.reread }

def MethodDef.reread : MethodDef :=
  { method with
    params := method.params.map ParamDef.reread
    body := method.body.map Body.reread
    attributes := method.attributes.map Attribute.reread }

def TypeDef.reread : TypeDef :=
  { type with
    fields := type.fields.map FieldDef.reread
    methods := type.methods.map MethodDef.reread
    attributes := type.attributes.map Attribute.reread }

/-- The module as it is read: bodies without their counters, and every number is what its numeral stands for. -/
def Module.reread : Module := { module with types := module.types.map TypeDef.reread }

end

theorem TypeFlags.lossless : Lossless TypeFlags :=
  fun flags => .scalar (.string _) rfl fun _ => congrArg (Option.map TypeFlags.mk)
    (FlagNames.distinct_type.read?_write flags.bits)

theorem FieldFlags.lossless : Lossless FieldFlags :=
  fun flags => .scalar (.string _) rfl fun _ => congrArg (Option.map FieldFlags.mk)
    (FlagNames.distinct_field.read?_write flags.bits)

theorem MethodFlags.lossless : Lossless MethodFlags :=
  fun flags => .scalar (.string _) rfl fun _ => congrArg (Option.map MethodFlags.mk)
    (FlagNames.distinct_method.read?_write flags.bits)

theorem FieldDef.kept (field : FieldDef) : Kept field field.reread field.scalars :=
  .record (by simp [Named]) (by decide)
    (.field (kept_string _) (.field (FieldFlags.lossless _) (.field (TypeSig.kept _)
      (.field (restores_unlessEmpty fun given _ => given.kept) (.pure _))))) (by simp [scalars])

theorem ParamDef.kept (param : ParamDef) : Kept param param.reread param.scalars :=
  .record (by simp [Named]) (by decide)
    (.field (kept_string _) (.field (TypeSig.kept _) (.field (restores_unlessEmpty fun given _ => given.kept) (.pure _))))
    (by simp [scalars])

/-- The image of a body is an object. -/
theorem Body.write_ne_null (body : Body) : write plain body ≠ .null := by simp [write, record]

theorem MethodDef.kept (method : MethodDef) : Kept method method.reread method.scalars :=
  .record (by simp [Named]) (by decide)
    (.field (kept_string _) (.field (MethodFlags.lossless _) (.field (TypeSig.kept _)
      (.field (kept_list fun param _ => param.kept)
        (.field (restores_ifSome (fun body _ => body.kept) Body.write_ne_null)
          (.field (restores_unlessEmpty fun given _ => given.kept) (.pure _)))))))
    (by simp [scalars])

theorem TypeDef.kept (type : TypeDef) : Kept type type.reread type.scalars :=
  .record (by simp [Named]) (by decide)
    (.field (kept_string _) (.field (kept_string _) (.field (TypeFlags.lossless _)
      (.field (Lossless.ifSome TypeSig.lossless TypeSig.write_ne_null _) (.field (Lossless.unlessEmpty TypeSig.lossless _)
        (.field (kept_list fun field _ => field.kept) (.field (kept_list fun method _ => method.kept)
          (.field (restores_unlessEmpty fun given _ => given.kept) (.pure _)))))))))
    (by simp [scalars])

theorem Module.kept (module : Module) : Kept module module.reread module.scalars :=
  .record (by simp [Named]) (by decide)
    (.field (kept_string _) (.field (Lossless.list kept_string _) (.field (kept_list fun type _ => type.kept) (.pure _))))
    (by simp [scalars])

theorem attributes_reread_eq (attributes : List Attribute)
    (faithful : ∀ scalar ∈ attributes.flatMap Attribute.scalars, scalar.Faithful) :
    attributes.map Attribute.reread = attributes := by
  have same := map_reread (fun given _ => given.reread_eq) faithful
  rwa [List.map_id'] at same

theorem FieldDef.reread_eq (field : FieldDef) (faithful : ∀ scalar ∈ field.scalars, scalar.Faithful) :
    field.reread = field := by
  rw [reread, attributes_reread_eq _ faithful]

theorem ParamDef.reread_eq (param : ParamDef) (faithful : ∀ scalar ∈ param.scalars, scalar.Faithful) :
    param.reread = param := by
  rw [reread, attributes_reread_eq _ faithful]

theorem MethodDef.reread_eq (method : MethodDef) (faithful : ∀ scalar ∈ method.scalars, scalar.Faithful) :
    method.reread = method.restart := by
  obtain ⟨inside, outside⟩ := List.forall_mem_append.mp faithful
  obtain ⟨params, body⟩ := List.forall_mem_append.mp inside
  have params := map_reread (fun param _ => param.reread_eq) params
  have body : method.body.map Body.reread = method.body.map Body.restart :=
    Option.map_congr fun body defined => body.reread_eq fun scalar member => by
      exact ‹∀ scalar ∈ method.body.toList.flatMap Body.scalars, _› scalar
        (List.mem_flatMap.mpr ⟨body, Option.mem_toList.mpr defined, member⟩)
  rw [reread, params, body, attributes_reread_eq _ outside, List.map_id']
  rfl

theorem TypeDef.reread_eq (type : TypeDef) (faithful : ∀ scalar ∈ type.scalars, scalar.Faithful) :
    type.reread = type.restart := by
  obtain ⟨members, outside⟩ := List.forall_mem_append.mp faithful
  obtain ⟨fields, methods⟩ := List.forall_mem_append.mp members
  rw [reread, map_reread (fun field _ => field.reread_eq) fields, map_reread (fun method _ => method.reread_eq) methods,
    attributes_reread_eq _ outside, List.map_id']
  rfl

/-- Where numerals are read as the numbers that were written, nothing but the counters is lost. -/
theorem Module.reread_eq (module : Module) (faithful : ∀ scalar ∈ module.scalars, scalar.Faithful) :
    module.reread = module.restart := by
  rw [reread, map_reread (fun type _ => type.reread_eq) faithful]
  rfl

end CilWeave
