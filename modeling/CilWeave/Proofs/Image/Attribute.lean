import CilWeave.Image.Attribute
import CilWeave.Proofs.Image.Signature

/-!
Attributes are read back from their images. Only the numbers among their decoded arguments can be lost.
-/

namespace CilWeave

open Image

namespace Argument

mutual

def scalars : Argument → List Scalar
  | .single value => [.single value]
  | .double value => [.double value]
  | .array (some elements) => scalarsAll elements
  | .enum _ value => scalars value
  | _ => []

def scalarsAll : List Argument → List Scalar
  | [] => []
  | argument :: rest => scalars argument ++ scalarsAll rest

end

mutual

/-- The argument as it is read: every number is what its numeral stands for. -/
def reread : Argument → Argument
  | .single value => .single value.reread
  | .double value => .double value.reread
  | .array (some elements) => .array (some (rereadAll elements))
  | .enum typeName value => .enum typeName (reread value)
  | argument => argument

def rereadAll : List Argument → List Argument
  | [] => []
  | argument :: rest => reread argument :: rereadAll rest

end

theorem writeAll_eq_map (spelling : NumberSpelling) (arguments : List Argument) :
    writeAll spelling arguments = arguments.map (write spelling) :=
  Json.eq_map_of_cons rfl (fun _ _ => rfl) arguments

theorem scalarsAll_eq_flatMap (arguments : List Argument) : scalarsAll arguments = arguments.flatMap scalars := by
  induction arguments with
  | nil => rfl
  | cons argument rest ih => rw [scalarsAll, ih, List.flatMap_cons]

theorem rereadAll_eq_map (arguments : List Argument) : rereadAll arguments = arguments.map reread :=
  Json.eq_map_of_cons rfl (fun _ _ => rfl) arguments

theorem kept_elements {elements : List Argument}
    (each : ∀ argument ∈ elements, Kept argument argument.reread argument.scalars) :
    Kept (Argument.array (some elements)) (.array (some (rereadAll elements))) (scalarsAll elements) := by
  have written : write plain (.array (some elements)) = .tagged "Array" (Image.write plain elements) := by
    rw [write, writeAll_eq_map]
    rfl
  have listed : Kept elements (elements.map reread) (elements.flatMap scalars) := kept_list each
  have tagged : Restores [some (.tagged "Array" (Image.write plain elements))]
      (fun room => read? room (write plain (.array (some elements)))) (elements.flatMap scalars)
      (.array (some (elements.map reread))) := by
    refine (listed.map fun elements => Argument.array (some elements)).tag ?_ fun room => ?_
    · rw [written]
      rfl
    · rw [written]
      cases room <;> rfl
  rw [← written, ← scalarsAll_eq_flatMap, ← rereadAll_eq_map] at tagged
  exact tagged

theorem kept_text? (text : Option String) : Kept text text [] :=
  match text with
  | none => kept_none
  | some text => kept_some (kept_string text) (by simp [Image.write])

theorem kept_enum (typeName : String) {value : Argument} (kept : Kept value value.reread value.scalars) :
    Kept (Argument.enum typeName value) (.enum typeName value.reread) value.scalars := by
  have both : Restores ([Image.write plain typeName, Image.write plain value].map some)
      (fun room => Image.read? room (Image.write plain typeName) >>= fun typeName =>
        Image.read? room (Image.write plain value) >>= fun value => some (Argument.enum typeName value))
      ([] ++ (value.scalars ++ [])) (.enum typeName value.reread) :=
    .field (kept_string typeName) (.field kept (.pure _))
  have pair : Restores [some (.array [Image.write plain typeName, Image.write plain value])]
      (fun room => read? (room + 1) (write plain (.enum typeName value))) ([] ++ (value.scalars ++ []))
      (.enum typeName value.reread) :=
    both.array rfl fun _ => rfl
  exact (pair.tag rfl fun _ => rfl).of_scalars (by simp)

mutual

theorem kept (argument : Argument) : Kept argument argument.reread argument.scalars :=
  match argument with
  | .bool value => Restores.tag (Restores.map Argument.bool (kept_bool value)) rfl fun _ => rfl
  | .char value => Restores.tag (Restores.map Argument.char (kept_char value)) rfl fun _ => rfl
  | .int8 value => Restores.tag (Restores.map Argument.int8 (kept_int8 value)) rfl fun _ => rfl
  | .uint8 value => Restores.tag (Restores.map Argument.uint8 (kept_uint8 value)) rfl fun _ => rfl
  | .int16 value => Restores.tag (Restores.map Argument.int16 (kept_int16 value)) rfl fun _ => rfl
  | .uint16 value => Restores.tag (Restores.map Argument.uint16 (kept_uint16 value)) rfl fun _ => rfl
  | .int32 value => Restores.tag (Restores.map Argument.int32 (kept_int32 value)) rfl fun _ => rfl
  | .uint32 value => Restores.tag (Restores.map Argument.uint32 (kept_uint32 value)) rfl fun _ => rfl
  | .int64 value => Restores.tag (Restores.map Argument.int64 (kept_int64 value)) rfl fun _ => rfl
  | .uint64 value => Restores.tag (Restores.map Argument.uint64 (kept_uint64 value)) rfl fun _ => rfl
  | .single value => Restores.tag (Restores.map Argument.single (kept_single value)) rfl fun _ => rfl
  | .double value => Restores.tag (Restores.map Argument.double (kept_double value)) rfl fun _ => rfl
  | .string text => Restores.tag (Restores.map Argument.string (kept_text? text)) rfl fun _ => rfl
  | .type name => Restores.tag (Restores.map Argument.type (kept_text? name)) rfl fun _ => rfl
  | .array none => Restores.tag (.scalar .null rfl fun _ => rfl) rfl fun _ => rfl
  | .array (some elements) => kept_elements (keptAll elements)
  | .enum typeName value => kept_enum typeName (kept value)

theorem keptAll (arguments : List Argument) : ∀ argument ∈ arguments, Kept argument argument.reread argument.scalars :=
  match arguments with
  | [] => by simp
  | argument :: rest => List.forall_mem_cons.mpr ⟨kept argument, keptAll rest⟩

end

mutual

theorem reread_eq (argument : Argument) (faithful : ∀ scalar ∈ argument.scalars, scalar.Faithful) :
    argument.reread = argument :=
  match argument with
  | .single _ => congrArg Argument.single (Single.reread_eq (faithful _ List.mem_cons_self))
  | .double _ => congrArg Argument.double (Double.reread_eq (faithful _ List.mem_cons_self))
  | .array (some elements) => congrArg (fun elements => Argument.array (some elements)) (rereadAll_eq elements faithful)
  | .enum typeName value => congrArg (Argument.enum typeName) (reread_eq value faithful)
  | .bool _ | .char _ | .int8 _ | .uint8 _ | .int16 _ | .uint16 _ | .int32 _ | .uint32 _ | .int64 _ | .uint64 _ | .string _
  | .type _ | .array none => rfl

theorem rereadAll_eq (arguments : List Argument) (faithful : ∀ scalar ∈ scalarsAll arguments, scalar.Faithful) :
    rereadAll arguments = arguments :=
  match arguments with
  | [] => rfl
  | argument :: rest => by
      obtain ⟨here, later⟩ := List.forall_mem_append.mp faithful
      rw [rereadAll, reread_eq argument here, rereadAll_eq rest later]

end

end Argument

section

variable (argument : NamedArgument) (value : AttributeValue) (data : AttributeData) (given : Attribute)

def NamedArgument.scalars : List Scalar := argument.value.scalars

def NamedArgument.reread : NamedArgument := { argument with value := argument.value.reread }

def AttributeValue.scalars : List Scalar :=
  value.fixed.flatMap Argument.scalars ++ value.named.flatMap NamedArgument.scalars

def AttributeValue.reread : AttributeValue := ⟨value.fixed.map Argument.reread, value.named.map NamedArgument.reread⟩

def AttributeData.scalars : AttributeData → List Scalar
  | .raw _ => []
  | .decoded value => value.scalars

def AttributeData.reread : AttributeData → AttributeData
  | .raw bytes => .raw bytes
  | .decoded value => .decoded value.reread

def Attribute.scalars : List Scalar := given.data.scalars

def Attribute.reread : Attribute := { given with data := given.data.reread }

end

theorem NamedArgument.kept (argument : NamedArgument) : Kept argument argument.reread argument.scalars :=
  .record (by simp [Named]) (by decide)
    (.field (kept_bool _) (.field (kept_string _) (.field (kept_uint8 _) (.field (Argument.kept _) (.pure _)))))
    (by simp [scalars])

theorem AttributeValue.kept (value : AttributeValue) : Kept value value.reread value.scalars :=
  .record (by simp [Named]) (by decide)
    (.field (kept_list fun argument _ => argument.kept) (.field (kept_list fun argument _ => argument.kept) (.pure _)))
    (by simp [scalars])

theorem AttributeData.kept (data : AttributeData) : Kept data data.reread data.scalars := by
  cases data with
  | raw bytes => exact ((Lossless.list kept_uint8 bytes).map AttributeData.raw).tag rfl fun _ => rfl
  | decoded value => exact (value.kept.map AttributeData.decoded).tag rfl fun _ => rfl

theorem Attribute.kept (given : Attribute) : Kept given given.reread given.scalars :=
  .record (by simp [Named]) (by decide)
    (.field (MethodRef.lossless _) (.field (AttributeData.kept _) (.pure _))) (by simp [scalars])

theorem NamedArgument.reread_eq (argument : NamedArgument) (faithful : ∀ scalar ∈ argument.scalars, scalar.Faithful) :
    argument.reread = argument := by
  rw [reread, Argument.reread_eq _ faithful]

theorem AttributeValue.reread_eq (value : AttributeValue) (faithful : ∀ scalar ∈ value.scalars, scalar.Faithful) :
    value.reread = value := by
  obtain ⟨byPosition, byName⟩ := List.forall_mem_append.mp faithful
  have fixed := map_reread (fun argument _ => argument.reread_eq) byPosition
  have named := map_reread (fun argument _ => argument.reread_eq) byName
  rw [reread, fixed, named, List.map_id', List.map_id']

theorem Attribute.reread_eq (given : Attribute) (faithful : ∀ scalar ∈ given.scalars, scalar.Faithful) :
    given.reread = given := by
  obtain ⟨constructor, data⟩ := given
  cases data with
  | raw bytes => rfl
  | decoded value => rw [reread, AttributeData.reread, value.reread_eq faithful]

end CilWeave
