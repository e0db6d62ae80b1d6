import CilWeave.Image.Signature
import CilWeave.Proofs.Image.Values

/-!
Signatures and references hold nothing that an image could lose.
-/

namespace CilWeave

open Image

theorem TypeRef.lossless : Lossless TypeRef := by
  intro reference
  exact .record (by simp [Named]) (by decide)
    (.field (Lossless.ifSome kept_string (by simp [write]) _)
      (.field (kept_string _) (.field (kept_string _) (.pure _)))) (by simp)

theorem Primitive.ofTag?_tag (kind : Primitive) : Primitive.ofTag? kind.tag = some kind := by
  cases kind <;> decide

namespace TypeSig

theorem writeAll_eq_map (spelling : NumberSpelling) (sigs : List TypeSig) :
    writeAll spelling sigs = sigs.map (write spelling) :=
  Json.eq_map_of_cons rfl (fun _ _ => rfl) sigs

theorem kept_primitive (kind : Primitive) : Kept (TypeSig.primitive kind) (.primitive kind) [] := by
  refine .scalar (.string kind.tag) rfl fun room => ?_
  cases room <;> exact congrArg (Option.map TypeSig.primitive) kind.ofTag?_tag

/-- The arguments of a generic type stand two arrays below it. -/
theorem kept_generic (reference : TypeRef) {arguments : List TypeSig} (each : ∀ sig ∈ arguments, Kept sig sig []) :
    Kept (TypeSig.generic reference arguments) (.generic reference arguments) [] := by
  have both : Restores ([Image.write plain reference, Image.write plain arguments].map some)
      (fun room => Image.read? room (Image.write plain reference) >>= fun reference =>
        Image.read? room (Image.write plain arguments) >>= fun arguments => some (TypeSig.generic reference arguments))
      [] (.generic reference arguments) :=
    .field (TypeRef.lossless reference) (.field (kept_whole each) (.pure _))
  have written : write plain (.generic reference arguments) =
      .tagged "GenericInst" (.array [Image.write plain reference, Image.write plain arguments]) := by
    rw [write, writeAll_eq_map]
    rfl
  have pair : Restores [some (.array [Image.write plain reference, Image.write plain arguments])]
      (fun room => read? (room + 1) (write plain (.generic reference arguments))) [] (.generic reference arguments) := by
    refine both.array ?_ fun room => ?_
    · rw [written]
      rfl
    · rw [written]
      cases room <;> rfl
  have tagged : Restores [some (.tagged "GenericInst" (.array [Image.write plain reference, Image.write plain arguments]))]
      (fun room => read? room (write plain (.generic reference arguments))) [] (.generic reference arguments) :=
    pair.tag (by rw [written]; rfl) fun _ => rfl
  rw [← written] at tagged
  exact tagged

mutual

theorem kept (sig : TypeSig) : Kept sig sig [] :=
  match sig with
  | .primitive kind => kept_primitive kind
  | .classType reference => ((TypeRef.lossless reference).map TypeSig.classType).tag rfl fun _ => rfl
  | .valueType reference => ((TypeRef.lossless reference).map TypeSig.valueType).tag rfl fun _ => rfl
  | .generic reference arguments => kept_generic reference (keptAll arguments)
  | .byRef target => ((kept target).map TypeSig.byRef).tag rfl fun _ => rfl
  | .array element => ((kept element).map TypeSig.array).tag rfl fun _ => rfl
  | .typeParam index => ((kept_uint32 index).map TypeSig.typeParam).tag rfl fun _ => rfl
  | .methodParam index => ((kept_uint32 index).map TypeSig.methodParam).tag rfl fun _ => rfl

theorem keptAll (sigs : List TypeSig) : ∀ sig ∈ sigs, Kept sig sig [] :=
  match sigs with
  | [] => by simp
  | sig :: rest => List.forall_mem_cons.mpr ⟨kept sig, keptAll rest⟩

end

theorem lossless : Lossless TypeSig := kept

/-- The image of a signature is a text or an object. -/
theorem write_ne_null (sig : TypeSig) : Image.write plain sig ≠ .null := by
  cases sig <;> simp [Image.write, write, Json.tagged]

end TypeSig

theorem MethodRef.lossless : Lossless MethodRef := by
  intro method
  exact .record (by simp [Named]) (by decide)
    (.field (TypeSig.kept _) (.field (kept_string _) (.field (TypeSig.kept _)
      (.field (TypeSig.lossless.list _) (.field (kept_bool _) (.pure _)))))) (by simp)

theorem FieldRef.lossless : Lossless FieldRef := by
  intro field
  exact .record (by simp [Named]) (by decide)
    (.field (TypeSig.kept _) (.field (kept_string _) (.field (TypeSig.kept _) (.pure _)))) (by simp)

end CilWeave
