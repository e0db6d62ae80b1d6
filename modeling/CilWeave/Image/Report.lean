import CilWeave.Image.Basic
import CilWeave.Mixin.Weave

/-!
Images of what a weave did.
-/

namespace CilWeave

open Image

instance : Image AppliedMixin where
  write spelling applied := record
    [member spelling "mixin_type" applied.mixinType,
     member spelling "target_type" applied.targetType,
     member spelling "fields_added" applied.fieldsAdded,
     member spelling "interfaces" applied.interfaces,
     member spelling "overwrites" applied.overwrites,
     member spelling "injections" applied.injections,
     member spelling "touched" applied.touched]
  read? room json := do
    let names := ["mixin_type", "target_type", "fields_added", "interfaces", "overwrites", "injections", "touched"]
    match ← fields? names room json with
    | (room, [mixinType, targetType, fieldsAdded, interfaces, overwrites, injections, touched]) =>
      return ⟨← required? room mixinType, ← required? room targetType, ← required? room fieldsAdded,
        ← required? room interfaces, ← required? room overwrites, ← required? room injections,
        ← required? room touched⟩
    | _ => none

instance : Image WeaveReport where
  write spelling report := record
    [member spelling "module" report.module,
     member spelling "mixins" report.mixins,
     member spelling "verified" report.verified,
     member spelling "unverified" report.unverified]
  read? room json := do
    match ← fields? ["module", "mixins", "verified", "unverified"] room json with
    | (room, [module, mixins, verified, unverified]) =>
      return ⟨← required? room module, ← required? room mixins, ← required? room verified,
        ← required? room unverified⟩
    | _ => none

end CilWeave
