import CilWeave.Assembler
import CilWeave.Attribute.Encoding
import CilWeave.Mixin.Config
import CilWeave.StackDepth

/-!
Why a weave fails. Each cause names the mixin and the members involved; its text is made in one place.
-/

namespace CilWeave

/-- What an argument of an annotation has to be. -/
inductive ArgumentKind where
  | string
  | type
  | boolean
  | integer
deriving DecidableEq

def ArgumentKind.text : ArgumentKind → String
  | .string => "a string"
  | .type => "a type"
  | .boolean => "a boolean"
  | .integer => "an integer"

/-- Why an annotation cannot be taken for what it says. -/
inductive MarkerFault where
  | unreadable (fault : BlobFault)
  | missing (name : String)
  | wrongKind (name : String) (wanted : ArgumentKind) (given : Argument)
  | priority (value : Int)
  | negativeCount (value : Int)
  | localIndex (index : Int)
  | capturedType (given stated : TypeSig)
  | storedType (given wanted : TypeSig)

open Decimal in
def MarkerFault.message : MarkerFault → String
  | .unreadable fault => if fault.isMalformed then "Malformed: " ++ fault.message else fault.message
  | .missing name => "required argument " ++ name ++ " is missing"
  | .wrongKind name wanted given => name ++ " must be " ++ wanted.text ++ ", got " ++ given.describe
  | .priority value => "Priority " ++ integerText value ++ " does not fit in an int32"
  | .negativeCount value => "ExpectedInjections must not be negative, got " ++ integerText value
  | .localIndex index => "local index " ++ integerText index ++ " out of range"
  | .capturedType given stated =>
    "parameter type " ++ given.fullName ++ " does not match captured local type " ++ stated.fullName
  | .storedType given wanted =>
    "parameter type " ++ given.fullName ++ " must be " ++ wanted.fullName ++ " to store the local"

/-- Requests that contradict each other or the target. -/
inductive ConfigurationFault where
  | twoTargets
  | noTarget
  | overwriteKind (patch method : String)
  | overwriteWithoutBody (patch : String)
  | injectWithoutBody (patch method : String)
  | injectKind (patch method : String)
  | carrierUnused (patch : String)
  | carrierNotLast (patch : String)

def ConfigurationFault.message : ConfigurationFault → String
  | .twoTargets => "TargetType and Target are mutually exclusive"
  | .noTarget => "Target Type not specified"
  | .overwriteKind patch method => "[Overwrite] " ++ patch ++ " must match the static-ness of " ++ method
  | .overwriteWithoutBody patch => "[Overwrite] " ++ patch ++ " has no body"
  | .injectWithoutBody patch method => "[Inject] " ++ patch ++ ": " ++ method ++ " has no body"
  | .injectKind patch method =>
    "[Inject] " ++ patch ++ ": callback must match the static-ness of " ++ method
  | .carrierUnused patch => "[Inject] " ++ patch ++ ": a carrier parameter requires Cancellable = true"
  | .carrierNotLast patch =>
    "[Inject] " ++ patch ++ ": cancellable callbacks must take the carrier as their last parameter"

/-- A description that does not match the mixin type it describes. -/
inductive DescriptorFault where
  | noType (mixin module : String)
  | noField (field mixin : String)
  | noMethod (index : Nat) (mixin : String)
  | roleCount (patch : String) (params roles : Nat)

open Decimal in
def DescriptorFault.message : DescriptorFault → String
  | .noType mixin module => "Mixin type " ++ mixin ++ " not found in " ++ module
  | .noField field mixin => "Field " ++ field ++ " not found on " ++ mixin
  | .noMethod index mixin => "Method #" ++ digitText index ++ " not found on " ++ mixin
  | .roleCount patch params roles =>
    patch ++ " has " ++ digitText params ++ " parameters but " ++ digitText roles ++ " decoded roles"

inductive WeaveFault where
  | configuration (mixin : String) (cause : ConfigurationFault)
  | malformed (marker owner : String) (cause : MarkerFault)
  | targetNotFound (target mixin : String)
  | targetMethodNotFound (method : String) (kind : Marker) (patch mixin : String)
  | interfaceMethodMissing (method mixin : String)
  | capturedFieldNotFound (field target mixin : String)
  | duplicateMember (member target mixin : String)
  | cancelTargetNotFound (line method patch mixin : String)
  | signatureMismatch (method expected found patch mixin : String)
  | returnTypeMismatch (method returns carrier patch mixin : String)
  | localTypeMismatch (index : UInt16) (expected found method patch mixin : String)
  | injectionCount (expected found : Nat) (method patch mixin : String)
  | invalidStack (method : String) (cause : StackFault)
  | descriptor (cause : DescriptorFault)
  | lostBody (method : String)
  | body (fault : BodyFault)
  | assembler (fault : AssemblerFault)

open Decimal in
def WeaveFault.message : WeaveFault → String
  | .configuration mixin cause => "Configuration error in " ++ mixin ++ ": " ++ cause.message
  | .malformed name owner cause =>
    "Malformed [" ++ name ++ "] on " ++ owner ++ ": " ++ cause.message
  | .targetNotFound target mixin =>
    "Target type '" ++ target ++ "' not found in target module for " ++ mixin
  | .targetMethodNotFound method kind patch mixin =>
    "Target method '" ++ method ++ "' not found in target module for [" ++ kind.name ++ "] " ++ patch ++
      " in " ++ mixin
  | .interfaceMethodMissing method mixin =>
    "Interface method '" ++ method ++ "' not found in mixin class for [Implements] in " ++ mixin
  | .capturedFieldNotFound field target mixin =>
    "Failed to capture field, '" ++ field ++ "' not found in " ++ target ++ " for " ++ mixin
  | .duplicateMember member target mixin =>
    "Member '" ++ member ++ "' already exists on " ++ target ++ " (added by " ++ mixin ++ ")"
  | .cancelTargetNotFound line method patch mixin =>
    "Could not find cancel target '" ++ line ++ "' in " ++ method ++ " at " ++ patch ++ " in " ++ mixin
  | .signatureMismatch method expected found patch mixin =>
    "Target method " ++ method ++ " has mismatching parameters (" ++ expected ++ ") vs (" ++ found ++
      ") at " ++ patch ++ " in " ++ mixin
  | .returnTypeMismatch method returns carrier patch mixin =>
    "Target method " ++ method ++ " returns " ++ returns ++ " but the callback carrier is " ++ carrier ++
      " at " ++ patch ++ " in " ++ mixin
  | .localTypeMismatch index expected found method patch mixin =>
    "Local V_" ++ digitText index.toNat ++ " of " ++ method ++ " is " ++ found ++ ", expected " ++ expected ++
      " at " ++ patch ++ " in " ++ mixin
  | .injectionCount expected found method patch mixin =>
    "Expected an injection count of " ++ digitText expected ++ " but got " ++ digitText found ++
      " candidates in " ++ method ++ " at " ++ patch ++ " in " ++ mixin
  | .invalidStack method cause => "Invalid stack in " ++ method ++ ": " ++ cause.message
  | .descriptor cause => cause.message
  | .lostBody method => method ++ " lost its body"
  | .body fault => fault.message
  | .assembler fault => fault.message

/-- The kind of a fault, as reports name it. -/
def WeaveFault.tag : WeaveFault → String
  | .configuration .. => "Configuration"
  | .malformed .. => "MalformedAnnotation"
  | .targetNotFound .. => "TargetNotFound"
  | .targetMethodNotFound .. => "TargetMethodNotFound"
  | .interfaceMethodMissing .. => "InterfaceMethodMissing"
  | .capturedFieldNotFound .. => "CapturedFieldNotFound"
  | .duplicateMember .. => "DuplicateMember"
  | .cancelTargetNotFound .. => "CancelTargetNotFound"
  | .signatureMismatch .. => "SignatureMismatch"
  | .returnTypeMismatch .. => "ReturnTypeMismatch"
  | .localTypeMismatch .. => "LocalTypeMismatch"
  | .injectionCount .. => "InjectionCountMismatch"
  | .invalidStack .. => "InvalidStack"
  | .descriptor _ | .lostBody _ => "Malformed"
  | .body fault => fault.tag
  | .assembler fault => fault.tag

end CilWeave
