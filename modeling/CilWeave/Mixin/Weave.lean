import CilWeave.Mixin.Application
import CilWeave.StackDepth

/-!
Weaving a module of mixins into a target: the mixins are read, put in the order of their priorities,
and applied one after the other to a copy of the target. Methods that were touched are verified, and
the copy becomes the target only if nothing failed.
-/

namespace CilWeave

structure WeaveReport where
  module : String
  mixins : List AppliedMixin
  /-- how many touched methods have consistent stack depths -/
  verified : Nat
  /-- the other touched methods, if they are tolerated -/
  unverified : List String
deriving DecidableEq, Inhabited

namespace WeaveReport

variable (report : WeaveReport)

def total (count : AppliedMixin → Nat) : Nat :=
  report.mixins.foldl (fun sum mixin => sum + count mixin) 0

def fieldsAdded : Nat := report.total (·.fieldsAdded)

def interfaces : Nat := report.total (·.interfaces)

def overwrites : Nat := report.total (·.overwrites)

def injections : Nat := report.total (·.injections)

open Decimal in
def summary : String :=
  "Woven " ++ digitText report.mixins.length ++ " mixin(s) into " ++ report.module ++ ": " ++
    digitText report.fieldsAdded ++ " field(s), " ++ digitText report.interfaces ++ " interface(s), " ++
    digitText report.overwrites ++ " overwrite(s), " ++ digitText report.injections ++ " injection(s)\n"

/-- A summary, a line for each mixin, and a line for what was not verified if anything was not. -/
def text : String :=
  let applied := report.mixins.map fun mixin => "  " ++ mixin.mixinType ++ " -> " ++ mixin.targetType ++ "\n"
  let rest :=
    if report.unverified.isEmpty then ""
    else "  unverified: " ++ String.intercalate ", " report.unverified ++ "\n"
  report.summary ++ String.join applied ++ rest

end WeaveReport

/-- A target, the mixins for it, and where the modules they refer to are found. -/
structure Weaver where
  config : WeaveConfig
  target : Module
  mixins : Module
  assemblies : Assemblies
  disk : Disk

/-- The outcome of verifying touched methods so far. -/
structure Verification where
  module : Module
  seen : List String
  verified : Nat
  unverified : List String

namespace Verification

variable (config : WeaveConfig) (state : Verification)

/-- Verifies a method of a type and writes down its greatest depth. Each name is verified once, and
names that the type does not have are passed over. -/
def method (typeName : String) (state : Verification) (name : String) : Except WeaveFault Verification :=
  match state.module.type? typeName with
  | none => .ok state
  | some type =>
    if state.seen.contains name then .ok state
    else
      let noted := { state with seen := name :: state.seen }
      match type.methodIndex? name with
      | none => .ok noted
      | some index =>
        match (type.methods[index]?).map MethodDef.maxDepth with
        | none => .ok noted
        | some (.ok depth) =>
          let change (type : TypeDef) : TypeDef :=
            { type with methods := type.methods.modify index fun method => method.withMaxStack depth }
          .ok { noted with module := noted.module.modifyType typeName change, verified := noted.verified + 1 }
        | some (.error cause) =>
          if config.verifyStack then .error (.invalidStack name cause)
          else .ok { noted with unverified := noted.unverified ++ [name] }

def mixin (applied : AppliedMixin) : Except WeaveFault Verification :=
  applied.touched.foldlM (method config applied.targetType) state

/-- Verifies what the mixins touched, in their order. -/
def run (module : Module) (applied : List AppliedMixin) : Except WeaveFault Verification :=
  applied.foldlM (mixin config) ⟨module, [], 0, []⟩

end Verification

namespace Weaver

variable (weaver : Weaver)

def new (config : WeaveConfig) (target mixins : Module) (disk : Disk) : Weaver :=
  ⟨config, target, mixins, .empty, disk⟩

/-- The directory of a file, if the file has one. -/
def directory? (path : String) : Option String :=
  (Text.splitLast? '/' path.toList).map fun parts => String.ofList parts.1

/-- Loads both modules. Modules they refer to are looked for beside the target. -/
def ofFiles (config : WeaveConfig) (target mixins : String) (disk : Disk) : Except LoadFault Weaver := do
  let weaver := new config (← disk.loadModule (Disk.path target)) (← disk.loadModule (Disk.path mixins)) disk
  return { weaver with assemblies := weaver.assemblies.addDirectory ((directory? target).getD "") }

def addDependency (module : Module) : Weaver :=
  { weaver with assemblies := weaver.assemblies.register module }

def addDirectory (directory : String) : Weaver :=
  { weaver with assemblies := weaver.assemblies.addDirectory directory }

/-- The mixins in the order in which they are applied. -/
def descriptors : Except WeaveFault (List MixinDescriptor) := do
  return MixinDescriptor.sortByPriority (← weaver.config.mixinDescriptors weaver.mixins)

/-- The targets of the mixin types. -/
def targets (mixins : List MixinDescriptor) : Table String :=
  .ofList (mixins.map fun mixin => (mixin.mixinType, mixin.target.fullName))

def engine (mixins : List MixinDescriptor) : MixinEngine :=
  ⟨weaver.config, weaver.mixins, targets mixins, weaver.disk⟩

/-- Applies mixins one after the other. -/
def applyAll (engine : MixinEngine) :
    List MixinDescriptor → Module → Assemblies → Except WeaveFault (List AppliedMixin × Module) × Assemblies
  | [], target, assemblies => (.ok ([], target), assemblies)
  | mixin :: rest, target, assemblies =>
    match engine.apply target mixin assemblies with
    | (.error fault, assemblies) => (.error fault, assemblies)
    | (.ok (applied, target), assemblies) =>
      match applyAll engine rest target assemblies with
      | (.error fault, assemblies) => (.error fault, assemblies)
      | (.ok (later, target), assemblies) => (.ok (applied :: later, target), assemblies)

/-- The report and the woven module, before the module becomes the target. -/
def weave : Except WeaveFault (WeaveReport × Module) × Assemblies :=
  match weaver.descriptors with
  | .error fault => (.error fault, weaver.assemblies)
  | .ok mixins =>
    match applyAll (weaver.engine mixins) mixins weaver.target weaver.assemblies with
    | (.error fault, assemblies) => (.error fault, assemblies)
    | (.ok (applied, woven), assemblies) =>
      match Verification.run weaver.config woven applied with
      | .error fault => (.error fault, assemblies)
      | .ok outcome =>
        let report := ⟨weaver.target.name, applied, outcome.verified, outcome.unverified⟩
        (.ok (report, outcome.module), assemblies)

/-- Weaves the mixins into the target. A failure leaves the target as it was; modules that were loaded
stay known either way. -/
def apply : Except WeaveFault WeaveReport × Weaver :=
  match weaver.weave with
  | (.error fault, assemblies) => (.error fault, { weaver with assemblies })
  | (.ok (report, target), assemblies) => (.ok report, { weaver with target, assemblies })

/-- Writes the target and tells whether that worked. -/
def write (path : String) : Bool × Weaver :=
  let (written, disk) := weaver.disk.saveModule (Disk.path path) weaver.target
  (written, { weaver with disk })

end Weaver

end CilWeave
