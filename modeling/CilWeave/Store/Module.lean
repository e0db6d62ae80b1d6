import CilWeave.Body.WellFormed
import CilWeave.Image.Definition
import CilWeave.Json.Reading
import CilWeave.Json.Writing
import CilWeave.Store.Disk

/-!
Modules on disk: their images as text, read back only if every body is well formed, and the modules
that other modules refer to, kept once they are loaded.
-/

namespace CilWeave

/-- Why a module cannot be had. -/
inductive LoadFault where
  | unreadableFile
  | unreadableImage
  | body (fault : BodyFault)
  | assemblyNotFound (name : String)

def LoadFault.message : LoadFault → String
  | .unreadableFile => "file cannot be read"
  | .unreadableImage => "file does not hold a module"
  | .body fault => fault.message
  | .assemblyNotFound name => "Assembly '" ++ name ++ "' could not be resolved"

/-- The kind of a fault, as reports name it. -/
def LoadFault.tag : LoadFault → String
  | .unreadableFile => "FileError"
  | .unreadableImage => "Serialization"
  | .body fault => fault.tag
  | .assemblyNotFound _ => "AssemblyNotFound"

namespace Module

variable (module : Module)

def compactText : String := (Image.write Image.plain module).compact

def prettyText : String := (Image.write Image.plain module).pretty

/-- Every body satisfies what is asked of bodies. -/
def validate : Except BodyFault Unit :=
  module.types.forM fun type =>
    type.methods.forM fun method =>
      match method.body with
      | some body => body.validate
      | none => .ok ()

def ofImage? (text : String) : Option Module := (Json.read? text).bind (Image.read? maxImageDepth)

def ofText (text : String) : Except LoadFault Module :=
  match ofImage? text with
  | none => .error .unreadableImage
  | some module => do
    module.validate.mapError LoadFault.body
    return module

end Module

namespace Disk

variable (disk : Disk) (path : List String)

def loadModule : Except LoadFault Module :=
  match disk.file? path with
  | some text => Module.ofText text
  | none => .error .unreadableFile

/-- Writes a module's image and tells whether that worked. -/
def saveModule (module : Module) : Bool × Disk := disk.replace path module.compactText

end Disk

/-- The modules known so far, by the name they were asked for, and the directories to look in. -/
structure Assemblies where
  modules : Table Module
  directories : List String
deriving Inhabited

namespace Assemblies

variable (assemblies : Assemblies)

def empty : Assemblies := ⟨.empty, []⟩

def register (module : Module) : Assemblies :=
  { assemblies with modules := assemblies.modules.insert module.name module }

def addDirectory (directory : String) : Assemblies :=
  { assemblies with directories := assemblies.directories ++ [directory] }

/-- The first file of the name in the directories. A name that starts in a slash is not looked for in
any of them. -/
def locate? (disk : Disk) (name : String) : Option (List String) :=
  if name.startsWith "/" then none
  else
    (assemblies.directories.map fun directory => Disk.path (directory ++ "/" ++ name ++ ".json")).find?
      fun path => (disk.file? path).isSome

/-- A module by name: one known already, or else loaded and from then on known by that name. -/
def resolve (disk : Disk) (name : String) : Except LoadFault Module × Assemblies :=
  match assemblies.modules.get? name with
  | some module => (.ok module, assemblies)
  | none =>
    match assemblies.locate? disk name with
    | none => (.error (.assemblyNotFound name), assemblies)
    | some path =>
      match disk.loadModule path with
      | .error fault => (.error fault, assemblies)
      | .ok module => (.ok module, { assemblies with modules := assemblies.modules.insert name module })

/-- A type among the known modules: of the module that a scope names, or of the first that has it. -/
def findType? (scope : Option String) (fullName : String) : Option (Module × TypeDef) :=
  let candidates : List Module :=
    match scope with
    | some scope => (assemblies.modules.get? scope).toList
    | none => assemblies.modules.entries.map (·.2)
  candidates.findSome? fun module => (module.type? fullName).map ((module, ·))

end Assemblies

end CilWeave
