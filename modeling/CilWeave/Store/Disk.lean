import CilWeave.Table
import CilWeave.Text.Split

/-!
A disk of text files and directories below one root. A file is replaced as a whole: its contents go
to a temporary file beside it, which then takes its name.
-/

namespace CilWeave

inductive DiskEntry where
  | file (contents : String)
  | directory
deriving DecidableEq, Inhabited

/-- Entries by place: the names on the way from the root. -/
structure Disk where
  entries : List (List String × DiskEntry)
deriving Inhabited

namespace Disk

def empty : Disk := ⟨[]⟩

/-- The greatest length of a name in bytes. -/
def maxNameLength : Nat := 255

/-- The greatest length of a path in bytes, as far as the way to the root leaves room for it. -/
def maxPathLength : Nat := 4079

/-- A name that only a directory can have at the end of a path. -/
def isBlankName (name : String) : Bool := name = "" || name = "."

/-- The names of a path. Blank names and single dots name nothing, but a path that ends in one is the
path of a directory, and keeps a single dot as its last name. -/
def path (text : String) : List String :=
  let pieces := Text.split '/' text
  let names := pieces.filter fun name => !isBlankName name
  if names.isEmpty || !(pieces.getLast?.any isBlankName) then names else names ++ ["."]

variable (disk : Disk)

def entry? (place : List String) : Option DiskEntry :=
  if place.isEmpty then some .directory
  else (disk.entries.find? fun entry => entry.1 == place).map (·.2)

def isDirectory (place : List String) : Bool := disk.entry? place == some .directory

def clear (place : List String) : Disk := ⟨disk.entries.filter fun entry => entry.1 != place⟩

def put (place : List String) (entry : DiskEntry) : Disk := ⟨(place, entry) :: (disk.clear place).entries⟩

/-- The place a name leads to. Two dots lead back up, though not out of the root. -/
def step? (place : List String) (name : String) : Option (List String) :=
  if name = "." then some place
  else if name = ".." then if place.isEmpty then none else some place.dropLast
  else if name.utf8ByteSize ≤ maxNameLength then some (place ++ [name])
  else none

/-- No path holds a null character or is too long. -/
def isPath (names : List String) : Bool :=
  !(names.any fun name => name.contains '\x00') && ("/".intercalate names).utf8ByteSize ≤ maxPathLength

variable (names : List String)

/-- The place a path leads to. All names but the last have to lead to directories. -/
def place? : Option (List String) :=
  if isPath names then
    names.foldlM (fun place name => if disk.isDirectory place then step? place name else none) []
  else none

def file? : Option String :=
  match (disk.place? names).bind disk.entry? with
  | some (.file contents) => some contents
  | _ => none

/-- A disk without the file of a path. -/
def removeFile : Disk :=
  match disk.place? names with
  | some place => if disk.isDirectory place then disk else disk.clear place
  | none => disk

/-- Creates a directory unless there is one, and tells whether there is one then. -/
def makeDirectory : Bool × Disk :=
  match disk.place? names with
  | none => (false, disk)
  | some place =>
    match disk.entry? place with
    | none => (true, disk.put place .directory)
    | some entry => (entry == .directory, disk)

/-- Creates a directory and those above it, the outermost first. -/
def makeDirectories : Bool × Disk :=
  if isPath names then
    ((List.range names.length).map fun index => names.take (index + 1)).foldl
      (fun (made, disk) path => if made then disk.makeDirectory path else (false, disk)) (true, disk)
  else (false, disk)

/-- Writes a file in an existing directory. -/
def write? (contents : String) : Option Disk := do
  let place ← disk.place? names
  if disk.isDirectory place then none else some (disk.put place (.file contents))

/-- A disk that holds the given files, as far as they do not stand in each other's way. -/
def ofFiles? (files : List (String × String)) : Option Disk :=
  files.foldlM
    (fun disk (name, contents) =>
      let names := path name
      (disk.makeDirectories names.dropLast).2.write? names contents)
    empty

/-- Every entry by its place; that of a directory ends in a slash. -/
def listing : List (String × Option String) :=
  disk.entries.map fun (place, entry) =>
    match entry with
    | .file contents => ("/".intercalate place, some contents)
    | .directory => ("/".intercalate place ++ "/", none)

/-- Moves a file to another path, over a file there if there is one. -/
def rename? (destination : List String) : Option Disk := do
  (disk.removeFile names).write? destination (← disk.file? names)

/-- A file name taken apart at its last dot. A dot in front belongs to the name. -/
def splitExtension (name : String) : String × Option String :=
  match Text.splitLast? '.' name.toList with
  | some (stem, extension) =>
    if stem.isEmpty ∨ name = ".." then (name, none) else (String.ofList stem, some (String.ofList extension))
  | none => (name, none)

/-- The name of the temporary file for a file. No file can be written for two dots, nor for a name
that is two dots up to its extension. -/
def temporaryName (name : String) : String :=
  match splitExtension name with
  | (".", some _) => ".."
  | ("..", none) => ".."
  | (stem, extension) => stem ++ "." ++ extension.getD "out" ++ ".tmp"

/-- Replaces a file as a whole and tells whether that worked. A temporary file that could not take
the file's place is removed; directories made for it stay. -/
def replace (contents : String) : Bool × Disk :=
  let target := names.filter (· ≠ ".")
  match target.getLast?, disk.makeDirectories target.dropLast with
  | some name, (true, disk) =>
    let temporary := target.dropLast ++ [temporaryName name]
    match disk.write? temporary contents with
    | none => (false, disk)
    | some written =>
      match written.rename? temporary names with
      | some renamed => (true, renamed)
      | none => (false, written.removeFile temporary)
  | _, (_, disk) => (false, disk)

end Disk

end CilWeave
