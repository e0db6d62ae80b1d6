import CilWeave.Json.Basic
import CilWeave.Json.Numeral
import CilWeave.Text.Hexadecimal

/-!
Images: values written as data trees and read back. A record is an object with its fields by name,
and may also be read from an array of its fields in order. A tagged value is its tag alone or an
object with the tag as its only member. Reading a tree uses up room at every array and object it
enters; members that no field asks for are passed over.
-/

namespace CilWeave

/-- How the numbers whose text is not fixed by their value are written. -/
structure NumberSpelling where
  single : Single → Json
  double : Double → Json
  int64 : Int64 → Json
  uint64 : UInt64 → Json

/-- How many arrays and objects may be entered one inside the other. -/
def maxImageDepth : Nat := 127

class Image (α : Type) where
  write : NumberSpelling → α → Json
  read? : (room : Nat) → Json → Option α

namespace Image

variable {α : Type}

/-- Numbers that are not finite have no numeral. -/
def finiteOrNull (reading : Decimal.Reading) (text : String) : Json :=
  match reading with
  | .finite _ _ => .number text
  | _ => .null

/-- Numbers as numerals. -/
def plain : NumberSpelling where
  single value :=
    finiteOrNull (Decimal.Format.single.readBits value.bits.toNat) (Decimal.Layout.imageSingle.single value)
  double value :=
    finiteOrNull (Decimal.Format.double.readBits value.bits.toNat) (Decimal.Layout.imageDouble.double value)
  int64 value := .ofInt value.toInt
  uint64 value := .ofNat value.toNat

/-- Numbers without loss: floating-point numbers by the digits of their bits, wide integers as text. -/
def bitwise : NumberSpelling where
  single value := .string (if value.number.isNaN then "nan" else Text.hexPadded 8 value.bits.toNat)
  double value := .string (if value.number.isNaN then "nan" else Text.hexPadded 16 value.bits.toNat)
  int64 value := .string (Decimal.integerText value.toInt)
  uint64 value := .string (Decimal.digitText value.toNat)

def numeral? : Json → Option Json.Numeral
  | .number numeral => Json.Numeral.read? numeral.toList
  | _ => none

/-- An integer within bounds. -/
def integer? (lowest highest : Int) (json : Json) : Option Int := do
  let value ← (← numeral? json).integer?
  if lowest ≤ value ∧ value ≤ highest then some value else none

def natural? (highest : Nat) (json : Json) : Option Nat := (integer? 0 highest json).map Int.toNat

/-- A number that is read as floating-point, be it written as an integer or not. -/
def double? (json : Json) : Option Double := (numeral? json).bind Json.Numeral.double?

def single? (json : Json) : Option Single := (numeral? json).bind Json.Numeral.single?

instance : Image String where
  write _ text := .string text
  read?
    | _, .string text => some text
    | _, _ => none

instance : Image Bool where
  write _ value := .bool value
  read?
    | _, .bool value => some value
    | _, _ => none

instance : Image Char where
  write _ value := .string (String.ofList [value])
  read?
    | _, .string text =>
      match text.toList with
      | [value] => some value
      | _ => none
    | _, _ => none

instance : Image Int8 where
  write _ value := .ofInt value.toInt
  read? _ json := (integer? Int8.minValue.toInt Int8.maxValue.toInt json).map Int.toInt8

instance : Image Int16 where
  write _ value := .ofInt value.toInt
  read? _ json := (integer? Int16.minValue.toInt Int16.maxValue.toInt json).map Int.toInt16

instance : Image Int32 where
  write _ value := .ofInt value.toInt
  read? _ json := (integer? Int32.minValue.toInt Int32.maxValue.toInt json).map Int.toInt32

instance : Image Int64 where
  write spelling value := spelling.int64 value
  read? _ json := (integer? Int64.minValue.toInt Int64.maxValue.toInt json).map Int.toInt64

instance : Image UInt8 where
  write _ value := .ofNat value.toNat
  read? _ json := (natural? (UInt8.size - 1) json).map Nat.toUInt8

instance : Image UInt16 where
  write _ value := .ofNat value.toNat
  read? _ json := (natural? (UInt16.size - 1) json).map Nat.toUInt16

instance : Image UInt32 where
  write _ value := .ofNat value.toNat
  read? _ json := (natural? (UInt32.size - 1) json).map Nat.toUInt32

instance : Image UInt64 where
  write spelling value := spelling.uint64 value
  read? _ json := (natural? (UInt64.size - 1) json).map Nat.toUInt64

instance : Image Single where
  write spelling value := spelling.single value
  read? _ json := single? json

instance : Image Double where
  write spelling value := spelling.double value
  read? _ json := double? json

/-- Counts and positions. -/
instance : Image Nat where
  write _ value := .ofNat value
  read? _ json := natural? (UInt64.size - 1) json

instance [Image α] : Image (Option α) where
  write spelling
    | none => .null
    | some value => write spelling value
  read?
    | _, .null => some none
    | room, json => (read? room json).map some

instance [Image α] : Image (List α) where
  write spelling values := .array (values.map (write spelling))
  read?
    | room + 1, .array elements => elements.mapM (read? room)
    | _, _ => none

instance [Image α] : Image (Array α) where
  write spelling values := .array (values.toList.map (write spelling))
  read? room json := ((read? room json : Option (List α))).map List.toArray

/-- A member that is always written. -/
def member [Image α] (spelling : NumberSpelling) (name : String) (value : α) : Option (String × Json) :=
  some (name, write spelling value)

/-- A member that is left out when there is nothing to write. -/
def memberIfSome [Image α] (spelling : NumberSpelling) (name : String) (value : Option α) :
    Option (String × Json) :=
  value.map fun value => (name, write spelling value)

def memberUnlessEmpty [Image α] (spelling : NumberSpelling) (name : String) (values : List α) :
    Option (String × Json) :=
  if values.isEmpty then none else member spelling name values

def record (members : List (Option (String × Json))) : Json := .object (members.filterMap id)

/-- The contents of the named fields. No field may be given twice. -/
def lookUp (members : List (String × Json)) : List String → Option (List (Option Json))
  | [] => some []
  | name :: names =>
    match members.filter fun member => member.1 == name with
    | [] => (lookUp members names).map (none :: ·)
    | [(_, content)] => (lookUp members names).map (some content :: ·)
    | _ => none

/-- The contents of fields in order; later ones may be missing. -/
def inOrder : List Json → List String → Option (List (Option Json))
  | [], names => some (names.map fun _ => none)
  | _ :: _, [] => none
  | content :: contents, _ :: names => (inOrder contents names).map (some content :: ·)

/-- The contents of the fields of a record, with the room left inside. -/
def fields? (names : List String) : (room : Nat) → Json → Option (Nat × List (Option Json))
  | room + 1, .object members => (lookUp members names).map fun contents => (room, contents)
  | room + 1, .array contents => (inOrder contents names).map fun contents => (room, contents)
  | _, _ => none

def required? [Image α] (room : Nat) (content : Option Json) : Option α := content.bind (read? room)

/-- A field that stands for a known value where it is missing. -/
def orElse? [Image α] (room : Nat) (missing : α) : Option Json → Option α
  | none => some missing
  | some content => read? room content

/-- A tag with its content, if any, and the room left for that. -/
def tagged? : (room : Nat) → Json → Option (String × Option Json × Nat)
  | room, .string tag => some (tag, none, room)
  | room + 1, .object [(tag, content)] => some (tag, some content, room)
  | _, _ => none

/-- Nothing, as the content of a tag without content. -/
def isNothing : Option Json → Bool
  | none | some .null => true
  | _ => false

end Image

end CilWeave
