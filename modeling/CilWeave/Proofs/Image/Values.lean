import CilWeave.Image.Code
import CilWeave.Proofs.Image.Records

/-!
Single values are read back from their images: texts, integers of every width, finite numbers, and lists of
such values; and the fields that hold them, whether they are always written or may be left out.
-/

namespace CilWeave

namespace Json

theorem legible_ofNat (number : Nat) : (Json.ofNat number).Legible :=
  .number (by rw [Decimal.digitText, String.toList_ofList]; exact Numeral.read?_toDigits number)

theorem legible_ofInt (number : Int) : (Json.ofInt number).Legible := by
  cases number with
  | ofNat magnitude => exact legible_ofNat magnitude
  | negSucc below => exact .number (by simpa [Decimal.integerText, Decimal.digitText] using Numeral.read?_minus (below + 1))

end Json

namespace Image

theorem restores_integer {α : Type} {lowest highest value : Int} {make : Int → α} {again : α}
    (low : -(UInt64.size / 2 : Nat) ≤ lowest)
    (high : highest < UInt64.size) (within : lowest ≤ value ∧ value ≤ highest) (made : make value = again) :
    Restores [some (.ofInt value)] (fun _ => (integer? lowest highest (.ofInt value)).map make) [] again :=
  .scalar (Json.legible_ofInt value) rfl fun _ => by rw [integer?_ofInt low high, if_pos within, Option.map_some, made]

theorem restores_natural {α : Type} {highest number : Nat} {make : Nat → α} {again : α} (high : highest < UInt64.size)
    (within : number ≤ highest) (made : make number = again) :
    Restores [some (.ofNat number)] (fun _ => (natural? highest (.ofNat number)).map make) [] again :=
  .scalar (Json.legible_ofNat number) rfl fun _ => by rw [natural?_ofNat high, if_pos within, Option.map_some, made]

theorem kept_int8 (value : Int8) : Kept value value [] :=
  restores_integer (by decide) (by decide) ⟨value.minValue_le_toInt, value.toInt_le⟩ value.ofInt_toInt

theorem kept_int16 (value : Int16) : Kept value value [] :=
  restores_integer (by decide) (by decide) ⟨value.minValue_le_toInt, value.toInt_le⟩ value.ofInt_toInt

theorem kept_int32 (value : Int32) : Kept value value [] :=
  restores_integer (by decide) (by decide) ⟨value.minValue_le_toInt, value.toInt_le⟩ value.ofInt_toInt

theorem kept_int64 (value : Int64) : Kept value value [] :=
  restores_integer (by decide) (by decide) ⟨value.minValue_le_toInt, value.toInt_le⟩ value.ofInt_toInt

theorem kept_uint8 (value : UInt8) : Kept value value [] :=
  restores_natural (by decide) (Nat.le_pred_of_lt value.toNat_lt) value.ofNat_toNat

theorem kept_uint16 (value : UInt16) : Kept value value [] :=
  restores_natural (by decide) (Nat.le_pred_of_lt value.toNat_lt) value.ofNat_toNat

theorem kept_uint32 (value : UInt32) : Kept value value [] :=
  restores_natural (by decide) (Nat.le_pred_of_lt value.toNat_lt) value.ofNat_toNat

theorem kept_uint64 (value : UInt64) : Kept value value [] :=
  restores_natural (by decide) (Nat.le_pred_of_lt value.toNat_lt) value.ofNat_toNat

/-- A number is read back exactly if it is finite. -/
theorem restores_finite {α : Type} {reading : Decimal.Reading} {text : String} {parse : Json.Numeral → Option α}
    {value : α}
    {scalar : Scalar} (storable : scalar.Storable ↔ ∃ negative magnitude, reading = .finite negative magnitude)
    (readable : scalar.Readable → scalar.Storable → (numeral? (finiteOrNull reading text)).bind parse = some value) :
    Restores [some (finiteOrNull reading text)] (fun _ => (numeral? (finiteOrNull reading text)).bind parse)
      [scalar] value := by
  by_cases finite : scalar.Storable
  · constructor
    · intro known
      have read := readable (known _ List.mem_cons_self) finite
      obtain ⟨parts, parsed, -⟩ := Option.bind_eq_some_iff.mp read
      obtain ⟨negative, magnitude, rfl⟩ := storable.mp finite
      simpa [finiteOrNull] using Json.Legible.number parsed
    · intro known room other
      rw [readable (known _ List.mem_cons_self) finite]
      obtain ⟨negative, magnitude, rfl⟩ := storable.mp finite
      simp [finiteOrNull, Json.depth, finite, eq_comm]
  · rw [finiteOrNull_endless fun shape => finite (storable.mpr shape)]
    constructor
    · intro known
      simpa using Json.Legible.null
    · intro known room other
      simp [numeral?, finite]

theorem kept_single (value : Single) : Kept value value.reread [.single value] :=
  restores_finite Iff.rfl fun readable finite => by
    obtain ⟨read, found⟩ := Option.isSome_iff_exists.mp (readable finite)
    rwa [Single.reread, found]

theorem kept_double (value : Double) : Kept value value.reread [.double value] :=
  restores_finite Iff.rfl fun readable finite => by
    obtain ⟨read, found⟩ := Option.isSome_iff_exists.mp (readable finite)
    rwa [Double.reread, found]

theorem kept_bool (value : Bool) : Kept value value [] := .scalar (.bool value) rfl fun _ => rfl

theorem kept_string (text : String) : Kept text text [] := .scalar (.string text) rfl fun _ => rfl

theorem kept_char (value : Char) : Kept value value [] :=
  .scalar (.string _) rfl fun _ => by simp [write, read?]

section

variable {α β : Type} [Image α] {scalars : α → List Scalar} {again : α → α}

theorem read?_some {json : Json} (shown : json ≠ .null) (room : Nat) :
    (read? room json : Option (Option α)) = (read? room json : Option α).map some := by
  cases json with
  | null => exact absurd rfl shown
  | bool | number | string | array | object | textless => rfl

theorem kept_some {value result : α} {scalars : List Scalar} (kept : Kept value result scalars)
    (shown : write plain value ≠ .null) : Kept (some value) (some result) scalars := by
  have read (room : Nat) := (read?_some shown room : (_ : Option (Option α)) = _)
  have written : write plain (some value) = write plain value := rfl
  simp only [Kept, written, read]
  exact kept.map some

theorem kept_none : Kept (none : Option α) none [] := .scalar .null rfl fun _ => rfl

theorem kept_list {values : List α} (each : ∀ value ∈ values, Kept value (again value) (scalars value)) :
    Kept values (values.map again) (values.flatMap scalars) :=
  (Restores.mapM each).array rfl fun _ => rfl

theorem kept_array {values : Array α} (each : ∀ value ∈ values.toList, Kept value (again value) (scalars value)) :
    Kept values (values.map again) (values.toList.flatMap scalars) := by
  have listed := (kept_list each).map List.toArray
  rw [← Array.toList_map, Array.toArray_toList] at listed
  exact listed

/-- Where no value of a list loses anything, the list does not. -/
theorem kept_whole {values : List α} (each : ∀ value ∈ values, Kept value value []) : Kept values values [] := by
  have kept : Kept values (values.map id) (values.flatMap fun _ => []) := kept_list each
  rw [List.map_id] at kept
  exact kept.of_scalars (by simp)

/-- Nothing stands in a field that was left out. -/
theorem Restores.absent {outcome : Nat → Option β} {missing : β} (read : ∀ room, outcome room = some missing) :
    Restores [none] outcome [] missing where
  legible _ := by simp
  exact _ room other := by simp [read, eq_comm]

theorem restores_ifSome {name : String} {value : Option α} (each : ∀ held ∈ value, Kept held (again held) (scalars held))
    (shown : ∀ held : α, write plain held ≠ .null) :
    Restores [(memberIfSome plain name value).map fun pair => pair.2]
      (fun room => orElse? room none ((memberIfSome plain name value).map fun pair => pair.2))
      (value.toList.flatMap scalars) (value.map again) := by
  cases value with
  | none => exact .absent fun _ => rfl
  | some held =>
      rw [Option.toList_some, List.flatMap_singleton]
      exact kept_some (each held rfl) (shown held)

theorem restores_unlessEmpty {name : String} {values : List α}
    (each : ∀ held ∈ values, Kept held (again held) (scalars held)) :
    Restores [(memberUnlessEmpty plain name values).map fun pair => pair.2]
      (fun room => orElse? room [] ((memberUnlessEmpty plain name values).map fun pair => pair.2))
      (values.flatMap scalars) (values.map again) := by
  cases values with
  | nil => exact .absent fun _ => rfl
  | cons first rest => exact kept_list each

end

/-- Values that lose nothing, whatever they are. -/
def Lossless (α : Type) [Image α] : Prop := ∀ value : α, Kept value value []

namespace Lossless

variable {α : Type} [Image α] (lossless : Lossless α) {name : String}

include lossless

theorem list (values : List α) : Kept values values [] := kept_whole fun value _ => lossless value

theorem array (values : Array α) : Kept values values [] := by
  have kept : Kept values (values.map id) (values.toList.flatMap fun _ => []) := kept_array fun value _ => lossless value
  rw [Array.map_id] at kept
  exact kept.of_scalars (by simp)

theorem ifSome (shown : ∀ value : α, write plain value ≠ .null) (value : Option α) :
    Restores [(memberIfSome plain name value).map fun pair => pair.2]
      (fun room => orElse? room none ((memberIfSome plain name value).map fun pair => pair.2)) [] value := by
  cases value with
  | none => exact .absent fun _ => rfl
  | some held => exact kept_some (lossless held) (shown held)

theorem unlessEmpty (values : List α) :
    Restores [(memberUnlessEmpty plain name values).map fun pair => pair.2]
      (fun room => orElse? room [] ((memberUnlessEmpty plain name values).map fun pair => pair.2)) [] values := by
  cases values with
  | nil => exact .absent fun _ => rfl
  | cons first rest => exact lossless.list (first :: rest)

end Lossless

end Image

end CilWeave
