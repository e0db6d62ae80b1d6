import CilWeave.Image.Basic
import CilWeave.Instruction
import CilWeave.Proofs.Json.Texts

/-!
Reading back what was written. An image loses a value only where the value holds a number without a numeral, and it is refused
only where it nests too deeply; so what a reader makes of a written image is described by these alone. Readers of records go
through their fields in order, and such a description is put together field by field.
-/

namespace CilWeave

namespace Json

mutual

/-- How many arrays and objects stand one inside the other. -/
def depth : Json → Nat
  | .array elements => depthAll elements + 1
  | .object members => depthMembers members + 1
  | _ => 0

def depthAll : List Json → Nat
  | [] => 0
  | json :: rest => max (depth json) (depthAll rest)

def depthMembers : List (String × Json) → Nat
  | [] => 0
  | (_, json) :: rest => max (depth json) (depthMembers rest)

end

theorem depth_array_le {elements : List Json} {room : Nat} :
    (Json.array elements).depth ≤ room + 1 ↔ ∀ element ∈ elements, element.depth ≤ room := by
  rw [depth, Nat.add_le_add_iff_right]
  induction elements with
  | nil => simp [depthAll]
  | cons element rest ih => simp [depthAll, ih]

theorem depth_object_le {members : List (String × Json)} {room : Nat} :
    (Json.object members).depth ≤ room + 1 ↔ ∀ member ∈ members, member.2.depth ≤ room := by
  rw [depth, Nat.add_le_add_iff_right]
  induction members with
  | nil => simp [depthMembers]
  | cons member rest ih => simp [depthMembers, ih]

end Json

/-- A part of a value that an image may fail to hold. -/
inductive Scalar where
  | single (value : Single)
  | double (value : Double)

/-- A number, as opposed to an infinity or no number at all. -/
def Single.IsFinite (value : Single) : Prop :=
  ∃ negative magnitude, Decimal.Format.single.readBits value.bits.toNat = .finite negative magnitude

def Double.IsFinite (value : Double) : Prop :=
  ∃ negative magnitude, Decimal.Format.double.readBits value.bits.toNat = .finite negative magnitude

namespace Scalar

/-- There is a text for the part: only finite numbers have numerals. -/
def Storable : Scalar → Prop
  | .single value => value.IsFinite
  | .double value => value.IsFinite

/-- The numeral of the part, if it has one, is read as some number. -/
def Readable : Scalar → Prop
  | .single value => value.IsFinite → (Image.single? (Image.plain.single value)).isSome
  | .double value => value.IsFinite → (Image.double? (Image.plain.double value)).isSome

/-- The numeral of the part, if it has one, is read as the same number. -/
def Faithful : Scalar → Prop
  | .single value => value.IsFinite → Image.single? (Image.plain.single value) = some value
  | .double value => value.IsFinite → Image.double? (Image.plain.double value) = some value

theorem Faithful.readable {scalar : Scalar} (faithful : scalar.Faithful) : scalar.Readable := by
  cases scalar with
  | single value => exact fun finite => Option.isSome_of_eq_some (faithful finite)
  | double value => exact fun finite => Option.isSome_of_eq_some (faithful finite)

end Scalar

/-- What the numeral of the number is read as. -/
def Single.reread (value : Single) : Single := (Image.single? (Image.plain.single value)).getD value

def Double.reread (value : Double) : Double := (Image.double? (Image.plain.double value)).getD value

theorem finiteOrNull_endless {reading : Decimal.Reading} {text : String}
    (endless : ¬ ∃ negative magnitude, reading = .finite negative magnitude) : Image.finiteOrNull reading text = .null := by
  cases reading with
  | finite negative magnitude => exact absurd ⟨negative, magnitude, rfl⟩ endless
  | notANumber | infinite _ => rfl

theorem Single.reread_eq {value : Single} (faithful : (Scalar.single value).Faithful) : value.reread = value := by
  by_cases finite : value.IsFinite
  · rw [reread, faithful finite, Option.getD_some]
  · have written : Image.plain.single value = .null := finiteOrNull_endless finite
    rw [reread, written]
    rfl

theorem Double.reread_eq {value : Double} (faithful : (Scalar.double value).Faithful) : value.reread = value := by
  by_cases finite : value.IsFinite
  · rw [reread, faithful finite, Option.getD_some]
  · have written : Image.plain.double value = .null := finiteOrNull_endless finite
    rw [reread, written]
    rfl

/-- Lists of values are read as they were if each of their values is. -/
theorem map_reread {α β : Type} {scalars : α → List Scalar} {reread again : α → β} {values : List α}
    (each : ∀ value ∈ values, (∀ scalar ∈ scalars value, scalar.Faithful) → reread value = again value)
    (faithful : ∀ scalar ∈ values.flatMap scalars, scalar.Faithful) : values.map reread = values.map again :=
  List.map_congr_left fun value member => each value member fun scalar among =>
    faithful scalar (List.mem_flatMap.mpr ⟨value, member, among⟩)

namespace Image

/-- What a reader makes of written contents: it reads `again` if the contents fit into the room it is given and
there is a text for
every part that needs one, and nothing otherwise. -/
structure Restores {α : Type} (contents : List (Option Json)) (outcome : Nat → Option α)
    (scalars : List Scalar) (again : α) :
    Prop where
  legible : (∀ scalar ∈ scalars, scalar.Readable) → ∀ content ∈ contents, ∀ json ∈ content, json.Legible
  exact : (∀ scalar ∈ scalars, scalar.Readable) → ∀ room read, outcome room = some read ↔
    (∀ content ∈ contents, ∀ json ∈ content, json.depth ≤ room) ∧ (∀ scalar ∈ scalars, scalar.Storable) ∧
      read = again

/-- A value whose image is read as `again`. -/
def Kept {α : Type} [Image α] (value again : α) (scalars : List Scalar) : Prop :=
  Restores [some (write plain value)] (fun room => read? room (write plain value)) scalars again

namespace Restores

variable {α β : Type} {contents others : List (Option Json)} {outcome : Nat → Option α}
    {scalars more : List Scalar} {again : α}

theorem pure (again : α) : Restores [] (fun _ => some again) [] again where
  legible _ := by simp
  exact _ room read := by simp [eq_comm]

theorem bind {next : α → Nat → Option β} {result : β} (first : Restores contents outcome scalars again)
    (rest : Restores others (next again) more result) :
    Restores (contents ++ others) (fun room => outcome room >>= fun read => next read room) (scalars ++ more) result where
  legible readable := by
    rw [List.forall_mem_append] at readable
    exact List.forall_mem_append.mpr ⟨first.legible readable.1, rest.legible readable.2⟩
  exact readable room read := by
    rw [List.forall_mem_append] at readable
    simp only [Option.bind_eq_bind, Option.bind_eq_some_iff, first.exact readable.1, List.forall_mem_append]
    constructor
    · rintro ⟨_, ⟨fits, storable, rfl⟩, later⟩
      obtain ⟨fits', storable', same⟩ := (rest.exact readable.2 room read).mp later
      exact ⟨⟨fits, fits'⟩, ⟨storable, storable'⟩, same⟩
    · rintro ⟨⟨fits, fits'⟩, ⟨storable, storable'⟩, same⟩
      exact ⟨again, ⟨fits, storable, rfl⟩, (rest.exact readable.2 room read).mpr ⟨fits', storable', same⟩⟩

/-- One field of a record, and the fields after it. -/
theorem field {content : Option Json} {next : α → Nat → Option β} {result : β}
    (first : Restores [content] outcome scalars again)
    (rest : Restores others (next again) more result) :
    Restores (content :: others) (fun room => outcome room >>= fun read => next read room) (scalars ++ more) result :=
  first.bind rest

theorem map (make : α → β) (inner : Restores contents outcome scalars again) :
    Restores contents (fun room => (outcome room).map make) scalars (make again) where
  legible := inner.legible
  exact readable room read := by
    simp only [Option.map_eq_some_iff, inner.exact readable]
    constructor
    · rintro ⟨_, ⟨fits, storable, rfl⟩, rfl⟩
      exact ⟨fits, storable, rfl⟩
    · rintro ⟨fits, storable, rfl⟩
      exact ⟨again, ⟨fits, storable, rfl⟩, rfl⟩

/-- Contents that hold no array and no object and are read whatever the room. -/
theorem scalar {json : Json} (legible : json.Legible) (flat : json.depth = 0) (read : ∀ room, outcome room = some again) :
    Restores [some json] outcome [] again where
  legible _ := by simpa using legible
  exact _ room other := by simp [flat, read, eq_comm]

/-- Scalars count whatever their order. -/
theorem of_scalars (inner : Restores contents outcome scalars again)
    (same : ∀ scalar, scalar ∈ scalars ↔ scalar ∈ more) :
    Restores contents outcome more again where
  legible readable := inner.legible fun scalar member => readable scalar ((same scalar).mp member)
  exact readable room read := by
    rw [inner.exact fun scalar member => readable scalar ((same scalar).mp member)]
    simp only [same]

end Restores

/-- A reader that needs room to get into what it reads. -/
theorem Restores.enter {α : Type} {json : Json} {inner : List (Option Json)} {outcome : Nat → Option α}
    {step : Nat → Option α}
    {scalars : List Scalar} {again : α} (entered : Restores inner step scalars again) (out : outcome 0 = none)
    (into : ∀ room, outcome (room + 1) = step room)
    (legible : (∀ content ∈ inner, ∀ json ∈ content, json.Legible) → json.Legible) (deep : 0 < json.depth)
    (depth : ∀ room, json.depth ≤ room + 1 ↔ ∀ content ∈ inner, ∀ json ∈ content, json.depth ≤ room) :
    Restores [some json] outcome scalars again where
  legible readable := by simpa using legible (entered.legible readable)
  exact readable room read := by
    cases room with
    | zero => simp [out]; omega
    | succ room => rw [into, entered.exact readable]; simp [depth]

/-- A member has the name of a field, unless it is left out. -/
def Fills (member : Option (String × Json)) (name : String) : Prop := ∀ pair ∈ member, pair.1 = name

/-- The members of a record fill its fields in order. -/
def Named : List String → List (Option (String × Json)) → Prop
  | [], [] => True
  | name :: names, member :: members => Fills member name ∧ Named names members
  | _, _ => False

section

variable {α : Type} [Image α] (spelling : NumberSpelling) (name : String)

@[simp] theorem fills_member (value : α) : Fills (member spelling name value) name := by simp [Fills, member]

@[simp] theorem fills_memberIfSome (value : Option α) : Fills (memberIfSome spelling name value) name := by
  simp [Fills, memberIfSome]

@[simp] theorem fills_memberUnlessEmpty (values : List α) : Fills (memberUnlessEmpty spelling name values) name := by
  rw [memberUnlessEmpty]
  split
  · simp [Fills]
  · exact fills_member spelling name values

end

/-- What stands in the fields of a record. -/
def contentsOf (members : List (Option (String × Json))) : List (Option Json) :=
  members.map fun member => member.map fun pair => pair.2

section

variable {α : Type} {names : List String} {members : List (Option (String × Json))} {scalars more : List Scalar} {again : α}

theorem Named.mem (named : Named names members) {pair : String × Json} (member : pair ∈ members.filterMap id) :
    pair.1 ∈ names := by
  induction names, members using Named.induct with
  | case1 => cases member
  | case2 name names first rest ih =>
      obtain ⟨here, later⟩ := named
      cases first with
      | none => exact List.mem_cons_of_mem _ (ih later member)
      | some first =>
          rcases List.mem_cons.mp member with rfl | member
          · exact here _ rfl ▸ List.mem_cons_self
          · exact List.mem_cons_of_mem _ (ih later member)
  | case3 names members => exact absurd named (by simp_all [Named])

/-- A member that is not asked for changes nothing. -/
theorem lookUp_cons {pair : String × Json} {members : List (String × Json)} (absent : pair.1 ∉ names) :
    lookUp (pair :: members) names = lookUp members names := by
  induction names with
  | nil => rfl
  | cons name names ih =>
      have other : pair.1 ≠ name := fun same => absent (same ▸ List.mem_cons_self)
      have later := ih fun member => absent (List.mem_cons_of_mem _ member)
      simp only [lookUp, List.filter_cons, later, beq_eq_false_iff_ne.mpr other]
      rfl

theorem Named.lookUp (named : Named names members) (distinct : names.Nodup) :
    Image.lookUp (members.filterMap id) names = some (contentsOf members) := by
  induction names, members using Named.induct with
  | case1 => rfl
  | case2 name names first rest ih =>
      obtain ⟨here, later⟩ := named
      obtain ⟨absent, apart⟩ := List.nodup_cons.mp distinct
      have others : (rest.filterMap id).filter (fun member => member.1 == name) = [] := by
        rw [List.filter_eq_nil_iff]
        intro pair member same
        exact absent (eq_of_beq same ▸ later.mem member)
      cases first with
      | none =>
          change Image.lookUp (rest.filterMap id) (name :: names) = some (none :: contentsOf rest)
          rw [Image.lookUp, others, ih later apart]
          rfl
      | some first =>
          obtain rfl := here first rfl
          change Image.lookUp (first :: rest.filterMap id) (first.1 :: names) = some (some first.2 :: contentsOf rest)
          have one : (first :: rest.filterMap id).filter (fun member => member.1 == first.1) = [first] := by
            rw [List.filter_cons, if_pos (beq_self_eq_true first.1), others]
          rw [Image.lookUp, one, lookUp_cons absent, ih later apart]
          rfl
  | case3 names members => exact absurd named (by simp_all [Named])

theorem mem_contentsOf {json : Json} : some json ∈ contentsOf members ↔
      ∃ name, (name, json) ∈ members.filterMap id := by
  simp [contentsOf]

/-- A record is read by the contents of its fields. -/
theorem Restores.record {reader : Nat × List (Option Json) → Option α} (named : Named names members)
    (distinct : names.Nodup)
    (inner : Restores (contentsOf members) (fun room => reader (room, contentsOf members)) scalars again)
    (same : ∀ scalar, scalar ∈ scalars ↔ scalar ∈ more) :
    Restores [some (record members)] (fun room => fields? names room (record members) >>= reader) more again := by
  have each {holds : Json → Prop} :
      (∀ content ∈ contentsOf members, ∀ json ∈ content, holds json) ↔ ∀ pair ∈ members.filterMap id,
        holds pair.2 := by
    constructor
    · intro all pair member
      exact all _ (mem_contentsOf.mpr ⟨pair.1, member⟩) _ rfl
    · rintro all content member json rfl
      obtain ⟨name, member⟩ := mem_contentsOf.mp member
      exact all _ member
  refine (inner.of_scalars same).enter rfl (fun room => ?_) (fun legible => .object (each.mp legible))
    (Nat.succ_pos _) fun room => ?_
  · rw [Image.record, fields?, named.lookUp distinct]
    rfl
  · rw [Image.record, Json.depth_object_le, each]

theorem Restores.tag {tag : String} {content : Json} {outcome step : Nat → Option α}
    (inner : Restores [some content] step scalars again)
    (out : outcome 0 = none) (into : ∀ room, outcome (room + 1) = step room) :
    Restores [some (.tagged tag content)] outcome scalars again := by
  refine inner.enter out into (fun legible => .object ?_) (Nat.succ_pos _) fun room => ?_
  · simpa using legible
  · simp [Json.tagged, Json.depth_object_le]

theorem Restores.array {elements : List Json} {outcome step : Nat → Option α}
    (inner : Restores (elements.map some) step scalars again) (out : outcome 0 = none)
    (into : ∀ room, outcome (room + 1) = step room) :
    Restores [some (.array elements)] outcome scalars again := by
  refine inner.enter out into (fun legible => .array ?_) (Nat.succ_pos _) fun room => ?_
  · simpa using legible
  · simp [Json.depth_array_le]

/-- Elements are read one after the other. -/
theorem Restores.mapM {γ : Type} {values : List γ} {tree : γ → Json} {reader : Nat → Json → Option α}
    {scalars : γ → List Scalar}
    {again : γ → α} (each : ∀ value ∈ values,
      Restores [some (tree value)] (fun room => reader room (tree value)) (scalars value) (again value)) :
    Restores ((values.map tree).map some) (fun room => (values.map tree).mapM (reader room))
      (values.flatMap scalars) (values.map again) := by
  induction values with
  | nil => exact .pure []
  | cons value values ih =>
      have one := each value List.mem_cons_self
      have others := ih fun value member => each value (List.mem_cons_of_mem _ member)
      have both : Restores ([some (tree value)] ++ (values.map tree).map some)
          (fun room => reader room (tree value) >>= fun first => ((values.map tree).mapM (reader room)).map (first :: ·))
          (scalars value ++ values.flatMap scalars) (again value :: values.map again) :=
        one.bind (others.map (again value :: ·))
      simpa [Option.map_eq_bind, Function.comp_def] using both

end

end Image

end CilWeave
