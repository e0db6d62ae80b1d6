/-!
Tables keyed by text. Writing to a key that is present replaces its value in place; a new key goes to
the end.
-/

namespace CilWeave

structure Table (α : Type) where
  entries : List (String × α)
deriving BEq, Inhabited

namespace Table

variable {α : Type} (table : Table α) (key : String) (value : α)

def empty : Table α := ⟨[]⟩

def get? : Option α := (table.entries.find? fun entry => entry.1 == key).map (·.2)

def contains : Bool := table.entries.any fun entry => entry.1 == key

def insertInto (key : String) (value : α) : List (String × α) → List (String × α)
  | [] => [(key, value)]
  | entry :: rest => if entry.1 = key then (key, value) :: rest else entry :: insertInto key value rest

def insert : Table α := ⟨insertInto key value table.entries⟩

def erase : Table α := ⟨table.entries.filter fun entry => entry.1 != key⟩

/-- Later entries replace earlier ones of the same key. -/
def ofList (entries : List (String × α)) : Table α :=
  entries.foldl (fun table entry => table.insert entry.1 entry.2) empty

def size : Nat := table.entries.length

def keys : List String := table.entries.map (·.1)

theorem contains_eq : table.contains key = (table.get? key).isSome := by
  rw [contains, get?, Option.isSome_map, List.isSome_find?]

variable {table key value} {other : String}

theorem find?_insertInto (entries : List (String × α)) :
    ((insertInto key value entries).find? fun entry => entry.1 == other) =
      if key = other then some (key, value) else entries.find? fun entry => entry.1 == other := by
  induction entries with
  | nil => by_cases same : key = other <;> simp [insertInto, same]
  | cons entry rest ih =>
      by_cases head : entry.1 = key <;> by_cases same : key = other <;>
        simp_all [insertInto, List.find?_cons]

@[simp] theorem get?_empty : (empty : Table α).get? key = none := rfl

theorem get?_insert : (table.insert key value).get? other = if key = other then some value else table.get? other := by
  simp only [get?, insert, find?_insertInto]
  split <;> simp_all

@[simp] theorem get?_insert_self : (table.insert key value).get? key = some value := by simp [get?_insert]

theorem get?_insert_of_ne (different : key ≠ other) :
    (table.insert key value).get? other = table.get? other := by simp [get?_insert, different]

end Table

end CilWeave
