import CilWeave.Attribute.Encoding
import CilWeave.Proofs.Blob.Reading
import Mathlib.Data.List.MinMax
import Mathlib.Order.Nat

/-!
Which arguments can be told from their binary form. A boxed or named argument comes with a type, that of an
array being taken from its first element; an argument by position is read as its parameter says.
-/

namespace CilWeave

namespace CarriedType

/-- How a type is written. -/
def bytes : CarriedType → List UInt8
  | simple tag => [tag]
  | enum name => TypeTag.enum :: textBytes (some name)
  | array element => TypeTag.array :: element.bytes

/-- How many types are put into each other. -/
def depth : CarriedType → Nat
  | array element => element.depth + 1
  | _ => 1

theorem depth_pos (type : CarriedType) : 0 < type.depth := by
  cases type <;> exact Nat.succ_pos _

end CarriedType

namespace Argument

mutual

/-- The type that an argument is written with. -/
def carriedType : Argument → CarriedType
  | enum name _ => .enum name
  | array none => .array (.simple TypeTag.boxed)
  | array (some elements) => .array (elementType elements)
  | argument => .simple argument.tag

def elementType : List Argument → CarriedType
  | [] => .simple TypeTag.boxed
  | first :: _ => first.carriedType

end

mutual

/-- How many arrays the innermost of the elements is in. -/
def nesting : Argument → Nat
  | array (some elements) => nestingAll elements
  | _ => 0

def nestingAll : List Argument → Nat
  | [] => 0
  | argument :: rest => max (argument.nesting + 1) (nestingAll rest)

end

/-- The type of a value that is neither an array nor an enum nor the name of a type. -/
def primitive? : Argument → Option Primitive
  | bool _ => some .boolean
  | char _ => some .char
  | int8 _ => some .int8
  | uint8 _ => some .uint8
  | int16 _ => some .int16
  | uint16 _ => some .uint16
  | int32 _ => some .int32
  | uint32 _ => some .uint32
  | int64 _ => some .int64
  | uint64 _ => some .uint64
  | single _ => some .single
  | double _ => some .double
  | string _ => some .string
  | type _ | array _ | enum _ _ => none

/-- Values whose parts are no longer than what can be written. -/
inductive Sized : Argument → Prop
  | char {value : Char} : value.toNat ≤ 0xFFFF → Sized (char value)
  | string {text : Option String} : (∀ content ∈ text, Short content) → Sized (string text)
  | type {name : Option String} : (∀ content ∈ name, Short content) → Sized (type name)
  | enum {name : String} {value : Argument} : Short name → Sized (enum name value)
  | absent : Sized (array none)
  | array {elements : List Argument} : elements.length ≤ AttributeWriting.maxLength →
      (∀ element ∈ elements, Sized element) →
      Sized (array (some elements))
  | number {argument : Argument} {kind : Primitive} : argument.primitive? = some kind → kind ≠ .char →
      kind ≠ .string →
      Sized argument

/-- The value of an argument says what it is to one who knows the type. -/
inductive ReadAs : CarriedType → Argument → Prop
  | primitive {argument : Argument} {kind : Primitive} : argument.primitive? = some kind →
      ReadAs (.simple argument.tag) argument
  | type {name : Option String} : ReadAs (.simple TypeTag.type) (type name)
  | enum {name : String} {value : Int32} : ReadAs (.enum name) (enum name (int32 value))
  | absent {element : CarriedType} : ReadAs (.array element) (array none)
  | array {element : CarriedType} {elements : List Argument} : (∀ argument ∈ elements, ReadAs element argument) →
      ReadAs (.array element) (array (some elements))

/-- The argument's own type is the one that its value is to be read as. -/
def Even (argument : Argument) : Prop := argument.ReadAs argument.carriedType

/-- What can be written along with its type: the elements of an array have one type. -/
inductive SelfDescribing : Argument → Prop
  | primitive {argument : Argument} {kind : Primitive} : argument.primitive? = some kind → argument.Sized →
      SelfDescribing argument
  | type {name : Option String} : (∀ content ∈ name, Short content) → SelfDescribing (type name)
  | enum {name : String} {value : Int32} : Short name → SelfDescribing (enum name (int32 value))
  | absent : SelfDescribing (array none)
  | array {elements : List Argument} : elements.length ≤ AttributeWriting.maxLength →
      (∀ element ∈ elements, SelfDescribing element) →
      (∀ one ∈ elements, ∀ other ∈ elements, AttributeWriting.carriedType one = AttributeWriting.carriedType other) →
      SelfDescribing (array (some elements))

/-- An argument for a parameter of a type; what is boxed is as it has to be. -/
inductive Suits (boxed : Argument → Prop) : TypeSig → Argument → Prop
  | primitive {argument : Argument} {kind : Primitive} : argument.primitive? = some kind → argument.Sized →
      Suits boxed (.primitive kind) argument
  | type {reference : TypeRef} {name : Option String} : reference.fullName = "System.Type" →
      (∀ content ∈ name, Short content) → Suits boxed (.classType reference) (type name)
  | enum {reference : TypeRef} {value : Int32} : Suits boxed (.valueType reference) (enum reference.fullName (int32 value))
  | absent {element : TypeSig} : Suits boxed (.array element) (array none)
  | array {element : TypeSig} {elements : List Argument} : elements.length ≤ AttributeWriting.maxLength →
      (∀ argument ∈ elements, Suits boxed element argument) → Suits boxed (.array element) (array (some elements))
  | boxed {argument : Argument} : boxed argument → Suits boxed (.primitive .object) argument

theorem foldr_max_le {numbers : List Nat} {bound : Nat} (each : ∀ number ∈ numbers, number ≤ bound) :
    numbers.foldr max 0 ≤ bound := List.max_le_of_forall_le numbers bound each

theorem nestingAll_eq (arguments : List Argument) :
    nestingAll arguments = (arguments.map fun argument => argument.nesting + 1).foldr max 0 := by
  induction arguments with
  | nil => rfl
  | cons argument rest ih => rw [nestingAll, ih, List.map_cons, List.foldr_cons]

theorem nesting_of_mem {argument : Argument} {arguments : List Argument} (member : argument ∈ arguments) :
    argument.nesting < nestingAll arguments :=
  nestingAll_eq arguments ▸ List.le_max_of_le' 0
    (List.mem_map_of_mem (f := fun argument => argument.nesting + 1) member) (Nat.le_refl _)

theorem nestingAll_le {arguments : List Argument} {bound : Nat} (each : ∀ argument ∈ arguments, argument.nesting < bound) :
    nestingAll arguments ≤ bound := by
  rw [nestingAll_eq]
  refine foldr_max_le fun number member => ?_
  obtain ⟨argument, within, rfl⟩ := List.mem_map.mp member
  exact each argument within

theorem carriedType_of_primitive {argument : Argument} {kind : Primitive} (own : argument.primitive? = some kind) :
    argument.carriedType = .simple argument.tag := by
  cases argument with
  | enum => cases own
  | array => cases own
  | _ => rfl

theorem carriedType_leadingTag (argument : Argument) : argument.carriedType.leadingTag = argument.tag := by
  cases argument with
  | array elements => cases elements <;> rfl
  | _ => rfl

mutual

theorem carriedType_bytes (argument : Argument) : AttributeWriting.carriedType argument = argument.carriedType.bytes := by
  cases argument with
  | array elements =>
      cases elements with
      | none => rfl
      | some elements => exact congrArg (TypeTag.array :: ·) (elementType_bytes elements)
  | _ => rfl

theorem elementType_bytes (elements : List Argument) :
    AttributeWriting.elementType elements = (elementType elements).bytes := by
  cases elements with
  | nil => rfl
  | cons first rest => exact carriedType_bytes first

end

mutual

/-- Types are put into each other no more often than arrays are. -/
theorem depth_carriedType (argument : Argument) : argument.carriedType.depth ≤ argument.nesting + 2 := by
  cases argument with
  | array elements =>
      cases elements with
      | none => exact Nat.le_refl _
      | some elements => exact Nat.succ_le_succ (depth_elementType elements)
  | _ => exact Nat.le_succ _

theorem depth_elementType (elements : List Argument) : (elementType elements).depth ≤ nestingAll elements + 1 := by
  cases elements with
  | nil => exact Nat.le_refl _
  | cons first rest => exact Nat.le_trans (depth_carriedType first) (Nat.succ_le_succ (Nat.le_max_left _ _))

end

theorem SelfDescribing.sized {argument : Argument} (describing : argument.SelfDescribing) : argument.Sized := by
  induction describing with
  | primitive _ sized => exact sized
  | type short => exact .type short
  | enum short => exact .enum short
  | absent => exact .absent
  | array bounded _ _ ih => exact .array bounded ih

theorem Suits.mono {boxed other : Argument → Prop} (weaker : ∀ argument, boxed argument → other argument)
    {param : TypeSig}
    {argument : Argument} (suits : argument.Suits boxed param) : argument.Suits other param := by
  induction suits with
  | primitive own sized => exact .primitive own sized
  | type named short => exact .type named short
  | enum => exact .enum
  | absent => exact .absent
  | array bounded _ ih => exact .array bounded ih
  | boxed holds => exact .boxed (weaker _ holds)

/-- Room that reading an argument for a parameter takes. -/
def room : TypeSig → Argument → Nat
  | .array element, array (some elements) => (elements.map (room element)).foldr max 0 + 1
  | .primitive .object, argument => max (argument.nesting + 1) argument.carriedType.depth + 1
  | _, _ => 1

theorem room_pos (param : TypeSig) (argument : Argument) : 0 < argument.room param := by
  unfold room
  split <;> exact Nat.succ_pos _

theorem room_of_mem {param : TypeSig} {argument : Argument} {elements : List Argument} (member : argument ∈ elements) :
    argument.room param + 1 ≤ (array (some elements)).room (.array param) := by
  rw [room]
  exact Nat.succ_le_succ (List.le_max_of_le' 0 (List.mem_map_of_mem member) (Nat.le_refl _))

/-- A boxed argument takes the room of a type and of a value more than its arrays. -/
theorem room_le (param : TypeSig) (argument : Argument) : argument.room param ≤ argument.nesting + 3 := by
  unfold room
  split
  · rename_i element elements
    rw [nesting]
    refine Nat.succ_le_succ (foldr_max_le fun number member => ?_)
    obtain ⟨argument, within, rfl⟩ := List.mem_map.mp member
    exact Nat.le_trans (room_le element argument) (Nat.add_le_add_right (nesting_of_mem within) 2)
  · exact Nat.succ_le_succ (Nat.max_le.mpr ⟨Nat.le_succ _, depth_carriedType _⟩)
  · exact Nat.le_add_left 1 _

end Argument

end CilWeave
