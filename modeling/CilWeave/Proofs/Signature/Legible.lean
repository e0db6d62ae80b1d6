import CilWeave.Proofs.Signature.Names
import CilWeave.Proofs.Text.Ends
import CilWeave.Proofs.Text.Joining

/-!
Names of types read back. A full name is written from the inside out and its suffixes are stripped from the outside in, so
every stack of references and arrays comes apart as it was put together; what is left is the name of a primitive or a class.
-/

namespace CilWeave

open Text

theorem TypeRef.ofFullName_fullName {reference : TypeRef} (scope : Option String) (flat : '/' ∉ reference.space.toList)
    (last : '.' ∉ reference.name.toList.takeWhile (· ≠ '/')) :
    ofFullName scope reference.fullName = reference.withScope scope := by
  obtain ⟨own, space, name⟩ := reference
  dsimp only at flat last
  by_cases empty : space.isEmpty = true
  · obtain rfl : space = "" := by simpa using empty
    have undivided : splitLast? '.' (name.toList.takeWhile (· ≠ '/')) = none := if_neg last
    simp only [ofFullName, fullName, empty, if_true, undivided, withScope]
  · have joined : (space ++ "." ++ name).toList = space.toList ++ ['.'] ++ name.toList := by simp
    have outer : (space ++ "." ++ name).toList.takeWhile (· ≠ '/') =
        space.toList ++ '.' :: name.toList.takeWhile (· ≠ '/') := by
      rw [joined, List.takeWhile_append_of_pos, List.append_assoc, List.singleton_append]
      intro char member
      refine decide_eq_true fun same => ?_
      rcases List.mem_append.mp member with among | dot
      · exact flat (same ▸ among)
      · exact absurd (same ▸ dot) (by decide)
    have divided : splitLast? '.' (space.toList ++ '.' :: name.toList.takeWhile (· ≠ '/')) =
        some (space.toList, name.toList.takeWhile (· ≠ '/')) := splitLast?_append last
    have rest : (space ++ "." ++ name).toList.drop (space.toList.length + 1) = name.toList := by
      rw [joined]
      exact List.drop_left' (by simp)
    simp only [ofFullName, fullName, empty, Bool.false_eq_true, if_false, outer, divided, rest, String.ofList_toList, withScope]

/-- A class whose full name is taken for nothing else: no primitive has it, none of the marks that a type's name may have
stands in it, no blank at its ends, and its namespace is what stands in front of the last dot of its outermost type. -/
structure TypeRef.Legible (reference : TypeRef) : Prop where
  own : ∀ kind : Primitive, reference.fullName ≠ kind.name
  apart : Lacks reference.fullName [',', '&', '+', '[']
  trimmed : trim reference.fullName = reference.fullName
  flat : '/' ∉ reference.space.toList
  last : '.' ∉ reference.name.toList.takeWhile (· ≠ '/')

namespace TypeSig

/-- References and arrays, in any nesting, of primitives and legible classes. -/
inductive Legible : TypeSig → Prop
  | primitive (kind : Primitive) : Legible (.primitive kind)
  | classType {reference : TypeRef} (legible : reference.Legible) : Legible (.classType reference)
  | byRef {target : TypeSig} (legible : Legible target) : Legible (.byRef target)
  | array {element : TypeSig} (legible : Legible element) : Legible (.array element)

namespace Legible

variable {sig : TypeSig}

theorem trimChars_fullName (legible : sig.Legible) : trimChars sig.fullName.toList = sig.fullName.toList := by
  induction legible with
  | primitive kind => cases kind <;> decide
  | classType legible => exact toList_of_trim legible.trimmed
  | byRef _ ih | array _ ih =>
      rw [fullName, String.toList_append]
      exact trimChars_append ih (by decide) (by decide)

theorem comma_notMem (legible : sig.Legible) : ',' ∉ sig.fullName.toList := by
  induction legible with
  | primitive kind => cases kind <;> decide
  | classType legible => exact fun member => legible.apart ',' member (by decide)
  | byRef _ ih | array _ ih =>
      rw [fullName, String.toList_append, List.mem_append, not_or]
      exact ⟨ih, by decide⟩

/-- A name without suffixes is the name of what carries them. -/
theorem ofNameWithin_eq_leaf {name : List Char} (scope : Option String) (bound : Nat) (first : '&' ∉ name)
    (second : '[' ∉ name) :
    ofNameWithin scope bound name = ofNameWithin.leaf scope name := by
  cases bound with
  | zero => rfl
  | succ bound =>
      rw [ofNameWithin, dropEnding?_of_notMem List.mem_cons_self first, dropEnding?_of_notMem List.mem_cons_self second]

theorem leaf_fullName {reference : TypeRef} (legible : reference.Legible) (scope : Option String) :
    ofNameWithin.leaf scope reference.fullName.toList = .classType (reference.withScope scope) := by
  have other : Primitive.ofName? reference.fullName = none :=
    List.find?_eq_none.mpr fun kind _ same => legible.own kind (eq_of_beq same).symm
  have unchanged : reference.fullName.toList.map (fun char => if char = '+' then '/' else char) =
    reference.fullName.toList := by
    have each : ∀ char ∈ reference.fullName.toList, (if char = '+' then '/' else char) = id char := fun char member =>
      if_neg fun plus => legible.apart char member (by simp [plus])
    rw [List.map_congr_left each, List.map_id]
  rw [ofNameWithin.leaf, String.ofList_toList, other]
  simp only [unchanged, String.ofList_toList, TypeRef.ofFullName_fullName scope legible.flat legible.last]

/-- Each suffix takes up some of the bound, so the length of the name is enough. -/
theorem ofNameWithin_fullName (legible : sig.Legible) (scope : Option String) {bound : Nat}
    (enough : sig.fullName.toList.length ≤ bound) :
    ofNameWithin scope bound sig.fullName.toList = sig.mapRefs (·.withScope scope) := by
  induction legible generalizing bound with
  | primitive kind =>
      have plain : '&' ∉ kind.name.toList ∧ '[' ∉ kind.name.toList := by cases kind <;> decide
      rw [fullName, ofNameWithin_eq_leaf scope bound plain.1 plain.2, ofNameWithin.leaf, String.ofList_toList,
        Primitive.ofName?_name, mapRefs]
  | classType legible =>
      rw [fullName, ofNameWithin_eq_leaf scope bound (fun member => legible.apart '&' member (by decide))
        (fun member => legible.apart '[' member (by decide)), leaf_fullName legible, mapRefs]
  | @byRef target _ ih =>
      rw [fullName, String.toList_append, show ("&" : String).toList = ['&'] from rfl] at enough ⊢
      rw [List.length_append, List.length_singleton] at enough
      obtain ⟨bound, rfl⟩ := Nat.exists_eq_add_of_lt enough
      rw [ofNameWithin, dropEnding?_append]
      exact congrArg TypeSig.byRef (ih (Nat.le_add_right _ _))
  | @array element _ ih =>
      rw [fullName, String.toList_append, show ("[]" : String).toList = ['[', ']'] from rfl] at enough ⊢
      obtain ⟨bound, rfl⟩ := Nat.exists_eq_add_of_lt (show element.fullName.toList.length < bound by simp at enough; omega)
      have array : dropEnding? ['&'] (element.fullName.toList ++ ['[', ']']) = none := by
        rw [List.append_cons]
        exact dropEnding?_of_ne (by decide)
      rw [ofNameWithin, array, dropEnding?_append]
      exact congrArg TypeSig.array (ih (Nat.le_add_right _ _))

end Legible

/-- The full name of a type is read as that type: on its own as one of the module that holds it, and with the name of an
assembly behind a comma as one of that assembly, whatever parts follow. -/
theorem ofName_fullName {sig : TypeSig} (legible : sig.Legible) :
    ofName sig.fullName = sig.mapRefs (·.withScope none) ∧
      ∀ (assembly : String) (parts : List String), ',' ∉ assembly.toList → trim assembly = assembly →
        assembly ≠ "" →
        ofName (sig.fullName ++ ", " ++ assembly ++ String.join (parts.map ("," ++ ·))) =
          sig.mapRefs (·.withScope (some assembly)) := by
  constructor
  · simp only [ofName, splitChars_whole legible.comma_notMem, List.map_cons, List.map_nil, legible.trimChars_fullName]
    exact legible.ofNameWithin_fullName none (Nat.le_refl _)
  · intro assembly parts whole trimmed named
    have apart : ',' ∉ ' ' :: assembly.toList := by simpa using whole
    obtain ⟨more, pieces⟩ := splitChars_join apart parts
    have joined : (sig.fullName ++ ", " ++ assembly ++ String.join (parts.map ("," ++ ·))).toList =
        sig.fullName.toList ++ ',' :: (' ' :: assembly.toList ++ (String.join (parts.map ("," ++ ·))).toList) := by simp
    have kept : trimChars (' ' :: assembly.toList) = assembly.toList := by
      rw [trimChars_blank (by decide), toList_of_trim trimmed]
    have filled : assembly.toList.isEmpty = false := by simpa using named
    simp only [ofName, joined, splitChars_append legible.comma_notMem, pieces, List.map_cons, legible.trimChars_fullName, kept,
      filled, Bool.false_eq_true, if_false, String.ofList_toList]
    exact legible.ofNameWithin_fullName (some assembly) (Nat.le_refl _)

end TypeSig

namespace Pouch

/-- A nested class of another module. -/
def inventory : TypeRef := ⟨some "Lib", "Game.World", "Player/Inventory"⟩

def sig : TypeSig := .byRef (.array (.array (.classType inventory)))

theorem legible : sig.Legible :=
  .byRef (.array (.array (.classType
    ⟨fun kind => by cases kind <;> decide, by decide, by decide, by decide, by decide⟩)))

theorem ofName_fullName_inventory :
    sig.Legible ∧ ',' ∉ "Game".toList ∧ trim "Game" = "Game" ∧ "Game" ≠ "" ∧
      TypeSig.ofName "Game.World.Player/Inventory[][]&" =
        .byRef (.array (.array (.classType ⟨none, "Game.World", "Player/Inventory"⟩))) ∧
      TypeSig.ofName "Game.World.Player/Inventory[][]&, Game, Version=1.0.0.0" =
        .byRef (.array (.array (.classType ⟨some "Game", "Game.World", "Player/Inventory"⟩))) := by
  have trimmed : trim "Game" = "Game" := by decide
  obtain ⟨alone, looked⟩ := TypeSig.ofName_fullName legible
  exact ⟨legible, by decide, trimmed, by decide, alone, looked "Game" [" Version=1.0.0.0"] (by decide) trimmed (by decide)⟩

end Pouch

end CilWeave
