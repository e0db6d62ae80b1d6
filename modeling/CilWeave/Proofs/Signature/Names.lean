import Mathlib.Data.List.Basic
import CilWeave.Definition.Basic
import CilWeave.Mixin.Rehoming

/-!
What full names tell apart. Names are put together without quoting, so they can be taken apart again only
if type names hold none of the characters between their parts: then a member's full name gives its return
type's name, its own name and the number of its parameters.
-/

namespace CilWeave

section

variable {α : Type} {mark : α} {before after others rest : List α}

theorem append_mark_left (first : mark ∉ before) (second : mark ∉ others)
    (same : before ++ mark :: after = others ++ mark :: rest) : before = others ∧ after = rest := by
  induction before generalizing others with
  | nil =>
      cases others with
      | nil => exact ⟨rfl, (List.cons.inj same).2⟩
      | cons head tail => exact absurd ((List.cons.inj same).1 ▸ List.mem_cons_self) second
  | cons item before ih =>
      cases others with
      | nil => exact absurd ((List.cons.inj same).1 ▸ List.mem_cons_self) first
      | cons head tail =>
          obtain ⟨rfl, tails⟩ := List.cons.inj same
          obtain ⟨rfl, rfl⟩ := ih (fun member => first (List.mem_cons_of_mem _ member))
            (fun member => second (List.mem_cons_of_mem _ member)) tails
          exact ⟨rfl, rfl⟩

theorem append_mark_right (first : mark ∉ after) (second : mark ∉ rest)
    (same : before ++ mark :: after = others ++ mark :: rest) : before = others ∧ after = rest := by
  have turned : after.reverse ++ mark :: before.reverse = rest.reverse ++ mark :: others.reverse := by
    simpa using congrArg List.reverse same
  obtain ⟨right, left⟩ := append_mark_left (by simpa using first) (by simpa using second) turned
  exact ⟨List.reverse_injective left, List.reverse_injective right⟩

end

/-- None of the characters stands in the text. -/
def Lacks (text : String) (chars : List Char) : Prop := ∀ char ∈ text.toList, char ∉ chars

instance (text : String) (chars : List Char) : Decidable (Lacks text chars) :=
  List.decidableBAll (fun char => char ∉ chars) text.toList

theorem Lacks.append {text rest : String} {chars : List Char} (first : Lacks text chars) (second : Lacks rest chars) :
    Lacks (text ++ rest) chars := by
  intro char member
  rw [String.toList_append] at member
  exact (List.mem_append.mp member).elim (first char) (second char)

/-- The characters that stand between the parts of a full name. -/
def separators : List Char := [',', '<', '>', '(', ' ']

/-- A type with a name that has no separators. -/
structure TypeRef.Separable (reference : TypeRef) : Prop where
  named : reference.fullName ≠ ""
  apart : Lacks reference.fullName separators

def TypeSig.Separable (sig : TypeSig) : Prop := ∀ reference ∈ sig.refs, reference.Separable

/-- A type whose name has no separators and is not the one of the type without values. -/
structure TypeRef.Plain (reference : TypeRef) : Prop where
  named : reference.fullName ≠ ""
  apart : Lacks reference.fullName separators
  valued : reference.fullName ≠ Primitive.void.name

/-- A signature of plainly named types. -/
def TypeSig.Plain (sig : TypeSig) : Prop := ∀ reference ∈ sig.refs, reference.Plain

theorem TypeSig.Plain.separable {sig : TypeSig} (plain : sig.Plain) : sig.Separable :=
  fun reference member => ⟨(plain reference member).named, (plain reference member).apart⟩

theorem TypeSig.separable_of_plain {sigs : List TypeSig} (plain : ∀ sig ∈ sigs, sig.Plain) :
    ∀ sig ∈ sigs, sig.Separable :=
  fun sig member => (plain sig member).separable

instance (reference : TypeRef) : Decidable reference.Plain :=
  decidable_of_iff (reference.fullName ≠ "" ∧ Lacks reference.fullName separators ∧
    reference.fullName ≠ Primitive.void.name)
    ⟨fun ⟨named, apart, valued⟩ => ⟨named, apart, valued⟩,
      fun ⟨named, apart, valued⟩ => ⟨named, apart, valued⟩⟩

instance (sig : TypeSig) : Decidable sig.Plain := inferInstanceAs (Decidable (∀ reference ∈ sig.refs, reference.Plain))

theorem Primitive.name_apart (kind : Primitive) : Lacks kind.name separators := by
  cases kind <;> decide

theorem Primitive.ofName?_name (kind : Primitive) : ofName? kind.name = some kind := by
  cases kind <;> decide

theorem digitText_lacks {chars : List Char} (none : chars.all (fun char => !char.isDigit) = true) (number : Nat) :
    Lacks (Decimal.digitText number) chars := by
  intro char member among
  have digit : char.isDigit = true := by
    rw [Decimal.digitText, String.toList_ofList] at member
    exact Nat.isDigit_of_mem_toDigits (by decide) (by decide) member
  have other := List.all_eq_true.mp none char among
  rw [digit] at other
  cases other

theorem digitText_apart (number : Nat) : Lacks (Decimal.digitText number) separators := digitText_lacks (by decide) number

theorem digitText_inj {left right : Nat} (same : Decimal.digitText left = Decimal.digitText right) : left = right := by
  have digits := congrArg (fun text : String => Nat.ofDigitChars 10 text.toList 0) same
  simpa [Decimal.digitText] using digits

/-- How many angle brackets are open, and how many commas stood outside of them. -/
structure Nesting where
  depth : Nat
  commas : Nat

namespace Nesting

variable (nesting : Nesting)

def read (char : Char) : Nesting :=
  if char = '<' then { nesting with depth := nesting.depth + 1 }
  else if char = '>' then { nesting with depth := nesting.depth - 1 }
  else if char = ',' ∧ nesting.depth = 0 then { nesting with commas := nesting.commas + 1 }
  else nesting

def scan (text : String) : Nesting := text.toList.foldl read nesting

@[simp] theorem scan_append (text rest : String) : nesting.scan (text ++ rest) = (nesting.scan text).scan rest := by
  simp [scan]

theorem scan_apart {text : String} (apart : Lacks text separators) : nesting.scan text = nesting := by
  unfold Lacks at apart
  unfold scan
  generalize text.toList = chars at apart
  induction chars with
  | nil => rfl
  | cons char rest ih =>
      have own := apart char List.mem_cons_self
      have same : nesting.read char = nesting := by
        simp only [separators, List.mem_cons, not_or] at own
        simp [read, own]
      rw [List.foldl_cons, same]
      exact ih fun other member => apart other (List.mem_cons_of_mem _ member)

theorem scan_less : nesting.scan "<" = { nesting with depth := nesting.depth + 1 } := rfl

theorem scan_greater : nesting.scan ">" = { nesting with depth := nesting.depth - 1 } := rfl

theorem scan_comma :
    nesting.scan "," = { nesting with commas := nesting.commas + if nesting.depth = 0 then 1 else 0 } := by
  show nesting.read ',' = _
  by_cases outside : nesting.depth = 0 <;> simp [read, outside]

end Nesting

namespace TypeSig

theorem Separable.arguments {reference : TypeRef} {arguments : List TypeSig}
    (separable : (generic reference arguments).Separable) :
    reference.Separable ∧ ∀ sig ∈ arguments, sig.Separable := by
  refine ⟨separable reference (by simp [refs]), fun sig member other among => separable other ?_⟩
  rw [refs, refsAll_eq_flatMap]
  exact List.mem_cons_of_mem _ (List.mem_flatMap.mpr ⟨sig, member, among⟩)

mutual

/-- A full name closes what it opens, and has commas only between brackets. -/
theorem scan_fullName (sig : TypeSig) (separable : sig.Separable) (nesting : Nesting) :
    nesting.scan sig.fullName = nesting := by
  cases sig with
  | primitive kind => exact nesting.scan_apart kind.name_apart
  | classType reference => exact nesting.scan_apart (separable reference (by simp [refs])).apart
  | valueType reference => exact nesting.scan_apart (separable reference (by simp [refs])).apart
  | generic reference arguments =>
      rw [fullName, Nesting.scan_append, Nesting.scan_append, Nesting.scan_append,
        nesting.scan_apart separable.arguments.1.apart, Nesting.scan_less, scan_fullNames arguments separable.arguments.2,
        Nesting.scan_greater]
      simp
  | byRef target =>
      rw [fullName, Nesting.scan_append, scan_fullName target separable]
      exact nesting.scan_apart (by decide)
  | array element =>
      rw [fullName, Nesting.scan_append, scan_fullName element separable]
      exact nesting.scan_apart (by decide)
  | typeParam index =>
      rw [fullName, Nesting.scan_append, nesting.scan_apart (by decide)]
      exact nesting.scan_apart (digitText_apart _)
  | methodParam index =>
      rw [fullName, Nesting.scan_append, nesting.scan_apart (by decide)]
      exact nesting.scan_apart (digitText_apart _)

/-- Joined names have a comma between any two. -/
theorem scan_fullNames (sigs : List TypeSig) (separable : ∀ sig ∈ sigs, sig.Separable) (nesting : Nesting) :
    nesting.scan (",".intercalate (fullNames sigs)) =
      { nesting with commas := nesting.commas + if nesting.depth = 0 then sigs.length - 1 else 0 } := by
  cases sigs with
  | nil => simp [fullNames, Nesting.scan]
  | cons sig rest =>
      have head := scan_fullName sig (separable sig List.mem_cons_self)
      have tail := scan_fullNames rest fun other member => separable other (List.mem_cons_of_mem _ member)
      cases rest with
      | nil => simpa [fullNames] using head nesting
      | cons other more =>
          simp only [fullNames, String.intercalate_cons_cons, Nesting.scan_append, head, Nesting.scan_comma] at tail ⊢
          rw [tail]
          by_cases outside : nesting.depth = 0 <;> simp [outside]
          omega

end

mutual

theorem fullName_apart (sig : TypeSig) (separable : sig.Separable) : Lacks sig.fullName ['(', ' '] := by
  have free {text : String} (apart : Lacks text separators) : Lacks text ['(', ' '] :=
    fun char member own => apart char member (List.mem_append_right [',', '<', '>'] own)
  cases sig with
  | primitive kind => exact free kind.name_apart
  | classType reference => exact free (separable reference (by simp [refs])).apart
  | valueType reference => exact free (separable reference (by simp [refs])).apart
  | generic reference arguments =>
      exact (((free separable.arguments.1.apart).append (by decide)).append
        (fullNames_apart arguments separable.arguments.2)).append
        (by decide)
  | byRef target => exact (fullName_apart target separable).append (by decide)
  | array element => exact (fullName_apart element separable).append (by decide)
  | typeParam index => exact Lacks.append (by decide) (free (digitText_apart _))
  | methodParam index => exact Lacks.append (by decide) (free (digitText_apart _))

theorem fullNames_apart (sigs : List TypeSig) (separable : ∀ sig ∈ sigs, sig.Separable) :
    Lacks (",".intercalate (fullNames sigs)) ['(', ' '] := by
  cases sigs with
  | nil => exact (by decide : Lacks "" ['(', ' '])
  | cons sig rest =>
      have head := fullName_apart sig (separable sig List.mem_cons_self)
      have tail := fullNames_apart rest fun other member => separable other (List.mem_cons_of_mem _ member)
      cases rest with
      | nil => simpa [fullNames] using head
      | cons other more =>
          simp only [fullNames, String.intercalate_cons_cons] at tail ⊢
          exact (head.append (by decide)).append tail

end

/-- Whether a name begins with a bracket. -/
def opens (text : String) : Prop := text.toList.head? = some '<'

instance (text : String) : Decidable (opens text) := inferInstanceAs (Decidable (text.toList.head? = some '<'))

theorem not_opens_of_apart {text : String} (apart : Lacks text separators) : ¬opens text :=
  fun opened => apart '<' (List.mem_of_head? opened) (by decide)

theorem opens_append {text rest : String} (nonempty : text ≠ "") : opens (text ++ rest) ↔ opens text := by
  unfold opens
  rw [String.toList_append]
  cases chars : text.toList with
  | nil => exact absurd (String.toList_inj.mp chars) nonempty
  | cons head tail => rfl

/-- A full name is not empty and does not begin with a bracket. -/
theorem fullName_starts (sig : TypeSig) (separable : sig.Separable) : sig.fullName ≠ "" ∧ ¬opens sig.fullName := by
  have begins {text rest : String} (start : text ≠ "" ∧ ¬opens text) : text ++ rest ≠ "" ∧ ¬opens (text ++ rest) :=
    ⟨fun empty => start.1 (String.append_eq_empty_iff.mp empty).1, (opens_append start.1).not.mpr start.2⟩
  have named {reference : TypeRef} (separable : reference.Separable) : reference.fullName ≠ "" ∧
    ¬opens reference.fullName :=
    ⟨separable.named, not_opens_of_apart separable.apart⟩
  cases sig with
  | primitive kind => exact ⟨by cases kind <;> decide, not_opens_of_apart kind.name_apart⟩
  | classType reference => exact named (separable reference (by simp [refs]))
  | valueType reference => exact named (separable reference (by simp [refs]))
  | generic reference arguments => exact begins (begins (begins (named separable.arguments.1)))
  | byRef target => exact begins (fullName_starts target separable)
  | array element => exact begins (fullName_starts element separable)
  | typeParam index => exact begins ⟨by decide, by decide⟩
  | methodParam index => exact begins ⟨by decide, by decide⟩

/-- Only the type without values has its name. -/
theorem isVoid_iff {sig : TypeSig} (plain : sig.Plain) : sig.isVoid = true ↔ sig.fullName = Primitive.void.name := by
  have last {text rest : String} {char : Char} (ends : rest.toList.getLast? = some char) (other : char ≠ 'd') :
      text ++ rest ≠ Primitive.void.name := by
    intro same
    have chars := congrArg (fun text => text.toList.getLast?) same
    rw [String.toList_append, List.getLast?_append, ends, show Primitive.void.name.toList.getLast? = some 'd' from by decide]
      at chars
    exact other (Option.some.inj chars)
  have first {text rest : String} {char : Char} (starts : text.toList.head? = some char) (other : char ≠ 'S') :
      text ++ rest ≠ Primitive.void.name := by
    intro same
    have chars := congrArg (fun text => text.toList.head?) same
    rw [String.toList_append, List.head?_append, starts, show Primitive.void.name.toList.head? = some 'S' from by decide]
      at chars
    exact other (Option.some.inj chars)
  have never {named : Prop} (no : ¬named) : false = true ↔ named := iff_of_false (by decide) no
  cases sig with
  | primitive kind => cases kind <;> decide
  | classType reference => exact never (plain reference (by simp [refs])).valued
  | valueType reference => exact never (plain reference (by simp [refs])).valued
  | generic reference arguments => exact never (last (show (">" : String).toList.getLast? = some '>' from rfl) (by decide))
  | byRef target => exact never (last (show ("&" : String).toList.getLast? = some '&' from rfl) (by decide))
  | array element => exact never (last (show ("[]" : String).toList.getLast? = some ']' from rfl) (by decide))
  | typeParam index => exact never (first (show ("!" : String).toList.head? = some '!' from rfl) (by decide))
  | methodParam index => exact never (first (show ("!!" : String).toList.head? = some '!' from rfl) (by decide))

/-- Joined names tell how many they are. -/
theorem length_of_joinNames {sigs others : List TypeSig} (separable : ∀ sig ∈ sigs, sig.Separable)
    (separable' : ∀ sig ∈ others, sig.Separable) (same : joinNames sigs = joinNames others) :
    sigs.length = others.length := by
  have commas : sigs.length - 1 = others.length - 1 := by
    have scanned := congrArg (fun text => ((⟨0, 0⟩ : Nesting).scan text).commas) same
    simpa [joinNames, scan_fullNames _ separable, scan_fullNames _ separable'] using scanned
  have empty {sigs : List TypeSig} (separable : ∀ sig ∈ sigs, sig.Separable) : joinNames sigs = "" ↔ sigs.length = 0 := by
    cases sigs with
    | nil => simp [joinNames, fullNames]
    | cons sig rest =>
        have some := (fullName_starts sig (separable sig List.mem_cons_self)).1
        cases rest with
        | nil => simpa [joinNames, fullNames] using some
        | cons other more => simp [joinNames, fullNames, String.intercalate_cons_cons]
  have none : sigs.length = 0 ↔ others.length = 0 := by rw [← empty separable, ← empty separable', same]
  omega

end TypeSig

/-- The full name of a member of a type gives the name of what it returns, its own name and those of its parameters. -/
theorem memberName_inj {returns returns' : TypeSig} {declaring name name' : String} {params params' : List TypeSig}
    (separable : returns.Separable) (separable' : returns'.Separable) (separables : ∀ sig ∈ params, sig.Separable)
    (separables' : ∀ sig ∈ params', sig.Separable)
    (same : memberName returns declaring name params = memberName returns' declaring name' params') :
    returns.fullName = returns'.fullName ∧ name = name' ∧ TypeSig.joinNames params = TypeSig.joinNames params' := by
  have blank {sig : TypeSig} (separable : sig.Separable) : ' ' ∉ sig.fullName.toList :=
    fun member => sig.fullName_apart separable ' ' member (by decide)
  have bracket {sigs : List TypeSig} (separable : ∀ sig ∈ sigs, sig.Separable) :
      '(' ∉ (TypeSig.joinNames sigs).toList ++ [')'] := by
    intro member
    rcases List.mem_append.mp member with inner | last
    · exact TypeSig.fullNames_apart sigs separable '(' inner (by decide)
    · revert last
      decide
  have chars := congrArg String.toList same
  simp only [memberName, String.toList_append, List.append_assoc] at chars
  obtain ⟨first, rest⟩ := append_mark_left (blank separable) (blank separable') chars
  have inner := List.append_cancel_left (List.append_cancel_left (List.append_cancel_left rest))
  obtain ⟨middle, last⟩ := append_mark_right (bracket separables) (bracket separables') inner
  exact ⟨String.toList_inj.mp first, String.toList_inj.mp middle, String.toList_inj.mp (List.append_cancel_right last)⟩

mutual

theorem TypeSig.refs_mapRefs (rename : TypeRef → TypeRef) (sig : TypeSig) :
    (sig.mapRefs rename).refs = sig.refs.map rename := by
  cases sig with
  | generic reference arguments => simp only [mapRefs, refs, List.map_cons, refsAll_mapRefsAll]
  | byRef target => exact target.refs_mapRefs rename
  | array element => exact element.refs_mapRefs rename
  | _ => rfl

theorem TypeSig.refsAll_mapRefsAll (rename : TypeRef → TypeRef) (sigs : List TypeSig) :
    refsAll (mapRefsAll rename sigs) = (refsAll sigs).map rename := by
  cases sigs with
  | nil => rfl
  | cons sig rest => simp only [mapRefsAll, refsAll, List.map_append, sig.refs_mapRefs, refsAll_mapRefsAll rename rest]

end

theorem TypeSig.isVoid_mapRefs (rename : TypeRef → TypeRef) (sig : TypeSig) : (sig.mapRefs rename).isVoid = sig.isVoid := by
  cases sig <;> rfl

namespace Rehoming

/-- The mixins' targets, as moved references name them, have plain names. -/
def PlainTargets (home : Rehoming) : Prop :=
  ∀ name target, home.types.get? name = some target → (TypeRef.ofFullName none target).Plain

variable {home : Rehoming} (targets : home.PlainTargets)

include targets

/-- A moved reference has a plain name, or the name that it had. -/
theorem typeRef_named (reference : TypeRef) :
    (home.typeRef reference).Plain ∨ (home.typeRef reference).fullName = reference.fullName := by
  unfold typeRef
  split
  · split
    · exact .inl (targets _ _ ‹_›)
    · exact .inr rfl
  · split <;> exact .inr rfl

theorem typeRef_plain {reference : TypeRef} (plain : reference.Plain) : (home.typeRef reference).Plain := by
  rcases typeRef_named targets reference with moved | same
  · exact moved
  · exact ⟨same ▸ plain.named, same ▸ plain.apart, same ▸ plain.valued⟩

theorem sig_plain {sig : TypeSig} (plain : sig.Plain) : (home.sig sig).Plain := by
  intro reference member
  rw [Rehoming.sig, TypeSig.refs_mapRefs] at member
  obtain ⟨old, listed, rfl⟩ := List.mem_map.mp member
  exact typeRef_plain targets (plain old listed)

/-- Moving a type does not put a bracket at the beginning of its name. -/
theorem opens_sig (sig : TypeSig) (opened : TypeSig.opens (home.sig sig).fullName) : TypeSig.opens sig.fullName := by
  have named {reference : TypeRef} (opened : TypeSig.opens (home.typeRef reference).fullName) :
      TypeSig.opens reference.fullName := by
    rcases typeRef_named targets reference with moved | same
    · exact absurd opened (TypeSig.not_opens_of_apart moved.apart)
    · exact same ▸ opened
  have front {text rest : String} {char : Char} (starts : rest.toList.head? = some char) (other : char ≠ '<')
      (opened : TypeSig.opens (text ++ rest)) : TypeSig.opens text := by
    by_cases empty : text = ""
    · rw [empty, String.empty_append, TypeSig.opens, starts] at opened
      exact absurd (Option.some.inj opened) other
    · exact (TypeSig.opens_append empty).mp opened
  have behind {text : String} (rest : String) (opened : TypeSig.opens text) : TypeSig.opens (text ++ rest) := by
    refine (TypeSig.opens_append fun empty => ?_).mpr opened
    rw [empty] at opened
    exact absurd opened (by decide)
  cases sig with
  | primitive kind => exact opened
  | classType reference => exact named opened
  | valueType reference => exact named opened
  | byRef target =>
      exact behind "&" (opens_sig target (front (show ("&" : String).toList.head? = some '&' from rfl) (by decide) opened))
  | array element =>
      exact behind "[]" (opens_sig element (front (show ("[]" : String).toList.head? = some '[' from rfl) (by decide) opened))
  | typeParam index => exact opened
  | methodParam index => exact opened
  | generic reference arguments =>
      show TypeSig.opens (reference.fullName ++ "<" ++ ",".intercalate (TypeSig.fullNames arguments) ++ ">")
      have moved : TypeSig.opens ((home.typeRef reference).fullName ++ "<" ++
          ",".intercalate (TypeSig.fullNames (TypeSig.mapRefsAll home.typeRef arguments)) ++ ">") := opened
      rw [String.append_assoc, String.append_assoc] at moved ⊢
      rcases typeRef_named targets reference with plain | same
      · exact absurd ((TypeSig.opens_append plain.named).mp moved) (TypeSig.not_opens_of_apart plain.apart)
      · rw [same] at moved
        by_cases empty : reference.fullName = ""
        · rw [empty, String.empty_append, TypeSig.opens, String.toList_append]
          rfl
        · exact (TypeSig.opens_append empty).mpr ((TypeSig.opens_append empty).mp moved)

end Rehoming

end CilWeave
