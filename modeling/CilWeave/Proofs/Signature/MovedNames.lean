import CilWeave.Proofs.Signature.Alike

/-!
Names of moved types. Types are compared by their full names, some before they are moved and some after. Joined names can
be taken apart if the types are plainly named; if their names also cannot be mistaken for other kinds of types, types that
are called alike are still called alike when they have been moved.
-/

namespace CilWeave

/-- A type whose name has none of the characters that signatures are written with, and is no primitive's. -/
structure TypeRef.Ordinary (reference : TypeRef) : Prop extends reference.Plain where
  unmarked : Lacks reference.fullName ['&', ']', '!']
  own : Primitive.ofName? reference.fullName = none

/-- A signature of such types. -/
def TypeSig.Ordinary (sig : TypeSig) : Prop := ∀ reference ∈ sig.refs, reference.Ordinary

instance (reference : TypeRef) : Decidable reference.Ordinary :=
  decidable_of_iff (reference.Plain ∧ Lacks reference.fullName ['&', ']', '!'] ∧
    (Primitive.ofName? reference.fullName).isNone = true)
    ⟨fun ⟨plain, unmarked, own⟩ => ⟨plain, unmarked, Option.isNone_iff_eq_none.mp own⟩,
      fun ⟨plain, unmarked, own⟩ => ⟨plain, unmarked, Option.isNone_iff_eq_none.mpr own⟩⟩

instance (sig : TypeSig) : Decidable sig.Ordinary :=
  inferInstanceAs (Decidable (∀ reference ∈ sig.refs, reference.Ordinary))

theorem TypeSig.Ordinary.plain {sig : TypeSig} (ordinary : sig.Ordinary) : sig.Plain :=
  fun reference member => (ordinary reference member).toPlain

theorem TypeSig.Ordinary.distinct {sig : TypeSig} (ordinary : sig.Ordinary) : sig.Distinct := fun reference member =>
  ⟨⟨(ordinary reference member).named, (ordinary reference member).apart⟩, (ordinary reference member).unmarked⟩

namespace TypeSig

variable {sig other : TypeSig}

/-- What is called like a reference to a type is a reference to a type called alike. -/
theorem byRef_of_fullName (ordinary : sig.Ordinary) (ordinary' : other.Ordinary)
    (same : sig.fullName = (byRef other).fullName) : ∃ target, sig = .byRef target ∧ target.fullName = other.fullName := by
  cases alike_of_fullName sig (byRef other) ordinary.distinct (show other.Distinct from ordinary'.distinct) same with
  | named _ own => cases own
  | byRef inner => exact ⟨_, rfl, inner.fullName_eq⟩

/-- A plain name is a primitive's or that of the one type it stands for. -/
theorem ownName?_cases {name : String} (own : sig.ownName? = some name) :
    (∃ kind, sig = .primitive kind ∧ kind.name = name) ∨
      ∃ reference, sig.refs = [reference] ∧ reference.fullName = name ∧
        ∀ rename, (sig.mapRefs rename).fullName = (rename reference).fullName := by
  cases sig with
  | primitive kind => exact .inl ⟨kind, rfl, Option.some.inj own⟩
  | classType reference | valueType reference => exact .inr ⟨reference, rfl, Option.some.inj own, fun _ => rfl⟩
  | _ => cases own

section

variable {rename : TypeRef → TypeRef}

mutual

/-- Types called alike are called alike when they are renamed, if that only looks at their names. -/
theorem Alike.fullName_mapRefs {sig other : TypeSig} (alike : Alike sig other) (ordinary : sig.Ordinary)
    (ordinary' : other.Ordinary)
    (respects : ∀ reference ∈ sig.refs, ∀ called ∈ other.refs, reference.fullName = called.fullName →
      (rename reference).fullName = (rename called).fullName) :
    (sig.mapRefs rename).fullName = (other.mapRefs rename).fullName := by
  cases alike with
  | named own own' =>
      rcases ownName?_cases own with ⟨kind, rfl, name⟩ | ⟨reference, refs, name, renamed⟩ <;>
        rcases ownName?_cases own' with ⟨kind', rfl, name'⟩ | ⟨called, refs', name', renamed'⟩
      · exact name.trans name'.symm
      · -- An ordinary type has no primitive's name.
        have free := (ordinary' called (by simp [refs'])).own
        rw [name', ← name, Primitive.ofName?_name] at free
        cases free
      · have free := (ordinary reference (by simp [refs])).own
        rw [name, ← name', Primitive.ofName?_name] at free
        cases free
      · rw [renamed, renamed']
        exact respects reference (by simp [refs]) called (by simp [refs']) (name.trans name'.symm)
  | generic heads each =>
      have head := respects _ (by simp [refs]) _ (by simp [refs]) heads
      have inner := fullNames_mapRefs_of_alike each (fun reference member => ordinary reference (by simp [refs, member]))
        (fun reference member => ordinary' reference (by simp [refs, member]))
        (fun reference member called member' => respects reference (by simp [refs, member]) called (by simp [refs, member']))
      simp only [mapRefs, fullName, head, inner]
  | byRef inner => exact congrArg (· ++ "&") (inner.fullName_mapRefs ordinary ordinary' respects)
  | array inner => exact congrArg (· ++ "[]") (inner.fullName_mapRefs ordinary ordinary' respects)
  | typeParam | methodParam => rfl

theorem fullNames_mapRefs_of_alike {sigs others : List TypeSig} (alike : List.Forall₂ Alike sigs others)
    (ordinary : ∀ reference ∈ refsAll sigs, reference.Ordinary)
    (ordinary' : ∀ reference ∈ refsAll others, reference.Ordinary)
    (respects : ∀ reference ∈ refsAll sigs, ∀ called ∈ refsAll others, reference.fullName = called.fullName →
      (rename reference).fullName = (rename called).fullName) :
    fullNames (mapRefsAll rename sigs) = fullNames (mapRefsAll rename others) := by
  cases alike with
  | nil => rfl
  | cons one rest =>
      have first := one.fullName_mapRefs (fun reference member => ordinary reference (List.mem_append_left _ member))
        (fun reference member => ordinary' reference (List.mem_append_left _ member))
        (fun reference member called member' =>
          respects reference (List.mem_append_left _ member) called (List.mem_append_left _ member'))
      have others := fullNames_mapRefs_of_alike rest (fun reference member => ordinary reference
        (List.mem_append_right _ member))
        (fun reference member => ordinary' reference (List.mem_append_right _ member))
        (fun reference member called member' =>
          respects reference (List.mem_append_right _ member) called (List.mem_append_right _ member'))
      simp only [mapRefsAll, fullNames, first, others]

end

end

end TypeSig

namespace Rehoming

variable {home : Rehoming}

/-- Of the types that a signature names, just those of the mixin module bear names of mixin types. -/
def Owns (home : Rehoming) (sig : TypeSig) : Prop :=
  ∀ reference ∈ sig.refs, (home.types.get? reference.fullName).isSome = true → home.isMixinLocal reference.scope = true

instance (sig : TypeSig) : Decidable (home.Owns sig) :=
  inferInstanceAs (Decidable (∀ reference ∈ sig.refs, _ → _))

theorem fullName_typeRef_congr {reference called : TypeRef}
    (own : (home.types.get? reference.fullName).isSome = true → home.isMixinLocal reference.scope = true)
    (own' : (home.types.get? called.fullName).isSome = true → home.isMixinLocal called.scope = true)
    (same : reference.fullName = called.fullName) : (home.typeRef reference).fullName = (home.typeRef called).fullName := by
  have moved (reference : TypeRef)
      (own : (home.types.get? reference.fullName).isSome = true → home.isMixinLocal reference.scope = true) :
      (home.typeRef reference).fullName =
        ((home.types.get? reference.fullName).map fun target => (TypeRef.ofFullName none target).fullName).getD
          reference.fullName := by
    unfold typeRef
    cases found : home.types.get? reference.fullName with
    | some target => simp [own (by simp [found])]
    | none =>
        dsimp only [Option.map_none, Option.getD_none]
        split
        · rfl
        · split <;> rfl
  rw [moved reference own, moved called own', same]

/-- Types called alike are called alike when they have been moved. -/
theorem fullName_sig_congr {sig other : TypeSig} (ordinary : sig.Ordinary) (ordinary' : other.Ordinary) (own : home.Owns sig)
    (own' : home.Owns other) (same : sig.fullName = other.fullName) : (home.sig sig).fullName = (home.sig other).fullName :=
  (TypeSig.alike_of_fullName sig other ordinary.distinct ordinary'.distinct same).fullName_mapRefs ordinary ordinary'
    fun reference member called member' => fullName_typeRef_congr (own reference member) (own' called member')

/-- Types whose joined names agree are called alike one by one when they have been moved. -/
theorem fullNames_sig_congr {sigs others : List TypeSig} (legible : ∀ sig ∈ sigs, sig.Ordinary ∧ home.Owns sig)
    (legible' : ∀ sig ∈ others, sig.Ordinary ∧ home.Owns sig) (same : TypeSig.joinNames sigs = TypeSig.joinNames others) :
    TypeSig.fullNames (sigs.map home.sig) = TypeSig.fullNames (others.map home.sig) := by
  have names := TypeSig.fullNames_of_joinNames (fun sig member => (legible sig member).1.plain.separable)
    (fun sig member => (legible' sig member).1.plain.separable) same
  have alike := TypeSig.alike_of_fullNames sigs others (fun sig member => (legible sig member).1.distinct)
    (fun sig member => (legible' sig member).1.distinct) names
  have each {sigs : List TypeSig} (legible : ∀ sig ∈ sigs, sig.Ordinary ∧ home.Owns sig) :
      ∀ reference ∈ TypeSig.refsAll sigs, reference.Ordinary ∧
        ((home.types.get? reference.fullName).isSome = true → home.isMixinLocal reference.scope = true) := by
    intro reference member
    rw [TypeSig.refsAll_eq_flatMap] at member
    obtain ⟨sig, listed, own⟩ := List.mem_flatMap.mp member
    exact ⟨(legible sig listed).1 reference own, (legible sig listed).2 reference own⟩
  have respects (reference : TypeRef) (member : reference ∈ TypeSig.refsAll sigs) (called : TypeRef)
      (member' : called ∈ TypeSig.refsAll others) (named : reference.fullName = called.fullName) :
      (home.typeRef reference).fullName = (home.typeRef called).fullName :=
    fullName_typeRef_congr (each legible reference member).2 (each legible' called member').2 named
  have moved := TypeSig.fullNames_mapRefs_of_alike alike (fun reference member => (each legible reference member).1)
    (fun reference member => (each legible' reference member).1) respects
  rwa [TypeSig.mapRefsAll_eq_map, TypeSig.mapRefsAll_eq_map] at moved

end Rehoming

end CilWeave
