import CilWeave.Proofs.Signature.Names

/-!
What full names identify. Joined names come apart at the commas outside of brackets, and the last and first characters of a
name tell what kind of signature it is of. So signatures of one name are the same up to scopes, to where namespaces end, and
to what kind of type a plain name stands for.
-/

namespace CilWeave

/-- The text closes what it opens and has commas only between brackets. -/
def Balanced (text : String) : Prop := ∀ nesting : Nesting, nesting.scan text = nesting

theorem Nesting.commas_le_scan (nesting : Nesting) (text : String) : nesting.commas ≤ (nesting.scan text).commas := by
  unfold scan
  generalize text.toList = chars
  induction chars generalizing nesting with
  | nil => exact Nat.le_refl _
  | cons char rest ih =>
      have one : nesting.commas ≤ (nesting.read char).commas := by
        unfold read
        split
        · exact Nat.le_refl _
        · split
          · exact Nat.le_refl _
          · split
            · exact Nat.le_succ _
            · exact Nat.le_refl _
      exact Nat.le_trans one (ih _)

theorem Balanced.no_comma {text rest : String} (balanced : Balanced text) : ¬Balanced (text ++ "," ++ rest) := by
  intro whole
  have more := Nesting.commas_le_scan ⟨0, 1⟩ rest
  have none := whole ⟨0, 0⟩
  rw [Nesting.scan_append, Nesting.scan_append, balanced, Nesting.scan_comma] at none
  exact absurd (none ▸ more) (by decide)

/-- A balanced text ends at the first comma outside of brackets. -/
theorem Balanced.cancel {text other rest more : String} (balanced : Balanced text) (balanced' : Balanced other)
    (same : text ++ "," ++ rest = other ++ "," ++ more) : text = other ∧ rest = more := by
  have chars : text.toList ++ ',' :: rest.toList = other.toList ++ ',' :: more.toList := by
    simpa using congrArg String.toList same
  -- The longer of the two would hold the comma behind the shorter one.
  have longer {short long : String} {between : List Char} (balanced : Balanced short) (balanced' : Balanced long)
      (split : long.toList = short.toList ++ ',' :: between) : False := by
    have whole : long = short ++ "," ++ String.ofList between := String.toList_inj.mp (by simp [split])
    exact balanced.no_comma (whole ▸ balanced')
  rcases List.append_eq_append_iff.mp chars with ⟨between, whole, ends⟩ | ⟨between, whole, ends⟩
  · cases between with
    | nil => exact ⟨String.toList_inj.mp (by simpa using whole.symm), String.toList_inj.mp (by simpa using ends)⟩
    | cons char between =>
        obtain ⟨rfl, -⟩ := List.cons.inj ends
        exact (longer balanced balanced' whole).elim
  · cases between with
    | nil => exact ⟨String.toList_inj.mp (by simpa using whole), String.toList_inj.mp (by simpa using ends.symm)⟩
    | cons char between =>
        obtain ⟨rfl, -⟩ := List.cons.inj ends
        exact (longer balanced' balanced whole).elim

namespace TypeSig

/-- Joined names give the name of each type. -/
theorem fullNames_of_joinNames {sigs others : List TypeSig} (separable : ∀ sig ∈ sigs, sig.Separable)
    (separable' : ∀ sig ∈ others, sig.Separable) (same : joinNames sigs = joinNames others) :
    fullNames sigs = fullNames others := by
  have counted := length_of_joinNames separable separable' same
  induction sigs generalizing others with
  | nil => rw [List.length_eq_zero_iff.mp counted.symm]
  | cons sig rest ih =>
      cases others with
      | nil => cases counted
      | cons other rest' =>
          have balanced := scan_fullName sig (separable sig List.mem_cons_self)
          have balanced' := scan_fullName other (separable' other List.mem_cons_self)
          have later {sig : TypeSig} (member : sig ∈ rest) := separable sig (List.mem_cons_of_mem _ member)
          have later' {sig : TypeSig} (member : sig ∈ rest') := separable' sig (List.mem_cons_of_mem _ member)
          cases rest with
          | nil =>
              cases rest' with
              | nil => simpa [joinNames, fullNames] using same
              | cons next more => cases counted
          | cons next more =>
              cases rest' with
              | nil => cases counted
              | cons next' more' =>
                  simp only [joinNames, fullNames, String.intercalate_cons_cons] at same
                  obtain ⟨head, tail⟩ := Balanced.cancel balanced balanced' same
                  have names := ih (fun sig => later) (fun sig => later') tail (Nat.succ.inj counted)
                  exact congrArg₂ List.cons head names

end TypeSig

/-- A type whose name has none of the characters that stand around or between names and can be told from them. -/
structure TypeRef.Distinct (reference : TypeRef) : Prop extends reference.Separable where
  unmarked : Lacks reference.fullName ['&', ']', '!']

namespace TypeSig

def Distinct (sig : TypeSig) : Prop := ∀ reference ∈ sig.refs, reference.Distinct

theorem Distinct.separable {sig : TypeSig} (distinct : sig.Distinct) : sig.Separable :=
  fun reference member => (distinct reference member).toSeparable

theorem Distinct.arguments {reference : TypeRef} {arguments : List TypeSig}
    (distinct : (generic reference arguments).Distinct) : reference.Distinct ∧ ∀ sig ∈ arguments, sig.Distinct := by
  refine ⟨distinct reference (by simp [refs]), fun sig member other among => distinct other ?_⟩
  rw [refs, refsAll_eq_flatMap]
  exact List.mem_cons_of_mem _ (List.mem_flatMap.mpr ⟨sig, member, among⟩)

/-- The name of a signature that is nothing but a name. -/
def ownName? : TypeSig → Option String
  | .primitive kind => some kind.name
  | .classType reference | .valueType reference => some reference.fullName
  | _ => none

/-- Sameness up to scopes, to the ends of namespaces, and to what kind of type a plain name stands for. -/
inductive Alike : TypeSig → TypeSig → Prop
  | named {left right : TypeSig} {name : String} : left.ownName? = some name → right.ownName? = some name → Alike left right
  | generic {left right : TypeRef} {arguments others : List TypeSig} : left.fullName = right.fullName →
      List.Forall₂ Alike arguments others → Alike (.generic left arguments) (.generic right others)
  | byRef {left right : TypeSig} : Alike left right → Alike (.byRef left) (.byRef right)
  | array {left right : TypeSig} : Alike left right → Alike (.array left) (.array right)
  | typeParam (index : UInt32) : Alike (.typeParam index) (.typeParam index)
  | methodParam (index : UInt32) : Alike (.methodParam index) (.methodParam index)

theorem fullName_of_ownName? {sig : TypeSig} {name : String} (own : sig.ownName? = some name) : sig.fullName = name := by
  cases sig <;> first | exact Option.some.inj own | cases own

mutual

theorem Alike.fullName_eq {sig other : TypeSig} (alike : Alike sig other) : sig.fullName = other.fullName := by
  cases alike with
  | named own own' => rw [fullName_of_ownName? own, fullName_of_ownName? own']
  | generic head each => rw [fullName, fullName, head, fullNames_of_alike each]
  | byRef inner => rw [fullName, fullName, inner.fullName_eq]
  | array inner => rw [fullName, fullName, inner.fullName_eq]
  | typeParam | methodParam => rfl

theorem fullNames_of_alike {sigs others : List TypeSig} (alike : List.Forall₂ Alike sigs others) :
    fullNames sigs = fullNames others := by
  cases alike with
  | nil => rfl
  | cons head tail => rw [fullNames, fullNames, head.fullName_eq, fullNames_of_alike tail]

end

/-- What kind of signature a name is of. -/
inductive Kind where
  | named | generic | byRef | array | typeParam | methodParam
deriving DecidableEq

def kind : TypeSig → Kind
  | .primitive _ | .classType _ | .valueType _ => .named
  | .generic _ _ => .generic
  | .byRef _ => .byRef
  | .array _ => .array
  | .typeParam _ => .typeParam
  | .methodParam _ => .methodParam

namespace Kind

def ofLast? : Char → Option Kind
  | '>' => some .generic
  | '&' => some .byRef
  | ']' => some .array
  | _ => none

def ofFront : List Char → Kind
  | '!' :: '!' :: _ => .methodParam
  | '!' :: _ => .typeParam
  | _ => .named

def ofName (name : String) : Kind := (name.toList.getLast?.bind ofLast?).getD (ofFront name.toList)

theorem ofName_last (name : String) {ending : String} {char : Char} {kind : Kind}
    (ends : ending.toList.getLast? = some char) (means : ofLast? char = some kind) : ofName (name ++ ending) = kind := by
  simp [ofName, List.getLast?_append, ends, means]

theorem ofName_front {name : String} (unmarked : Lacks name ['>', '&', ']']) : ofName name = ofFront name.toList := by
  have none : name.toList.getLast?.bind ofLast? = none := by
    rw [Option.bind_eq_none_iff]
    intro char ends
    have other := unmarked char (List.mem_of_getLast? ends)
    simp only [List.mem_cons, List.not_mem_nil, or_false, not_or] at other
    simp [ofLast?, other]
  rw [ofName, none]
  rfl

theorem ofFront_named {name : List Char} (first : name.head? ≠ some '!') : ofFront name = .named := by
  unfold ofFront
  split
  · exact absurd rfl first
  · exact absurd rfl first
  · rfl

theorem ofFront_typeParam {rest : List Char} (second : rest.head? ≠ some '!') : ofFront ('!' :: rest) = .typeParam := by
  cases rest with
  | nil => rfl
  | cons char rest =>
      have other : char ≠ '!' := fun same => second (congrArg some same)
      simp [ofFront, other]

end Kind

/-- The name tells the kind. -/
theorem kind_of_fullName {sig : TypeSig} (distinct : sig.Distinct) : Kind.ofName sig.fullName = sig.kind := by
  have named {reference : TypeRef} (distinct : reference.Distinct) : Kind.ofName reference.fullName = .named := by
    have unmarked : Lacks reference.fullName ['>', '&', ']'] := by
      intro char member mark
      rcases List.mem_cons.mp mark with rfl | mark
      · exact distinct.apart _ member (by decide)
      · exact distinct.unmarked char member (List.mem_append_left ['!'] mark)
    rw [Kind.ofName_front unmarked]
    exact Kind.ofFront_named fun first => distinct.unmarked '!' (List.mem_of_head? first) (by decide)
  have front (marks : String) (number : Nat) (unmarked : Lacks marks ['>', '&', ']']) :
      Kind.ofName (marks ++ Decimal.digitText number) = .ofFront (marks.toList ++ (Decimal.digitText number).toList) := by
    rw [Kind.ofName_front (unmarked.append (digitText_lacks (by decide) number)), String.toList_append]
  cases sig with
  | primitive kind => cases kind <;> decide
  | classType reference | valueType reference => exact named (distinct reference (by simp [refs]))
  | generic reference arguments => exact Kind.ofName_last _ (show (">" : String).toList.getLast? = some '>' from rfl) rfl
  | byRef target => exact Kind.ofName_last _ (show ("&" : String).toList.getLast? = some '&' from rfl) rfl
  | array element => exact Kind.ofName_last _ (show ("[]" : String).toList.getLast? = some ']' from rfl) rfl
  | typeParam index =>
      refine (front "!" _ (by decide)).trans (Kind.ofFront_typeParam fun second => ?_)
      have unmarked : Lacks (Decimal.digitText index.toNat) ['!'] := digitText_lacks (by decide) _
      exact unmarked '!' (List.mem_of_head? second) (by decide)
  | methodParam index => exact front "!!" _ (by decide)

variable {sig other : TypeSig}

theorem kind_eq (distinct : sig.Distinct) (distinct' : other.Distinct) (same : sig.fullName = other.fullName) :
    sig.kind = other.kind := by
  rw [← kind_of_fullName distinct, ← kind_of_fullName distinct', same]

theorem ownName?_of_kind (named : sig.kind = .named) : sig.ownName? = some sig.fullName := by
  cases sig <;> first | rfl | cases named

mutual

/-- Signatures of one name are alike. -/
theorem alike_of_fullName (sig other : TypeSig) (distinct : sig.Distinct) (distinct' : other.Distinct)
    (same : sig.fullName = other.fullName) : Alike sig other := by
  have kind := kind_eq distinct distinct' same
  have named (is : sig.kind = .named) : Alike sig other :=
    .named (ownName?_of_kind is) (same ▸ ownName?_of_kind (kind ▸ is))
  cases sig with
  | primitive | classType | valueType => exact named rfl
  | generic reference arguments =>
      cases other with
      | generic called others =>
          -- The first bracket ends the name of the generic type.
          have bracket {reference : TypeRef} (distinct : reference.Distinct) : '<' ∉ reference.fullName.toList :=
            fun member => distinct.apart '<' member (by decide)
          have chars : reference.fullName.toList ++ '<' :: (joinNames arguments).toList =
              called.fullName.toList ++ '<' :: (joinNames others).toList := by
            have whole := (String.append_left_inj ">").mp same
            simpa [joinNames] using congrArg String.toList whole
          obtain ⟨heads, inner⟩ :=
            append_mark_left (bracket distinct.arguments.1) (bracket distinct'.arguments.1) chars
          have names := fullNames_of_joinNames (fun sig member => (distinct.arguments.2 sig member).separable)
            (fun sig member => (distinct'.arguments.2 sig member).separable) (String.toList_inj.mp inner)
          exact .generic (String.toList_inj.mp heads)
            (alike_of_fullNames arguments others distinct.arguments.2 distinct'.arguments.2 names)
      | _ => cases kind
  | byRef target =>
      cases other with
      | byRef target' => exact .byRef (alike_of_fullName target target' distinct distinct' ((String.append_left_inj _).mp same))
      | _ => cases kind
  | array element =>
      cases other with
      | array element' => exact .array (alike_of_fullName element element' distinct distinct'
          ((String.append_left_inj _).mp same))
      | _ => cases kind
  | typeParam index =>
      cases other with
      | typeParam index' =>
          obtain rfl : index = index' := UInt32.toNat_inj.mp (digitText_inj ((String.append_right_inj _).mp same))
          exact .typeParam index
      | _ => cases kind
  | methodParam index =>
      cases other with
      | methodParam index' =>
          obtain rfl : index = index' := UInt32.toNat_inj.mp (digitText_inj ((String.append_right_inj _).mp same))
          exact .methodParam index
      | _ => cases kind

theorem alike_of_fullNames (sigs others : List TypeSig) (distinct : ∀ sig ∈ sigs, sig.Distinct)
    (distinct' : ∀ sig ∈ others, sig.Distinct) (same : fullNames sigs = fullNames others) :
    List.Forall₂ Alike sigs others := by
  cases sigs with
  | nil =>
      cases others with
      | nil => exact .nil
      | cons other rest => cases same
  | cons sig rest =>
      cases others with
      | nil => cases same
      | cons other rest' =>
          obtain ⟨head, tail⟩ := List.cons.inj same
          exact .cons (alike_of_fullName sig other (distinct sig List.mem_cons_self) (distinct' other List.mem_cons_self) head)
            (alike_of_fullNames rest rest' (fun sig member => distinct sig (List.mem_cons_of_mem _ member))
              (fun sig member => distinct' sig (List.mem_cons_of_mem _ member)) tail)

end

end TypeSig

/-- The characters that full names are written with around the names of types. -/
def nameMarks : List Char := ['&', '[', ']', '<', '>', ',', '!', '(', ')', ':', ' ']

/-- A type with a name, and without marks in it or in its namespace. -/
structure TypeRef.Spelled (reference : TypeRef) : Prop where
  named : reference.name ≠ ""
  name : Lacks reference.name nameMarks
  space : Lacks reference.space nameMarks

def TypeSig.Spelled (sig : TypeSig) : Prop := ∀ reference ∈ sig.refs, reference.Spelled

def MethodDef.Spelled (method : MethodDef) : Prop := ∀ sig ∈ method.returns :: method.paramTypes, sig.Spelled

instance (reference : TypeRef) : Decidable reference.Spelled :=
  decidable_of_iff (reference.name ≠ "" ∧ Lacks reference.name nameMarks ∧ Lacks reference.space nameMarks)
    ⟨fun ⟨named, name, space⟩ => ⟨named, name, space⟩, fun ⟨named, name, space⟩ => ⟨named, name, space⟩⟩

instance (sig : TypeSig) : Decidable sig.Spelled := inferInstanceAs (Decidable (∀ reference ∈ sig.refs, reference.Spelled))

instance (method : MethodDef) : Decidable method.Spelled :=
  inferInstanceAs (Decidable (∀ sig ∈ method.returns :: method.paramTypes, sig.Spelled))

theorem TypeRef.Spelled.distinct {reference : TypeRef} (spelled : reference.Spelled) : reference.Distinct := by
  have lacks : Lacks reference.fullName nameMarks := by
    unfold TypeRef.fullName
    split
    · exact spelled.name
    · exact (spelled.space.append (by decide)).append spelled.name
  have some : reference.fullName ≠ "" := by
    unfold TypeRef.fullName
    split
    · exact spelled.named
    · exact fun empty => spelled.named (String.append_eq_empty_iff.mp empty).2
  have fewer {chars : List Char} (marks : chars.all nameMarks.contains = true) : Lacks reference.fullName chars :=
    fun char member among => lacks char member (List.contains_iff_mem.mp (List.all_eq_true.mp marks char among))
  exact ⟨⟨some, fewer (by decide)⟩, fewer (by decide)⟩

theorem TypeSig.Spelled.distinct {sig : TypeSig} (spelled : sig.Spelled) : sig.Distinct :=
  fun reference member => (spelled reference member).distinct

/-- Joined names are equal exactly if the types are alike one by one. -/
theorem TypeSig.joinNames_eq_iff {sigs others : List TypeSig} (distinct : ∀ sig ∈ sigs, sig.Distinct)
    (distinct' : ∀ sig ∈ others, sig.Distinct) :
    joinNames sigs = joinNames others ↔ List.Forall₂ Alike sigs others := by
  constructor
  · intro same
    have names := fullNames_of_joinNames (fun sig member => (distinct sig member).separable)
      (fun sig member => (distinct' sig member).separable) same
    exact alike_of_fullNames sigs others distinct distinct' names
  · intro alike
    rw [joinNames, joinNames, fullNames_of_alike alike]

/-- Spelled signatures have one full name exactly if they are alike, lists of them have one text exactly if they are as
long and alike one by one, and methods of a type have one full name exactly if they have one name and are alike in what
they return and in their parameters. -/
theorem fullName_identifies :
    (∀ sig other : TypeSig, sig.Spelled → other.Spelled → (sig.fullName = other.fullName ↔ sig.Alike other)) ∧
      (∀ sigs others : List TypeSig, (∀ sig ∈ sigs, sig.Spelled) → (∀ sig ∈ others, sig.Spelled) →
        (TypeSig.joinNames sigs = TypeSig.joinNames others ↔ List.Forall₂ TypeSig.Alike sigs others)) ∧
      ∀ (type : TypeDef) (method other : MethodDef), method.Spelled → other.Spelled →
        (method.fullNameIn type.fullName = other.fullNameIn type.fullName ↔
          method.name = other.name ∧ method.returns.Alike other.returns ∧
            List.Forall₂ TypeSig.Alike method.paramTypes other.paramTypes) := by
  refine ⟨fun sig other spelled spelled' => ?_, fun sigs others spelled spelled' => ?_,
    fun type method other spelled spelled' => ?_⟩
  · exact ⟨TypeSig.alike_of_fullName sig other spelled.distinct spelled'.distinct, TypeSig.Alike.fullName_eq⟩
  · exact TypeSig.joinNames_eq_iff (fun sig member => (spelled sig member).distinct)
      fun sig member => (spelled' sig member).distinct
  · obtain ⟨returns, params⟩ := List.forall_mem_cons.mp spelled
    obtain ⟨returns', params'⟩ := List.forall_mem_cons.mp spelled'
    rw [← TypeSig.joinNames_eq_iff (fun sig member => (params sig member).distinct)
      fun sig member => (params' sig member).distinct]
    constructor
    · intro same
      obtain ⟨result, name, joined⟩ := memberName_inj returns.distinct.separable returns'.distinct.separable
        (fun sig member => (params sig member).distinct.separable)
        (fun sig member => (params' sig member).distinct.separable) same
      exact ⟨name, TypeSig.alike_of_fullName _ _ returns.distinct returns'.distinct result, joined⟩
    · rintro ⟨name, result, joined⟩
      rw [MethodDef.fullNameIn, MethodDef.fullNameIn, memberName, memberName, result.fullName_eq, name, joined]

namespace Boxes

/-- A box of an address and a value, with every reference in full. -/
def stored : TypeSig :=
  .generic ⟨some "Lib", "Ns", "Box`2"⟩
    [.byRef (.array (.classType ⟨some "mscorlib", "System", "Int32"⟩)), .valueType ⟨none, "Ns.Inner", "Item"⟩]

/-- The same box with a primitive, without scopes, and with namespaces that end elsewhere. -/
def asked : TypeSig :=
  .generic ⟨none, "", "Ns.Box`2"⟩ [.byRef (.array (.primitive .int32)), .classType ⟨none, "Ns", "Inner.Item"⟩]

def put (name : String) (box : TypeSig) : MethodDef := ⟨name, ⟨0⟩, .methodParam 0, [⟨"box", box, []⟩], none, []⟩

def type : TypeDef := .empty "Ns" "Store" ⟨0⟩ none

theorem fullName_identifies_boxes :
    stored.Spelled ∧ asked.Spelled ∧ stored.fullName = "Ns.Box`2<System.Int32[]&,Ns.Inner.Item>" ∧ stored.Alike asked ∧
      List.Forall₂ TypeSig.Alike [stored, .typeParam 0] [asked, .typeParam 0] ∧
      (put "Put" stored).fullNameIn type.fullName = (put "Put" asked).fullNameIn type.fullName ∧
      (put "Put" stored).fullNameIn type.fullName ≠ (put "Add" asked).fullNameIn type.fullName := by
  have alike : stored.Alike asked := (fullName_identifies.1 stored asked (by decide) (by decide)).mp (by decide)
  have pair := (fullName_identifies.2.1 [stored, .typeParam 0] [asked, .typeParam 0] (by decide) (by decide)).mp (by decide)
  have methods (name : String) :=
    fullName_identifies.2.2 type (put "Put" stored) (put name asked) (by decide) (show (put "Put" asked).Spelled by decide)
  refine ⟨by decide, by decide, by decide, alike, pair, (methods "Put").mpr ⟨rfl, .methodParam 0, .cons alike .nil⟩, ?_⟩
  exact fun same => absurd ((methods "Add").mp same).1 (by decide)

end Boxes

end CilWeave
