import CilWeave.Proofs.Json.Numerals
import CilWeave.Proofs.Json.Strings
import CilWeave.Proofs.Text.Joining
import Mathlib.Data.List.Basic

/-!
Texts of trees read as the same trees, on one line or on many. Both ways of writing put nothing but blanks between the parts, so
they are two spacings of one text, and the reader is followed along that text once for every spacing.
-/

namespace CilWeave.Json

/-- What stands in front of each element and member at a depth, and after each colon. -/
structure Spacing where
  line : Nat → List Char
  gap : List Char
  line_blank : ∀ depth, ∀ char ∈ line depth, isSpace char
  gap_blank : ∀ char ∈ gap, isSpace char

/-- Everything on one line. -/
def Spacing.flat : Spacing := ⟨fun _ => [], [], by simp, by simp⟩

/-- A line for each element and member. -/
def Spacing.lines : Spacing where
  line depth := (newLine depth).toList
  gap := [' ']
  line_blank depth char member := by
    simp [newLine] at member
    rcases member with rfl | ⟨-, rfl⟩ <;> rfl
  gap_blank char member := by
    simp at member
    subst member
    rfl

mutual

/-- The text of a value that starts at a depth. -/
def spell (spacing : Spacing) (depth : Nat) : Json → List Char
  | .array (first :: rest) =>
    '[' :: (spacing.line (depth + 1) ++ (spell spacing (depth + 1) first ++ spellElements spacing depth rest))
  | .object ((name, value) :: rest) =>
    '\x7b' :: (spacing.line (depth + 1) ++ ((writeString name).toList ++
      ':' :: (spacing.gap ++ (spell spacing (depth + 1) value ++ spellMembers spacing depth rest))))
  | json => (writeScalar json).toList

/-- The rest of an array after an element. -/
def spellElements (spacing : Spacing) (depth : Nat) : List Json → List Char
  | [] => spacing.line depth ++ [']']
  | json :: rest => ',' :: (spacing.line (depth + 1) ++ (spell spacing (depth + 1) json ++ spellElements spacing depth rest))

/-- The rest of an object after a member. -/
def spellMembers (spacing : Spacing) (depth : Nat) : List (String × Json) → List Char
  | [] => spacing.line depth ++ ['\x7d']
  | (name, json) :: rest =>
    ',' :: (spacing.line (depth + 1) ++ ((writeString name).toList ++
      ':' :: (spacing.gap ++ (spell spacing (depth + 1) json ++ spellMembers spacing depth rest))))

end

/-- Every numeral of a tree is one, and every string stands for a text. -/
inductive Legible : Json → Prop
  | null : Legible .null
  | bool (value : Bool) : Legible (.bool value)
  | number {numeral : String} {parts : Numeral} (read : Numeral.read? numeral.toList = some parts) : Legible (.number numeral)
  | string (text : String) : Legible (.string text)
  | array {elements : List Json} (each : ∀ element ∈ elements, Legible element) : Legible (.array elements)
  | object {members : List (String × Json)} (each : ∀ member ∈ members, Legible member.2) : Legible (.object members)

/-- A function that treats the items of a list one by one. -/
theorem eq_map_of_cons {α β : Type} {treat : List α → List β} {one : α → β} (nil : treat [] = [])
    (cons : ∀ item rest, treat (item :: rest) = one item :: treat rest) (items : List α) : treat items = items.map one := by
  induction items with
  | nil => exact nil
  | cons item rest ih => rw [cons, ih, List.map_cons]

theorem compactAll_eq_map (elements : List Json) : compactAll elements = elements.map compact :=
  eq_map_of_cons rfl (fun _ _ => rfl) elements

theorem compactMembers_eq_map (members : List (String × Json)) :
    compactMembers members = members.map fun member => writeString member.1 ++ ":" ++ compact member.2 :=
  eq_map_of_cons rfl (fun _ _ => rfl) members

theorem indentedAll_eq_map (depth : Nat) (elements : List Json) : indentedAll depth elements = elements.map (indented depth) :=
  eq_map_of_cons rfl (fun _ _ => rfl) elements

theorem indentedMembers_eq_map (depth : Nat) (members : List (String × Json)) :
    indentedMembers depth members = members.map fun member => writeString member.1 ++ ": " ++ indented depth member.2 :=
  eq_map_of_cons rfl (fun _ _ => rfl) members

theorem spellElements_eq (spacing : Spacing) (depth : Nat) (elements : List Json) :
    spellElements spacing depth elements =
      (elements.flatMap fun element => ',' :: (spacing.line (depth + 1) ++ spell spacing (depth + 1) element)) ++
        (spacing.line depth ++ [']']) := by
  induction elements with
  | nil => rfl
  | cons element rest ih => simp [spellElements, ih]

theorem spellMembers_eq (spacing : Spacing) (depth : Nat) (members : List (String × Json)) :
    spellMembers spacing depth members =
      (members.flatMap fun member => ',' :: (spacing.line (depth + 1) ++ ((writeString member.1).toList ++
        ':' :: (spacing.gap ++ spell spacing (depth + 1) member.2)))) ++
        (spacing.line depth ++ ['\x7d']) := by
  induction members with
  | nil => rfl
  | cons member rest ih => simp [spellMembers, ih]

theorem Legible.compact_spell {json : Json} (legible : json.Legible) (depth : Nat) :
    (compact json).toList = spell .flat depth json := by
  induction legible generalizing depth with
  | null | bool | number | string => simp [compact, spell]
  | @array elements each ih =>
      cases elements with
      | nil => simp [compact, compactAll, spell, writeScalar]
      | cons first rest =>
          have one := ih first List.mem_cons_self (depth + 1)
          have others : ∀ element ∈ rest, ',' :: (compact element).toList = ',' :: spell .flat (depth + 1) element :=
            fun element member => congrArg _ (ih element (List.mem_cons_of_mem _ member) (depth + 1))
          simp [compact, compactAll_eq_map, spell, spellElements_eq, String.toList_intercalate, Text.intercalate_cons,
            List.flatMap_map, one, List.flatMap_congr others, Spacing.flat]
  | @object members each ih =>
      cases members with
      | nil => simp [compact, compactMembers, spell, writeScalar]
      | cons first rest =>
          have one := ih first List.mem_cons_self (depth + 1)
          have others : ∀ member ∈ rest, ',' :: ((writeString member.1).toList ++ ':' :: (compact member.2).toList) =
              ',' :: ((writeString member.1).toList ++ ':' :: spell .flat (depth + 1) member.2) :=
            fun member listed => by rw [ih member (List.mem_cons_of_mem _ listed) (depth + 1)]
          simp [compact, compactMembers_eq_map, spell, spellMembers_eq, String.toList_intercalate, Text.intercalate_cons,
            List.flatMap_map, one, List.flatMap_congr others, Spacing.flat]

theorem Legible.indented_spell {json : Json} (legible : json.Legible) (depth : Nat) :
    (indented depth json).toList = spell .lines depth json := by
  induction legible generalizing depth with
  | null | bool | number | string => simp [indented, spell]
  | @array elements each ih =>
      cases elements with
      | nil => simp [indented, spell, writeScalar]
      | cons first rest =>
          have one := ih first List.mem_cons_self (depth + 1)
          have others : ∀ element ∈ rest, ',' :: ((newLine (depth + 1)).toList ++ (indented (depth + 1) element).toList) =
              ',' :: ((newLine (depth + 1)).toList ++ spell .lines (depth + 1) element) :=
            fun element member => by rw [ih element (List.mem_cons_of_mem _ member) (depth + 1)]
          simp [indented, indentedAll_eq_map, spell, spellElements_eq, String.toList_intercalate, Text.intercalate_cons,
            List.flatMap_map, one, List.flatMap_congr others, Spacing.lines]
  | @object members each ih =>
      cases members with
      | nil => simp [indented, spell, writeScalar]
      | cons first rest =>
          have one := ih first List.mem_cons_self (depth + 1)
          have others : ∀ member ∈ rest,
              ',' :: ((newLine (depth + 1)).toList ++ ((writeString member.1).toList ++
                ':' :: ' ' :: (indented (depth + 1) member.2).toList)) =
              ',' :: ((newLine (depth + 1)).toList ++ ((writeString member.1).toList ++
                ':' :: ' ' :: spell .lines (depth + 1) member.2)) :=
            fun member listed => by rw [ih member (List.mem_cons_of_mem _ listed) (depth + 1)]
          simp [indented, indentedMembers_eq_map, spell, spellMembers_eq, String.toList_intercalate, Text.intercalate_cons,
            List.flatMap_map, one, List.flatMap_congr others, Spacing.lines]

/-- No numeral goes on into what follows. -/
def Stops (rest : List Char) : Prop := ∀ char ∈ rest.head?, Numeral.isNumeralChar char = false

theorem isNumeralChar_of_isSpace {char : Char} (space : isSpace char) : Numeral.isNumeralChar char = false := by
  simp [isSpace] at space
  rcases space with ((rfl | rfl) | rfl) | rfl <;> rfl

theorem skipSpace_append {blank : List Char} (spaces : ∀ char ∈ blank, isSpace char) (rest : List Char) :
    skipSpace (blank ++ rest) = skipSpace rest := List.dropWhile_append_of_pos spaces

theorem skipSpace_cons {char : Char} (solid : isSpace char = false) (rest : List Char) :
    skipSpace (char :: rest) = char :: rest := by simp [skipSpace, solid]

theorem stops_append {blank : List Char} (spaces : ∀ char ∈ blank, isSpace char) {rest : List Char} (stops : Stops rest) :
    Stops (blank ++ rest) := by
  cases blank with
  | nil => exact stops
  | cons char blank =>
      intro first head
      cases head
      exact isNumeralChar_of_isSpace (spaces char List.mem_cons_self)

theorem readNumber?_append {numeral : String} {parts : Numeral} (read : Numeral.read? numeral.toList = some parts)
    {rest : List Char} (stops : Stops rest) : readNumber? (numeral.toList ++ rest) = some (.number numeral, rest) := by
  have chars := (Numeral.all_of_read? read).1
  have taken : rest.takeWhile Numeral.isNumeralChar = [] := by
    cases rest with
    | nil => rfl
    | cons char rest => simp [stops char rfl]
  have left : rest.dropWhile Numeral.isNumeralChar = rest := by
    cases rest with
    | nil => rfl
    | cons char rest => simp [stops char rfl]
  simp [readNumber?, List.takeWhile_append_of_pos chars, List.dropWhile_append_of_pos chars, taken, left, read]

/-- A digit or a sign stands before nothing but a numeral. -/
theorem isSpace_of_start {first : Char} (start : first.isDigit ∨ first = '-') : isSpace first = false := by
  have numeral : Numeral.isNumeralChar first := by
    rcases start with digit | rfl
    · exact Numeral.isNumeralChar_of_isDigit digit
    · rfl
  cases space : isSpace first with
  | false => rfl
  | true => exact absurd numeral (by simp [isNumeralChar_of_isSpace space])

theorem readValue?_number {first : Char} (start : first.isDigit ∨ first = '-') {text rest : List Char}
    (here : skipSpace text = first :: rest) (bound : Nat) : readValue? (bound + 1) text = readNumber? (first :: rest) := by
  rw [readValue?, here]
  split
  all_goals first
    | rfl
    | (rename_i same; cases same; exact absurd start (by decide))

theorem readValue?_string {text inner rest : List Char} {content : String} (here : skipSpace text = '"' :: inner)
    (read : readString? (some []) inner = some (some content, rest)) (bound : Nat) :
    readValue? (bound + 1) text = some (.string content, rest) := by
  rw [readValue?, here]
  simp [read, ofText]

theorem readValue?_array {text inner : List Char} {first : Char} {after : List Char} (here : skipSpace text = '[' :: inner)
    (next : skipSpace inner = first :: after) (filled : first ≠ ']') (bound : Nat) :
    readValue? (bound + 1) text = (readElements? bound inner []).map fun read => (.array read.1, read.2) := by
  rw [readValue?, here]
  simp [next, filled]

theorem readValue?_object {text inner : List Char} {first : Char} {after : List Char} (here : skipSpace text = '\x7b' :: inner)
    (next : skipSpace inner = first :: after) (filled : first ≠ '\x7d') (bound : Nat) :
    readValue? (bound + 1) text = (readMembers? bound inner []).map fun read => (ofMembers read.1, read.2) := by
  rw [readValue?, here]
  simp [next, filled]

section

variable {bound : Nat} {text left after : List Char} {json : Json}

theorem readElements?_last (value : readValue? bound text = some (json, left)) (here : skipSpace left = ']' :: after)
    (read : List Json) : readElements? (bound + 1) text read = some ((json :: read).reverse, after) := by
  simp [readElements?, value, here]

theorem readElements?_next (value : readValue? bound text = some (json, left)) (here : skipSpace left = ',' :: after)
    (read : List Json) : readElements? (bound + 1) text read = readElements? bound after (json :: read) := by
  simp [readElements?, value, here]

variable {inner middle colon : List Char} {name : String}

theorem readMembers?_last (quote : skipSpace text = '"' :: inner)
    (named : readString? (some []) inner = some (some name, middle)) (separated : skipSpace middle = ':' :: colon)
    (value : readValue? bound colon = some (json, left)) (here : skipSpace left = '\x7d' :: after)
    (read : List (Option String × Json)) :
    readMembers? (bound + 1) text read = some (((some name, json) :: read).reverse, after) := by
  simp [readMembers?, quote, named, separated, value, here]

theorem readMembers?_next (quote : skipSpace text = '"' :: inner)
    (named : readString? (some []) inner = some (some name, middle)) (separated : skipSpace middle = ':' :: colon)
    (value : readValue? bound colon = some (json, left)) (here : skipSpace left = ',' :: after)
    (read : List (Option String × Json)) :
    readMembers? (bound + 1) text read = readMembers? bound after ((some name, json) :: read) := by
  simp [readMembers?, quote, named, separated, value, here]

end

/-- A value starts with a mark of its own, which closes nothing. -/
theorem Legible.spell_head {json : Json} (legible : json.Legible) (spacing : Spacing) (depth : Nat) :
    ∃ first rest, spell spacing depth json = first :: rest ∧ isSpace first = false ∧ first ≠ ']' := by
  cases legible with
  | null => exact ⟨'n', _, rfl, rfl, by decide⟩
  | bool value =>
      cases value
      · exact ⟨'f', _, rfl, rfl, by decide⟩
      · exact ⟨'t', _, rfl, rfl, by decide⟩
  | number read =>
      obtain ⟨-, first, rest, same, start⟩ := Numeral.all_of_read? read
      refine ⟨first, rest, by simp [spell, writeScalar, same], isSpace_of_start start, ?_⟩
      rintro rfl
      exact absurd start (by decide)
  | string text => exact ⟨'"', _, by simp [spell, writeScalar, writeString]; rfl, rfl, by decide⟩
  | @array elements each => cases elements <;> exact ⟨'[', _, rfl, rfl, by decide⟩
  | @object members each => cases members <;> exact ⟨'\x7b', _, rfl, rfl, by decide⟩

/-- The reader reads a tree from each of its texts, blanks in front of it aside. -/
def Follows (spacing : Spacing) (json : Json) : Prop :=
  ∀ depth bound blank rest, (∀ char ∈ blank, isSpace char) → Stops rest →
    (spell spacing depth json).length ≤ bound →
    readValue? bound (blank ++ (spell spacing depth json ++ rest)) = some (json, rest)

theorem stops_elements (spacing : Spacing) (depth : Nat) (elements : List Json) (rest : List Char) :
    Stops (spellElements spacing depth elements ++ rest) := by
  cases elements with
  | nil =>
      rw [spellElements, List.append_assoc]
      exact stops_append (spacing.line_blank depth) (by simp [Stops, Numeral.isNumeralChar])
  | cons element elements => simp [Stops, spellElements, Numeral.isNumeralChar]

theorem stops_members (spacing : Spacing) (depth : Nat) (members : List (String × Json)) (rest : List Char) :
    Stops (spellMembers spacing depth members ++ rest) := by
  cases members with
  | nil =>
      rw [spellMembers, List.append_assoc]
      exact stops_append (spacing.line_blank depth) (by simp [Stops, Numeral.isNumeralChar])
  | cons member members => simp [Stops, spellMembers, Numeral.isNumeralChar]

variable {spacing : Spacing}

theorem readElements?_spell {first : Json} {elements : List Json}
    (each : ∀ element ∈ first :: elements, Follows spacing element)
    (depth bound : Nat) {blank : List Char} (spaces : ∀ char ∈ blank, isSpace char) (rest : List Char) (read : List Json)
    (long : (spell spacing (depth + 1) first ++ spellElements spacing depth elements).length ≤ bound) :
    readElements? bound (blank ++ (spell spacing (depth + 1) first ++ (spellElements spacing depth elements ++ rest))) read =
      some (read.reverse ++ first :: elements, rest) := by
  induction elements generalizing first bound blank read with
  | nil =>
      rw [List.length_append, spellElements, List.length_append, List.length_singleton] at long
      obtain ⟨bound, rfl⟩ : ∃ less, bound = less + 1 := ⟨bound - 1, by omega⟩
      have value := each first List.mem_cons_self (depth + 1) bound blank _ spaces
        (stops_elements spacing depth [] rest) (by omega)
      have closed : skipSpace (spellElements spacing depth [] ++ rest) = ']' :: rest := by
        rw [spellElements, List.append_assoc, skipSpace_append (spacing.line_blank depth)]
        rfl
      rw [readElements?_last value closed]
      simp
  | cons second elements ih =>
      rw [List.length_append, spellElements, List.length_cons, List.length_append] at long
      obtain ⟨bound, rfl⟩ : ∃ less, bound = less + 1 := ⟨bound - 1, by omega⟩
      have value := each first List.mem_cons_self (depth + 1) bound blank _ spaces
        (stops_elements spacing depth (second :: elements) rest) (by omega)
      have next : skipSpace (spellElements spacing depth (second :: elements) ++ rest) = ',' :: (spacing.line (depth + 1) ++
          (spell spacing (depth + 1) second ++ (spellElements spacing depth elements ++ rest))) := by
        rw [spellElements, List.cons_append, List.append_assoc, List.append_assoc]
        exact skipSpace_cons rfl _
      have others := ih (fun element member => each element (List.mem_cons_of_mem _ member)) bound
        (spacing.line_blank (depth + 1)) (first :: read) (by omega)
      rw [readElements?_next value next, others]
      simp

/-- A name is read up to what follows it. -/
theorem skipSpace_name {blank : List Char} (spaces : ∀ char ∈ blank, isSpace char) (name : String) (rest : List Char) :
    ∃ inner, skipSpace (blank ++ ((writeString name).toList ++ rest)) = '"' :: inner ∧
      readString? (some []) inner = some (some name, rest) := by
  obtain ⟨inner, quoted, named⟩ := readString?_writeString name
  refine ⟨inner ++ rest, ?_, named rest⟩
  rw [skipSpace_append spaces, quoted, List.cons_append]
  exact skipSpace_cons rfl _

theorem readMembers?_spell {name : String} {first : Json} {members : List (String × Json)}
    (each : ∀ member ∈ (name, first) :: members, Follows spacing member.2) (depth bound : Nat) {blank : List Char}
    (spaces : ∀ char ∈ blank, isSpace char) (rest : List Char) (read : List (Option String × Json))
    (long : ((writeString name).toList ++ ':' :: (spacing.gap ++
      (spell spacing (depth + 1) first ++ spellMembers spacing depth members))).length ≤ bound) :
    readMembers? bound (blank ++ ((writeString name).toList ++ ':' :: (spacing.gap ++
        (spell spacing (depth + 1) first ++ (spellMembers spacing depth members ++ rest))))) read =
      some (read.reverse ++ ((name, first) :: members).map fun member => (some member.1, member.2), rest) := by
  have colon (after : List Char) : skipSpace (':' :: after) = ':' :: after := skipSpace_cons rfl _
  induction members generalizing name first bound blank read with
  | nil =>
      simp only [List.length_append, List.length_cons, spellMembers, List.length_nil] at long
      obtain ⟨bound, rfl⟩ : ∃ less, bound = less + 1 := ⟨bound - 1, by omega⟩
      have one : Follows spacing first := each (name, first) List.mem_cons_self
      have value := one (depth + 1) bound spacing.gap _ spacing.gap_blank (stops_members spacing depth [] rest) (by omega)
      have closed : skipSpace (spellMembers spacing depth [] ++ rest) = '\x7d' :: rest := by
        rw [spellMembers, List.append_assoc, skipSpace_append (spacing.line_blank depth)]
        rfl
      obtain ⟨inner, quote, named⟩ := skipSpace_name spaces name (':' :: (spacing.gap ++
        (spell spacing (depth + 1) first ++ (spellMembers spacing depth [] ++ rest))))
      rw [readMembers?_last quote named (colon _) value closed]
      simp
  | cons second members ih =>
      obtain ⟨other, json⟩ := second
      simp only [List.length_append, List.length_cons, spellMembers] at long
      obtain ⟨bound, rfl⟩ : ∃ less, bound = less + 1 := ⟨bound - 1, by omega⟩
      have one : Follows spacing first := each (name, first) List.mem_cons_self
      have value := one (depth + 1) bound spacing.gap _ spacing.gap_blank
        (stops_members spacing depth ((other, json) :: members) rest) (by omega)
      have next : skipSpace (spellMembers spacing depth ((other, json) :: members) ++ rest) =
          ',' :: (spacing.line (depth + 1) ++ ((writeString other).toList ++ ':' :: (spacing.gap ++
            (spell spacing (depth + 1) json ++ (spellMembers spacing depth members ++ rest))))) := by
        simp only [spellMembers, List.cons_append, List.append_assoc]
        exact skipSpace_cons rfl _
      obtain ⟨inner, quote, named⟩ := skipSpace_name spaces name (':' :: (spacing.gap ++
        (spell spacing (depth + 1) first ++ (spellMembers spacing depth ((other, json) :: members) ++ rest))))
      have others := ih (fun member listed => each member (List.mem_cons_of_mem _ listed)) bound
        (spacing.line_blank (depth + 1)) ((some name, first) :: read) (by simp; omega)
      rw [readMembers?_next quote named (colon _) value next, others]
      simp

theorem ofMembers_named (members : List (String × Json)) :
    ofMembers (members.map fun member => (some member.1, member.2)) = .object members := by
  have all {name : Option String × Json → Option (String × Json)} (each : ∀ pair,
    name (some pair.1, pair.2) = some pair) :
      (members.map fun member => (some member.1, member.2)).mapM name = some members := by
    induction members with
    | nil => rfl
    | cons member members ih => rw [List.map_cons, List.mapM_cons, each member, ih]; rfl
  rw [ofMembers, all]
  exact fun _ => rfl

/-- No text of a value is empty, so there is always a bound left to start with. -/
theorem Legible.follows_of {json : Json} (legible : json.Legible)
    (step : ∀ depth bound blank rest, (∀ char ∈ blank, isSpace char) → Stops rest →
      (spell spacing depth json).length ≤ bound + 1 →
      readValue? (bound + 1) (blank ++ (spell spacing depth json ++ rest)) = some (json, rest)) :
    Follows spacing json := by
  intro depth bound blank rest spaces stops long
  obtain ⟨first, after, text, -⟩ := legible.spell_head spacing depth
  cases bound with
  | zero => simp [text] at long
  | succ bound => exact step depth bound blank rest spaces stops long

theorem Legible.follows {json : Json} (legible : json.Legible) : Follows spacing json := by
  induction legible with
  | null =>
      refine Legible.null.follows_of fun depth bound blank rest spaces stops long => ?_
      rw [readValue?, skipSpace_append spaces]
      rfl
  | bool value =>
      refine (Legible.bool value).follows_of fun depth bound blank rest spaces stops long => ?_
      rw [readValue?, skipSpace_append spaces]
      cases value <;> rfl
  | @number numeral parts read =>
      refine (Legible.number read).follows_of fun depth bound blank rest spaces stops long => ?_
      obtain ⟨-, first, after, same, start⟩ := Numeral.all_of_read? read
      have here : skipSpace (blank ++ (numeral.toList ++ rest)) = first :: (after ++ rest) := by
        rw [skipSpace_append spaces, same]
        exact skipSpace_cons (isSpace_of_start start) _
      have read := readNumber?_append read stops
      rw [same] at read
      exact (readValue?_number start here bound).trans read
  | string text =>
      refine (Legible.string text).follows_of fun depth bound blank rest spaces stops long => ?_
      obtain ⟨inner, quote, read⟩ := skipSpace_name spaces text rest
      exact readValue?_string quote read bound
  | @array elements each ih =>
      refine (Legible.array each).follows_of fun depth bound blank rest spaces stops long => ?_
      cases elements with
      | nil =>
          rw [readValue?, skipSpace_append spaces]
          rfl
      | cons first elements =>
          obtain ⟨head, tail, text, solid, filled⟩ := (each first List.mem_cons_self).spell_head spacing (depth + 1)
          have blanks := spacing.line_blank (depth + 1)
          have next (after : List Char) :
              skipSpace (spacing.line (depth + 1) ++ (spell spacing (depth + 1) first ++ after)) = head :: (tail ++ after) := by
            rw [skipSpace_append blanks, text]
            exact skipSpace_cons solid _
          simp only [spell, List.cons_append, List.append_assoc, List.length_cons, List.length_append] at long ⊢
          have here := skipSpace_append spaces
          have read := readElements?_spell ih depth bound blanks rest [] (by simp; omega)
          rw [readValue?_array ((here _).trans (skipSpace_cons rfl _)) (next _) filled, read]
          rfl
  | @object members each ih =>
      refine (Legible.object each).follows_of fun depth bound blank rest spaces stops long => ?_
      cases members with
      | nil =>
          rw [readValue?, skipSpace_append spaces]
          rfl
      | cons member members =>
          obtain ⟨name, first⟩ := member
          have blanks := spacing.line_blank (depth + 1)
          simp only [spell, List.cons_append, List.append_assoc, List.length_cons, List.length_append] at long ⊢
          have here := skipSpace_append spaces
          have read := readMembers?_spell ih depth bound blanks rest [] (by simp; omega)
          obtain ⟨inner, quote, -⟩ := skipSpace_name blanks name (':' :: (spacing.gap ++
            (spell spacing (depth + 1) first ++ (spellMembers spacing depth members ++ rest))))
          rw [readValue?_object ((here _).trans (skipSpace_cons rfl _)) quote (by decide), read]
          simp only [List.reverse_nil, List.nil_append, Option.map_some, ofMembers_named]

theorem Legible.read?_spell {json : Json} (legible : json.Legible) {text : String}
    (spelled : text.toList = spell spacing 0 json) : read? text = some json := by
  have long : (spell spacing 0 json).length ≤ text.length + 1 := by
    rw [← spelled, String.length_toList]
    omega
  have read := legible.follows 0 (text.length + 1) [] [] (by simp) (by simp [Stops]) long
  rw [List.nil_append, List.append_nil, ← spelled] at read
  rw [read?, read]
  rfl

theorem Legible.read?_compact {json : Json} (legible : json.Legible) : read? json.compact = some json :=
  legible.read?_spell (legible.compact_spell 0)

theorem Legible.read?_pretty {json : Json} (legible : json.Legible) : read? json.pretty = some json :=
  legible.read?_spell (legible.indented_spell 0)

end CilWeave.Json
