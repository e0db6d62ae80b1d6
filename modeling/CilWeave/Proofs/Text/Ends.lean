import Mathlib.Data.List.DropRight
import Mathlib.Data.List.TakeWhile
import CilWeave.Text.Split

/-!
The ends of texts: what stands behind the last separator, endings that are dropped, and blanks that are trimmed.
-/

namespace CilWeave.Text

variable {text before after ending : List Char} {char separator : Char}

theorem splitLast?_append (last : separator ∉ after) :
    splitLast? separator (before ++ separator :: after) = some (before, after) := by
  have turned : (before ++ separator :: after).reverse = after.reverse ++ separator :: before.reverse := by simp
  have other : ∀ char ∈ after.reverse, decide (char ≠ separator) = true := by
    intro char member
    refine decide_eq_true fun same => last ?_
    rwa [← same, ← List.mem_reverse]
  rw [splitLast?, if_pos (by simp), afterLast, turned, List.dropWhile_append_of_pos other,
    List.takeWhile_append_of_pos other]
  simp

theorem splitLast?_ok (split : splitLast? separator text = some (before, after)) : text = before ++ separator :: after := by
  have among : separator ∈ text.reverse := by
    unfold splitLast? at split
    split at split
    · exact List.mem_reverse.mpr ‹_›
    · cases split
  obtain ⟨last, first, turned, absent⟩ := List.eq_append_cons_of_mem among
  have whole : text = first.reverse ++ separator :: last.reverse := by
    rw [← List.reverse_reverse text, turned]
    simp
  rw [whole, splitLast?_append (mt List.mem_reverse.mp absent)] at split
  cases split
  exact whole

theorem dropEnding?_append : dropEnding? ending (text ++ ending) = some text := by
  simp [dropEnding?, List.suffix_append]

theorem dropEnding?_of_notMem (among : char ∈ ending) (absent : char ∉ text) : dropEnding? ending text = none :=
  if_neg fun ends => absent ((List.isSuffixOf_iff_suffix.mp ends).subset among)

theorem dropEnding?_of_ne {last : Char} (other : last ≠ char) : dropEnding? [char] (text ++ [last]) = none := by
  refine if_neg fun ends => other ?_
  obtain ⟨front, same⟩ := List.isSuffixOf_iff_suffix.mp ends
  exact (List.cons.inj (List.append_inj_right' same rfl)).1.symm

/-- What trimming leaves as it is neither begins nor ends with a blank. -/
theorem trimChars_eq_self_iff :
    trimChars text = text ↔ (∀ char ∈ text.head?, isBlank char = false) ∧ ∀ char ∈ text.getLast?,
      isBlank char = false := by
  have front : text.dropWhile isBlank = text ↔ ∀ char ∈ text.head?, isBlank char = false := by
    cases text with
    | nil => simp
    | cons char rest => simp [List.dropWhile_eq_self_iff]
  have back : text.rdropWhile isBlank = text ↔ ∀ char ∈ text.getLast?, isBlank char = false := by
    rw [List.rdropWhile_eq_self_iff]
    cases text with
    | nil => simp
    | cons char rest => simp [List.getLast?_eq_some_getLast]
  rw [← front, ← back]
  change (text.dropWhile isBlank).rdropWhile isBlank = text ↔ _
  constructor
  · intro trimmed
    -- Nothing is dropped in front, since what is dropped behind makes nothing longer.
    have shorter := (List.rdropWhile_prefix isBlank (l := text.dropWhile isBlank)).length_le
    rw [trimmed] at shorter
    have whole := (List.dropWhile_suffix isBlank).eq_of_length_le shorter
    exact ⟨whole, by rwa [whole] at trimmed⟩
  · rintro ⟨first, last⟩
    rw [first, last]

theorem trimChars_blank (blank : isBlank char = true) : trimChars (char :: text) = trimChars text := by
  rw [trimChars, List.dropWhile_cons_of_pos blank, trimChars]

theorem trimChars_append (trimmed : trimChars text = text) (filled : ending ≠ []) (visible : ending.any isBlank = false) :
    trimChars (text ++ ending) = text ++ ending := by
  have visible : ∀ char ∈ ending, isBlank char = false := fun char member =>
    Bool.eq_false_iff.mpr (List.any_eq_false.mp visible char member)
  rw [trimChars_eq_self_iff] at trimmed ⊢
  constructor
  · intro char first
    rw [List.head?_append, Option.mem_def, Option.or_eq_some_iff] at first
    rcases first with first | ⟨-, first⟩
    · exact trimmed.1 char first
    · exact visible char (List.mem_of_head? first)
  · intro char last
    rw [List.getLast?_append_of_ne_nil _ filled] at last
    exact visible char (List.mem_of_getLast? last)

theorem toList_of_trim {text : String} (trimmed : trim text = text) : trimChars text.toList = text.toList :=
  String.ofList_inj.mp (trimmed.trans String.ofList_toList.symm)

/-- The text does not end in a blank. -/
def EndsVisibly (text : String) : Prop := ∀ char ∈ text.toList.getLast?, isBlank char = false

instance (text : String) : Decidable (EndsVisibly text) := Option.decidableForallMem text.toList.getLast?

theorem trim_eq_self {text : String} (first : ∀ char ∈ text.toList.head?, isBlank char = false) (last : EndsVisibly text) :
    trim text = text := by
  rw [trim, trimChars_eq_self_iff.mpr ⟨first, last⟩, String.ofList_toList]

end CilWeave.Text
