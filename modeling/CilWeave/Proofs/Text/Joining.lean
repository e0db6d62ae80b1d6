import CilWeave.Text.Split

/-!
Texts put together from pieces with a separator between them, and taken apart again at that separator.
-/

namespace CilWeave.Text

theorem intercalate_cons (separator first : List Char) (rest : List (List Char)) :
    separator.intercalate (first :: rest) = first ++ rest.flatMap (separator ++ ·) := by
  induction rest generalizing first with
  | nil => simp
  | cons second rest ih => simp [List.intercalate_cons_cons, ih]

variable {separator : Char}

theorem splitChars_append {piece : List Char} (whole : separator ∉ piece) (rest : List Char) :
    splitChars separator (piece ++ separator :: rest) = piece :: splitChars separator rest := by
  induction piece with
  | nil => simp [splitChars]
  | cons char piece ih =>
      have other : char ≠ separator := fun same => whole (same ▸ List.mem_cons_self)
      have later := ih fun member => whole (List.mem_cons_of_mem _ member)
      simp [splitChars, other, later]

theorem splitChars_whole {piece : List Char} (whole : separator ∉ piece) : splitChars separator piece = [piece] := by
  induction piece with
  | nil => rfl
  | cons char piece ih =>
      have other : char ≠ separator := fun same => whole (same ▸ List.mem_cons_self)
      have later := ih fun member => whole (List.mem_cons_of_mem _ member)
      simp [splitChars, other, later]

/-- The first piece of a text ends at the first separator, whatever pieces follow. -/
theorem splitChars_join {piece : List Char} (whole : ',' ∉ piece) (parts : List String) :
    ∃ more, splitChars ',' (piece ++ (String.join (parts.map ("," ++ ·))).toList) = piece :: more := by
  cases parts with
  | nil => exact ⟨[], by simpa using splitChars_whole whole⟩
  | cons part rest =>
      have next : (String.join ((part :: rest).map ("," ++ ·))).toList =
          ',' :: (part.toList ++ (String.join (rest.map ("," ++ ·))).toList) := by simp
      exact ⟨_, by rw [next, splitChars_append whole]⟩

/-- A piece that is not empty and holds no blanks. -/
structure Solid (piece : List Char) : Prop where
  filled : piece ≠ []
  unbroken : ∀ char ∈ piece, isBlank char = false

/-- Blanks around a solid piece are trimmed, and no more. -/
theorem Solid.trimChars {piece before after : List Char} (solid : Solid piece) (left : ∀ char ∈ before, isBlank char)
    (right : ∀ char ∈ after, isBlank char) : Text.trimChars (before ++ (piece ++ after)) = piece := by
  have dropped (piece rest : List Char) (solid : Solid piece) : (piece ++ rest).dropWhile isBlank = piece ++ rest := by
    cases piece with
    | nil => exact absurd rfl solid.filled
    | cons char piece => simp [solid.unbroken char List.mem_cons_self]
  have turned : Solid piece.reverse :=
    ⟨by simpa using solid.filled, fun char member => solid.unbroken char (List.mem_reverse.mp member)⟩
  have right : ∀ char ∈ after.reverse, isBlank char := fun char member => right char (List.mem_reverse.mp member)
  rw [Text.trimChars, List.dropWhile_append_of_pos left, dropped piece after solid, List.reverse_append,
    List.dropWhile_append_of_pos right]
  simpa using congrArg List.reverse (dropped piece.reverse [] turned)

/-- Solid pieces that are joined with a bar between blanks come apart as they were. -/
theorem trimmed_intercalate {pieces : List (List Char)} (filled : pieces ≠ [])
    (solid : ∀ piece ∈ pieces, Solid piece ∧ '|' ∉ piece) :
    (splitChars '|' ([' ', '|', ' '].intercalate pieces)).map Text.trimChars = pieces := by
  have blank : ∀ char ∈ [' '], isBlank char := by simp [isBlank, blankRanges]
  have nothing : ∀ char ∈ ([] : List Char), isBlank char := by simp
  have each (lead first : List Char) (rest : List (List Char)) (left : ∀ char ∈ lead, isBlank char) (apart : '|' ∉ lead)
      (solid : ∀ piece ∈ first :: rest, Solid piece ∧ '|' ∉ piece) :
      (splitChars '|' (lead ++ (first ++ rest.flatMap ([' ', '|', ' '] ++ ·)))).map Text.trimChars = first :: rest := by
    induction rest generalizing lead first with
    | nil =>
        obtain ⟨one, whole⟩ := solid first List.mem_cons_self
        rw [List.flatMap_nil, splitChars_whole (by simp [apart, whole])]
        simpa using one.trimChars left nothing
    | cons second rest ih =>
        obtain ⟨one, whole⟩ := solid first List.mem_cons_self
        have others := ih [' '] second blank (by simp) fun piece member => solid piece (List.mem_cons_of_mem _ member)
        have cut : lead ++ (first ++ (second :: rest).flatMap ([' ', '|', ' '] ++ ·)) =
            (lead ++ (first ++ [' '])) ++ '|' :: ([' '] ++ (second ++ rest.flatMap ([' ', '|', ' '] ++ ·))) := by simp
        rw [cut, splitChars_append (by simp [apart, whole]), List.map_cons, others, one.trimChars left blank]
  cases pieces with
  | nil => exact absurd rfl filled
  | cons first rest =>
      rw [intercalate_cons]
      exact each [] first rest nothing (by simp) solid

end CilWeave.Text
