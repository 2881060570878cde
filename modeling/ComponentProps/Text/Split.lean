/-!
# Splitting text

`Text.split` cuts a text at every occurrence of a character.  There is always
one piece more than there are occurrences.

* `splitChars_ne_nil`: there is at least one piece.
* `split_intercalate`: splitting undoes the joining of pieces without the separator.
* `getLast?_split_ne`: when the last piece is not empty.
-/

namespace ComponentProps

namespace Text

/-- The pieces of a text between the occurrences of `separator`. -/
def splitChars (separator : Char) : List Char → List (List Char)
  | [] => [[]]
  | c :: rest =>
    if c = separator then [] :: splitChars separator rest
    else
      match splitChars separator rest with
      | [] => [[c]]
      | piece :: pieces => (c :: piece) :: pieces

/-- The pieces of a string between the occurrences of `separator`. -/
def split (separator : Char) (text : String) : List String :=
  (splitChars separator text.toList).map String.ofList

theorem splitChars_ne_nil (separator : Char) (text : List Char) :
    splitChars separator text ≠ [] := by
  cases text with
  | nil => simp [splitChars]
  | cons c rest =>
    unfold splitChars
    repeat' split
    all_goals simp

/-! ## Splitting a text that was joined -/

theorem splitChars_of_not_mem {separator : Char} {piece : List Char} (h : separator ∉ piece) :
    splitChars separator piece = [piece] := by
  induction piece with
  | nil => rfl
  | cons c rest ih =>
    rw [List.mem_cons, not_or] at h
    rw [splitChars, if_neg (Ne.symm h.1), ih h.2]

/-- A piece without the separator is cut off at the first separator behind it. -/
theorem splitChars_append_cons {separator : Char} {piece : List Char} (h : separator ∉ piece)
    (text : List Char) :
    splitChars separator (piece ++ separator :: text) = piece :: splitChars separator text := by
  induction piece with
  | nil => rw [List.nil_append, splitChars, if_pos rfl]
  | cons c rest ih =>
    rw [List.mem_cons, not_or] at h
    rw [List.cons_append, splitChars, if_neg (Ne.symm h.1), ih h.2]

theorem splitChars_intercalate {separator : Char} {pieces : List (List Char)}
    (hpieces : pieces ≠ []) (h : ∀ piece ∈ pieces, separator ∉ piece) :
    splitChars separator ([separator].intercalate pieces) = pieces := by
  induction pieces with
  | nil => exact absurd rfl hpieces
  | cons piece rest ih =>
    rw [List.forall_mem_cons] at h
    cases rest with
    | nil => rw [List.intercalate_singleton, splitChars_of_not_mem h.1]
    | cons next more =>
      rw [List.intercalate_cons_cons, List.append_assoc, List.singleton_append,
        splitChars_append_cons h.1, ih (List.cons_ne_nil _ _) h.2]

/-- Splitting undoes the joining of pieces without the separator. -/
theorem split_intercalate {separator : Char} {pieces : List String} (hpieces : pieces ≠ [])
    (h : ∀ piece ∈ pieces, separator ∉ piece.toList) :
    split separator ((String.singleton separator).intercalate pieces) = pieces := by
  have hchars : pieces.map String.toList ≠ [] := by simpa using hpieces
  rw [split, String.toList_intercalate, String.toList_singleton,
    splitChars_intercalate hchars (by simpa using h), List.map_map]
  simp

example : split '.' "a..b" = ["a", "", "b"] := by decide

/-! ## The last piece -/

/-- The last piece is empty only if the text ends in a separator or is empty. -/
theorem getLast?_splitChars_ne {separator : Char} {text : List Char} (htext : text ≠ [])
    (hlast : text.getLast? ≠ some separator) :
    (splitChars separator text).getLast? ≠ some [] := by
  induction text with
  | nil => exact absurd rfl htext
  | cons c rest ih =>
    by_cases hrest : rest = []
    · subst hrest
      have hc : c ≠ separator := by simpa using hlast
      simp [splitChars, hc]
    · have hpieces := ih hrest (by rwa [List.getLast?_cons_of_ne_nil hrest] at hlast)
      rw [splitChars]
      split
      · rwa [List.getLast?_cons_of_ne_nil (splitChars_ne_nil separator rest)]
      · cases hsplit : splitChars separator rest with
        | nil => exact absurd hsplit (splitChars_ne_nil separator rest)
        | cons piece pieces =>
          rw [hsplit] at hpieces
          cases pieces with
          | nil => simp
          | cons next more =>
            rw [List.getLast?_cons_cons] at hpieces ⊢
            exact hpieces

theorem getLast?_split_ne {separator : Char} {text : String} (htext : text ≠ "")
    (hlast : text.toList.getLast? ≠ some separator) :
    (split separator text).getLast? ≠ some "" := by
  have hchars : text.toList ≠ [] := by simpa using htext
  have hpieces := getLast?_splitChars_ne hchars hlast
  rw [split, List.getLast?_map, ne_eq, Option.map_eq_some_iff]
  rintro ⟨piece, hpiece, hempty⟩
  have hnil : piece = [] := by simpa using hempty
  exact hpieces (hnil ▸ hpiece)

end Text

end ComponentProps
