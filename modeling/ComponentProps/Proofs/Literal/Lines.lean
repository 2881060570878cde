import ComponentProps.Proofs.Literal.Printing

/-!
# The lines of a literal

A literal that goes over several lines shows by how a line begins whether it has
ended: all of its lines but the first begin with a space or a closing brace, and no
literal begins with either.

* `Literal.chars_append`: a literal is written in front of any text in the same way.
* `Literal.continued_chars`: every line feed in a literal stands in front of a space
  or a closing brace.
-/

namespace ComponentProps

namespace Literal

/-! ## Literals in front of texts -/

mutual

/-- What stands behind a literal is not changed by it. -/
theorem chars_append (level : Nat) : (value : Literal) → (rest more : List Char) →
    value.chars level (rest ++ more) = value.chars level rest ++ more
  | .object [], rest, more => rfl
  | .object (property :: others), rest, more => by
    rw [chars, chars, ← List.cons_append, ← List.append_assoc,
      propertiesChars_append (level + 1) (property :: others)]
    rfl
  | .list items, rest, more => by
    rw [chars, chars, ← List.cons_append, itemsChars_append level items]
    rfl
  | .text value, rest, more => (List.append_assoc _ rest more).symm
  | .number value, rest, more => (List.append_assoc _ rest more).symm
  | .bool value, rest, more => (List.append_assoc _ rest more).symm
  | .null, rest, more => (List.append_assoc _ rest more).symm
  | .placeholder value, rest, more => (List.append_assoc _ rest more).symm

theorem itemsChars_append (level : Nat) : (items : List Literal) → (rest more : List Char) →
    itemsChars level items (rest ++ more) = itemsChars level items rest ++ more
  | [], rest, more => rfl
  | [item], rest, more => chars_append level item rest more
  | item :: next :: others, rest, more => by
    rw [itemsChars, itemsChars, itemsChars_append level (next :: others), ← List.cons_append,
      ← List.cons_append, chars_append level item]

theorem propertiesChars_append (level : Nat) : (properties : Properties) →
    (rest more : List Char) →
      propertiesChars level properties (rest ++ more) =
        propertiesChars level properties rest ++ more
  | [], rest, more => rfl
  | [(key, value)], rest, more => by
    rw [propertiesChars, propertiesChars, ← List.cons_append, chars_append level value]
    simp only [List.append_assoc, List.cons_append]
  | (key, value) :: next :: others, rest, more => by
    rw [propertiesChars, propertiesChars, propertiesChars_append level (next :: others),
      ← List.cons_append, ← List.cons_append, chars_append level value]
    simp only [List.append_assoc, List.cons_append]

end

/-! ## Line feeds -/

/-- The texts in which every line feed stands in front of a space or a closing
brace. -/
inductive Continued : List Char → Prop where
  | nil : Continued []
  | cons {c : Char} {rest : List Char} : c ≠ '\n' → Continued rest → Continued (c :: rest)
  | line {next : Char} {more : List Char} : next = ' ' ∨ next = '\x7d' →
      Continued (next :: more) → Continued ('\n' :: next :: more)

namespace Continued

theorem tail {c : Char} {rest : List Char} (h : Continued (c :: rest)) : Continued rest := by
  cases h with
  | cons _ hrest => exact hrest
  | line _ hrest => exact hrest

theorem of_append {before rest : List Char} (h : Continued (before ++ rest)) :
    Continued rest := by
  induction before with
  | nil => exact h
  | cons c before ih => exact ih h.tail

theorem prepend {run rest : List Char} (hrun : '\n' ∉ run) (h : Continued rest) :
    Continued (run ++ rest) := by
  induction run with
  | nil => exact h
  | cons c run ih =>
    rw [List.mem_cons, not_or] at hrun
    exact .cons (Ne.symm hrun.1) (ih hrun.2)

/-- What stands behind a line feed. -/
theorem exists_next {before after : List Char} (h : Continued (before ++ '\n' :: after)) :
    ∃ next more, after = next :: more ∧ (next = ' ' ∨ next = '\x7d') := by
  cases of_append h with
  | cons hc _ => exact absurd rfl hc
  | line hnext _ => exact ⟨_, _, rfl, hnext⟩

end Continued

theorem newline_not_mem_indent (level : Nat) : '\n' ∉ indent level := by
  intro h
  exact absurd (List.eq_of_mem_replicate h) (by decide)

theorem newline_not_mem_key {key : PropertyKey} (h : key.isProper = true) : '\n' ∉ key.chars := by
  cases key with
  | identifier name =>
    intro hmem
    have hpart := (PropertyKey.of_isIdentifier h).1 '\n' hmem
    exact absurd hpart (by decide)
  | quoted name => exact Text.newline_not_mem_quote name

theorem newline_not_mem_numberText (x : Float) : '\n' ∉ (numberText x).toList := by
  intro h
  exact absurd (isNumeralChar_of_mem_numberText h) (by decide)

theorem newline_not_mem_placeholder (placeholder : Placeholder) : '\n' ∉ placeholder.chars := by
  have hname := Text.newline_not_mem_quote placeholder.name
  have hkind : '\n' ∉ placeholder.kind.chars := by
    cases placeholder.kind <;> decide +kernel
  have hchars := placeholder.chars_append []
  rw [List.append_nil] at hchars
  rw [hchars]
  simp [hname, hkind]

/-- The lines of the properties of an object are indented. -/
theorem exists_propertiesChars_cons (level : Nat) (property : PropertyKey × Literal)
    (others : Properties) (rest : List Char) :
    ∃ more, propertiesChars (level + 1) (property :: others) rest = ' ' :: more := by
  obtain ⟨key, value⟩ := property
  rw [propertiesChars_cons]
  exact ⟨_, rfl⟩

/-- The line of a closing brace. -/
theorem continued_close (level : Nat) {rest : List Char} (h : Continued rest) :
    Continued ('\n' :: (indent level ++ '\x7d' :: rest)) := by
  have hbrace : Continued ('\x7d' :: rest) := .cons (by decide) h
  cases level with
  | zero => exact .line (.inr rfl) hbrace
  | succ level => exact .line (.inl rfl) (hbrace.prepend (newline_not_mem_indent (level + 1)))

mutual

/-- A literal goes on, on each of its lines, with a space or a closing brace. -/
theorem continued_chars (level : Nat) : (value : Literal) → {rest : List Char} →
    value.isProper = true → Continued rest → Continued (value.chars level rest)
  | .object [], rest, _, h => by
    rw [chars]
    exact .cons (by decide) (.cons (by decide) h)
  | .object (property :: others), rest, hproper, h => by
    have hlines := continued_propertiesChars level (property :: others) hproper
      (continued_close level h)
    obtain ⟨more, hmore⟩ := exists_propertiesChars_cons level property others
      (indent level ++ '\x7d' :: rest)
    rw [hmore] at hlines
    rw [chars, hmore]
    exact .cons (by decide) (.line (.inl rfl) hlines)
  | .list items, rest, hproper, h => by
    rw [chars]
    exact .cons (by decide) (continued_itemsChars level items hproper h)
  | .text value, rest, _, h => by
    rw [chars]
    exact h.prepend (Text.newline_not_mem_quote value)
  | .number value, rest, _, h => by
    rw [chars]
    exact h.prepend (newline_not_mem_numberText value)
  | .bool value, rest, _, h => by
    rw [chars]
    exact h.prepend (by cases value <;> decide)
  | .null, rest, _, h => by
    rw [chars]
    exact h.prepend (by decide)
  | .placeholder value, rest, _, h => by
    rw [chars]
    exact h.prepend (newline_not_mem_placeholder value)

theorem continued_itemsChars (level : Nat) : (items : List Literal) → {rest : List Char} →
    areProperItems items = true → Continued rest → Continued (itemsChars level items (']' :: rest))
  | [], rest, _, h => by
    rw [itemsChars]
    exact .cons (by decide) h
  | item :: others, rest, hproper, h => by
    rw [areProperItems, Bool.and_eq_true] at hproper
    have hothers := continued_itemsChars level others hproper.2 h
    have hbehind : Continued (behindItem level others rest) := by
      match others with
      | [] => exact hothers
      | next :: others => exact .cons (by decide) (.cons (by decide) hothers)
    rw [itemsChars_cons]
    exact continued_chars level item hproper.1 hbehind

theorem continued_propertiesChars (level : Nat) : (properties : Properties) →
    {rest : List Char} → areProper properties = true → Continued ('\n' :: rest) →
      Continued (propertiesChars (level + 1) properties rest)
  | [], rest, _, h => h.tail
  | (key, value) :: others, rest, hproper, h => by
    rw [areProper, Bool.and_eq_true, Bool.and_eq_true] at hproper
    have hothers := continued_propertiesChars level others hproper.2 h
    have hbehind : Continued (behindProperty (level + 1) others rest) := by
      match others with
      | [] => exact h
      | next :: others =>
        obtain ⟨more, hmore⟩ := exists_propertiesChars_cons level next others rest
        rw [hmore] at hothers
        rw [behindProperty, hmore]
        exact .cons (by decide) (.line (.inl rfl) hothers)
    have hvalue := continued_chars (level + 1) value hproper.1.2 hbehind
    have hcolon : Continued (':' :: ' ' ::
        value.chars (level + 1) (behindProperty (level + 1) others rest)) :=
      .cons (by decide) (.cons (by decide) hvalue)
    rw [propertiesChars_cons]
    exact (hcolon.prepend (newline_not_mem_key hproper.1.1)).prepend
      (newline_not_mem_indent (level + 1))

end

end Literal

end ComponentProps
