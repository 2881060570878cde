import ComponentProps.Json.Skip

/-!
# The grammar of JSON texts

Which texts spell a JSON value, said without a reader: each relation below holds
of the characters of one part of a text and of nothing around them.

* `Grammar.Value`: the texts of values, mutually with `Grammar.Part`, an item
  of a list or a member of an object, and `Grammar.Body`, what follows an
  opening bracket up to and including the closing one.
* `Grammar.Document`: one value with nothing but blanks before and after it.
* `Grammar.Body.unique`: a body that a text begins with ends at one place only,
  whatever the text goes on with.
* `Grammar.document_append_iff`: behind a list or an object, a document goes on
  with blanks only.

A number is the one value whose end depends on what follows it: `1` and `12`
both begin `12`.  Inside brackets every number is followed by a blank, a comma
or a bracket, so this does not reach the bodies.
-/

namespace ComponentProps

namespace Json

namespace Grammar

open Reader (Bracket)

/-! ## Blanks -/

/-- A text of blanks only. -/
def Blank (text : List Char) : Prop := ∀ c ∈ text, Reader.isBlank c = true

theorem blank_nil : Blank [] := by simp [Blank]

theorem Blank.append {text more : List Char} (htext : Blank text) (hmore : Blank more) :
    Blank (text ++ more) := by
  intro c hc
  rcases List.mem_append.mp hc with h | h
  · exact htext c h
  · exact hmore c h

theorem isBlank_eq_true_iff {c : Char} :
    Reader.isBlank c = true ↔ c = ' ' ∨ c = '\n' ∨ c = '\t' ∨ c = '\r' := by
  simp [Reader.isBlank, or_assoc]

/-- The longest run of characters of one class, from where it ends. -/
theorem takeWhile_run {p : Char → Bool} {run rest : List Char} (hrun : ∀ c ∈ run, p c = true)
    (hrest : rest.head?.any p = false) : (run ++ rest).takeWhile p = run := by
  rw [List.takeWhile_append_of_pos hrun]
  cases rest with
  | nil => simp
  | cons c rest =>
    have hc : p c = false := by simpa using hrest
    simp [hc]

theorem dropWhile_run {p : Char → Bool} {run rest : List Char} (hrun : ∀ c ∈ run, p c = true)
    (hrest : rest.head?.any p = false) : (run ++ rest).dropWhile p = rest := by
  have hcut : (run ++ rest).takeWhile p ++ (run ++ rest).dropWhile p = run ++ rest :=
    List.takeWhile_append_dropWhile
  rw [takeWhile_run hrun hrest] at hcut
  exact List.append_cancel_left hcut

/-- Two ways to cut a text behind a longest run of characters of one class are
the same way. -/
theorem run_unique {p : Char → Bool} {run₁ run₂ rest₁ rest₂ : List Char}
    (hrun₁ : ∀ c ∈ run₁, p c = true) (hrest₁ : rest₁.head?.any p = false)
    (hrun₂ : ∀ c ∈ run₂, p c = true) (hrest₂ : rest₂.head?.any p = false)
    (heq : run₁ ++ rest₁ = run₂ ++ rest₂) : run₁ = run₂ ∧ rest₁ = rest₂ := by
  have hrun : run₁ = run₂ := by
    rw [← takeWhile_run hrun₁ hrest₁, heq, takeWhile_run hrun₂ hrest₂]
  subst hrun
  exact ⟨rfl, List.append_cancel_left heq⟩

/-! ## Numbers -/

/-- One decimal digit or more. -/
def Digits (text : List Char) : Prop := text ≠ [] ∧ ∀ c ∈ text, c.isDigit = true

/-- The whole part of a number, in which no zero stands in front of a digit. -/
def WholePart (text : List Char) : Prop :=
  Digits text ∧ (text.head? = some '0' → text = ['0'])

/-- The fraction of a number, if it has one. -/
inductive Fraction : List Char → Prop where
  | absent : Fraction []
  | present {digits : List Char} : Digits digits → Fraction ('.' :: digits)

/-- The exponent of a number, if it has one. -/
inductive Exponent : List Char → Prop where
  | absent : Exponent []
  | present {mark : Char} {sign digits : List Char} :
      mark = 'e' ∨ mark = 'E' → sign ∈ [[], ['+'], ['-']] → Digits digits →
      Exponent (mark :: (sign ++ digits))

/-- A number without a sign. -/
inductive Unsigned : List Char → Prop where
  | parts {whole fraction exponent : List Char} :
      WholePart whole → Fraction fraction → Exponent exponent →
      Unsigned (whole ++ (fraction ++ exponent))

/-- A number. -/
inductive Number : List Char → Prop where
  | positive {text : List Char} : Unsigned text → Number text
  | negative {text : List Char} : Unsigned text → Number ('-' :: text)

/-- The characters that occur in numbers. -/
def isNumberChar (c : Char) : Bool :=
  c.isDigit || c = '-' || c = '+' || c = '.' || c = 'e' || c = 'E'

theorem Digits.isNumberChar {text : List Char} (h : Digits text) :
    ∀ c ∈ text, isNumberChar c = true := by
  intro c hc
  simp [Grammar.isNumberChar, h.2 c hc]

theorem Fraction.isNumberChar {text : List Char} (h : Fraction text) :
    ∀ c ∈ text, isNumberChar c = true := by
  cases h with
  | absent => simp
  | present hdigits =>
    intro c hc
    rcases List.mem_cons.mp hc with rfl | hc
    · decide
    · exact hdigits.isNumberChar c hc

theorem Exponent.isNumberChar {text : List Char} (h : Exponent text) :
    ∀ c ∈ text, isNumberChar c = true := by
  cases h with
  | absent => simp
  | present hmark hsign hdigits =>
    intro c hc
    rcases List.mem_cons.mp hc with rfl | hc
    · rcases hmark with rfl | rfl <;> decide
    rcases List.mem_append.mp hc with hc | hc
    · have hpm : c = '+' ∨ c = '-' := by
        simp only [List.mem_cons, List.not_mem_nil, or_false] at hsign
        rcases hsign with rfl | rfl | rfl <;> simp_all
      rcases hpm with rfl | rfl <;> decide
    · exact hdigits.isNumberChar c hc

theorem Unsigned.isNumberChar {text : List Char} (h : Unsigned text) :
    ∀ c ∈ text, isNumberChar c = true := by
  cases h with
  | parts hwhole hfraction hexponent =>
    intro c hc
    rcases List.mem_append.mp hc with hc | hc
    · exact hwhole.1.isNumberChar c hc
    rcases List.mem_append.mp hc with hc | hc
    · exact hfraction.isNumberChar c hc
    · exact hexponent.isNumberChar c hc

theorem Number.isNumberChar {text : List Char} (h : Number text) :
    ∀ c ∈ text, isNumberChar c = true := by
  cases h with
  | positive hunsigned => exact hunsigned.isNumberChar
  | negative hunsigned =>
    intro c hc
    rcases List.mem_cons.mp hc with rfl | hc
    · decide
    · exact hunsigned.isNumberChar c hc

/-- A number without a sign begins with a digit. -/
theorem Unsigned.head {text : List Char} (h : Unsigned text) :
    ∃ c rest, text = c :: rest ∧ c.isDigit = true := by
  cases h with
  | parts hwhole hfraction hexponent =>
    obtain ⟨⟨hne, hdigits⟩, -⟩ := hwhole
    obtain ⟨c, rest, rfl⟩ := List.exists_cons_of_ne_nil hne
    exact ⟨c, _, rfl, hdigits c (by simp)⟩

/-- A number begins with a minus sign or a digit. -/
theorem Number.head {text : List Char} (h : Number text) :
    ∃ c rest, text = c :: rest ∧ (c = '-' ∨ c.isDigit = true) := by
  cases h with
  | positive hunsigned =>
    obtain ⟨c, rest, rfl, hdigit⟩ := hunsigned.head
    exact ⟨c, rest, rfl, .inr hdigit⟩
  | negative hunsigned => exact ⟨'-', _, rfl, .inl rfl⟩

/-! ## Strings -/

/-- A hexadecimal digit. -/
def IsHexDigit (c : Char) : Prop :=
  ('0' ≤ c ∧ c ≤ '9') ∨ ('a' ≤ c ∧ c ≤ 'f') ∨ ('A' ≤ c ∧ c ≤ 'F')

/-- The four digits of a long escape. -/
def HexDigits (text : List Char) : Prop := text.length = 4 ∧ ∀ c ∈ text, IsHexDigit c

/-- The letters of the short escapes. -/
def escapeLetters : List Char := ['"', '\\', '/', 'b', 'f', 'n', 'r', 't']

/-- What follows the opening quote of a string, up to and including the closing
one. -/
inductive TextBody : List Char → Prop where
  | close : TextBody ['"']
  | plain {c : Char} {rest : List Char} :
      c ≠ '"' → c ≠ '\\' → 0x20 ≤ c.toNat → TextBody rest → TextBody (c :: rest)
  | escape {c : Char} {rest : List Char} :
      c ∈ escapeLetters → TextBody rest → TextBody ('\\' :: c :: rest)
  | unicode {digits rest : List Char} :
      HexDigits digits → TextBody rest → TextBody ('\\' :: 'u' :: (digits ++ rest))

/-- A string that a text begins with ends at one place only. -/
theorem TextBody.unique {body₁ body₂ rest₁ rest₂ : List Char}
    (h₁ : TextBody body₁) (h₂ : TextBody body₂) (heq : body₁ ++ rest₁ = body₂ ++ rest₂) :
    body₁ = body₂ ∧ rest₁ = rest₂ := by
  induction h₁ generalizing body₂ with
  | close =>
    cases h₂ with
    | close => simpa using heq
    | plain hquote _ _ _ => simp [hquote.symm] at heq
    | escape _ _ => simp at heq
    | unicode _ _ => simp at heq
  | plain hquote hslash _ _ ih =>
    cases h₂ with
    | close => simp [hquote] at heq
    | plain _ _ _ h₂ =>
      simp only [List.cons_append, List.cons.injEq] at heq
      obtain ⟨rfl, heq⟩ := heq
      obtain ⟨rfl, rfl⟩ := ih h₂ heq
      exact ⟨rfl, rfl⟩
    | escape _ _ => simp [hslash] at heq
    | unicode _ _ => simp [hslash] at heq
  | escape hletter _ ih =>
    cases h₂ with
    | close => simp at heq
    | plain _ hslash _ _ => simp [hslash.symm] at heq
    | escape _ h₂ =>
      simp only [List.cons_append, List.cons.injEq, true_and] at heq
      obtain ⟨rfl, heq⟩ := heq
      obtain ⟨rfl, rfl⟩ := ih h₂ heq
      exact ⟨rfl, rfl⟩
    | unicode _ _ =>
      simp only [List.cons_append, List.cons.injEq, true_and] at heq
      obtain ⟨rfl, -⟩ := heq
      exact absurd hletter (by decide)
  | unicode hdigits _ ih =>
    cases h₂ with
    | close => simp at heq
    | plain _ hslash _ _ => simp [hslash.symm] at heq
    | escape hletter _ =>
      simp only [List.cons_append, List.cons.injEq, true_and] at heq
      obtain ⟨rfl, -⟩ := heq
      exact absurd hletter (by decide)
    | unicode hdigits₂ h₂ =>
      simp only [List.cons_append, List.append_assoc, List.cons.injEq, true_and] at heq
      obtain ⟨rfl, hrest⟩ := List.append_inj heq (hdigits.1.trans hdigits₂.1.symm)
      obtain ⟨rfl, rfl⟩ := ih h₂ hrest
      exact ⟨rfl, rfl⟩

/-! ## Values -/

/-- The words that are values. -/
def words : List (List Char) :=
  [['n', 'u', 'l', 'l'], ['t', 'r', 'u', 'e'], ['f', 'a', 'l', 's', 'e']]

/-- The bracket that a list or an object begins with. -/
def opening : Bracket → Char
  | .list => '['
  | .object => '{'

/-- The bracket that a list or an object ends with. -/
def closing : Bracket → Char
  | .list => ']'
  | .object => '}'

/-- What stands in front of a part between brackets: a comma, unless the part is
the first. -/
inductive Lead : Bool → List Char → Prop where
  | first {gap : List Char} : Blank gap → Lead true gap
  | next {gap before : List Char} :
      Blank gap → Blank before → Lead false (gap ++ ',' :: before)

mutual

/-- The text of a value. -/
inductive Value : List Char → Prop where
  | word {text : List Char} : text ∈ words → Value text
  | number {text : List Char} : Number text → Value text
  | text {body : List Char} : TextBody body → Value ('"' :: body)
  | enclosed {bracket : Bracket} {body : List Char} :
      Body bracket true body → Value (opening bracket :: body)

/-- The text of an item of a list, or of a member of an object. -/
inductive Part : Bracket → List Char → Prop where
  | item {text : List Char} : Value text → Part .list text
  | member {key behind before value : List Char} :
      TextBody key → Blank behind → Blank before → Value value →
      Part .object ('"' :: (key ++ (behind ++ ':' :: (before ++ value))))

/-- What stands in front of the first part between brackets, or behind one of
the parts, up to and including the closing bracket. -/
inductive Body : Bracket → Bool → List Char → Prop where
  | close {bracket : Bracket} {first : Bool} {gap : List Char} :
      Blank gap → Body bracket first (gap ++ [closing bracket])
  | part {bracket : Bracket} {first : Bool} {lead part rest : List Char} :
      Lead first lead → Part bracket part → Body bracket false rest →
      Body bracket first (lead ++ (part ++ rest))

end

/-- A value with blanks before it. -/
def SpacedValue (text : List Char) : Prop :=
  ∃ gap value, text = gap ++ value ∧ Blank gap ∧ Value value

/-- A text that is one value, apart from the blanks around it. -/
def Document (text : List Char) : Prop :=
  ∃ before value behind, text = before ++ (value ++ behind) ∧
    Blank before ∧ Value value ∧ Blank behind

/-! ## First characters -/

/-- The characters that a value can begin with. -/
def isOpener (c : Char) : Bool :=
  c = 'n' || c = 't' || c = 'f' || c = '"' || c = '[' || c = '{' || c = '-' || c.isDigit

theorem isOpener_eq_false_of_isBlank {c : Char} (h : Reader.isBlank c = true) :
    isOpener c = false := by
  rcases isBlank_eq_true_iff.mp h with rfl | rfl | rfl | rfl <;> decide

theorem isBlank_eq_false_of_isOpener {c : Char} (h : isOpener c = true) :
    Reader.isBlank c = false := by
  by_cases hblank : Reader.isBlank c = true
  · rw [isOpener_eq_false_of_isBlank hblank] at h
    cases h
  · simpa using hblank

theorem Value.head {text : List Char} (h : Value text) :
    ∃ c rest, text = c :: rest ∧ isOpener c = true := by
  cases h with
  | word hword =>
    simp only [words, List.mem_cons, List.not_mem_nil, or_false] at hword
    rcases hword with rfl | rfl | rfl <;> exact ⟨_, _, rfl, by decide⟩
  | number hnumber =>
    obtain ⟨c, rest, rfl, hc⟩ := hnumber.head
    refine ⟨c, rest, rfl, ?_⟩
    rcases hc with rfl | hdigit
    · decide
    · simp [isOpener, hdigit]
  | text hbody => exact ⟨_, _, rfl, by decide⟩
  | @enclosed bracket body hbody => exact ⟨_, _, rfl, by cases bracket <;> decide⟩

theorem Part.head {bracket : Bracket} {text : List Char} (h : Part bracket text) :
    ∃ c rest, text = c :: rest ∧ isOpener c = true := by
  cases h with
  | item hvalue => exact hvalue.head
  | member hkey hbehind hbefore hvalue => exact ⟨_, _, rfl, by decide⟩

/-- Nothing that can occur in a number follows here. -/
def Delimited (rest : List Char) : Prop := rest.head?.any isNumberChar = false

theorem delimited_of_blank {gap rest : List Char} (hgap : Blank gap) (hrest : Delimited rest) :
    Delimited (gap ++ rest) := by
  cases gap with
  | nil => exact hrest
  | cons c gap =>
    rcases isBlank_eq_true_iff.mp (hgap c (by simp)) with rfl | rfl | rfl | rfl <;>
      simp [Delimited, isNumberChar, Char.isDigit]

/-- What follows a part between brackets ends a number. -/
theorem Body.delimited {bracket : Bracket} {text : List Char} (h : Body bracket false text)
    (rest : List Char) : Delimited (text ++ rest) := by
  cases h with
  | @close _ _ gap hgap =>
    have hclosing : Delimited (closing bracket :: rest) := by
      cases bracket <;> simp [Delimited, closing, isNumberChar, Char.isDigit]
    simpa using delimited_of_blank hgap hclosing
  | @part _ _ _ part more hlead hpart hmore =>
    cases hlead with
    | @next gap before hgap hbefore =>
      have hcomma : Delimited (',' :: (before ++ (part ++ more) ++ rest)) := by
        simp [Delimited, isNumberChar, Char.isDigit]
      simpa using delimited_of_blank hgap hcomma

/-! ## Blanks in front of parts -/

theorem SpacedValue.ne_nil {text : List Char} (h : SpacedValue text) : text ≠ [] := by
  obtain ⟨gap, value, rfl, -, hvalue⟩ := h
  obtain ⟨c, rest, rfl, -⟩ := hvalue.head
  simp

theorem Lead.append_blank {first : Bool} {lead gap : List Char} (h : Lead first lead)
    (hgap : Blank gap) : Lead first (lead ++ gap) := by
  cases h with
  | first hfirst => exact .first (hfirst.append hgap)
  | next hbehind hbefore =>
    rw [List.append_assoc]
    exact .next hbehind (hbefore.append hgap)

/-- An item of a list may have blanks of its own behind its comma. -/
theorem SpacedValue.body_list {first : Bool} {lead value rest : List Char}
    (hvalue : SpacedValue value) (hlead : Lead first lead) (hrest : Body .list false rest) :
    Body .list first (lead ++ (value ++ rest)) := by
  obtain ⟨gap, text, rfl, hgap, htext⟩ := hvalue
  have hbody := Body.part (hlead.append_blank hgap) (.item htext) hrest
  simpa only [List.append_assoc] using hbody

/-- A member of an object, piece by piece. -/
theorem SpacedValue.body_object {first : Bool} {lead key behind value rest : List Char}
    (hvalue : SpacedValue value) (hlead : Lead first lead) (hkey : TextBody key)
    (hbehind : Blank behind) (hrest : Body .object false rest) :
    Body .object first (lead ++ ('"' :: (key ++ (behind ++ ':' :: (value ++ rest))))) := by
  obtain ⟨gap, text, rfl, hgap, htext⟩ := hvalue
  have hbody := Body.part hlead (.member hkey hbehind hgap htext) hrest
  simpa only [List.append_assoc, List.cons_append] using hbody

/-! ## Values by their first character -/

theorem Number.of_cons {c : Char} {rest : List Char} (h : Number (c :: rest)) :
    c = '-' ∨ c.isDigit = true := by
  obtain ⟨c', rest', heq, hc⟩ := h.head
  obtain ⟨rfl, rfl⟩ := List.cons_eq_cons.mp heq
  exact hc

theorem opening_injective {bracket₁ bracket₂ : Bracket} (h : opening bracket₁ = opening bracket₂) :
    bracket₁ = bracket₂ := by
  cases bracket₁ <;> cases bracket₂ <;> first | rfl | exact absurd h (by decide)

/-- A value that begins with a bracket is a list or an object. -/
theorem Value.of_opening {bracket : Bracket} {rest : List Char}
    (h : Value (opening bracket :: rest)) : Body bracket true rest := by
  generalize htext : opening bracket :: rest = text at h
  cases h with
  | word hword =>
    subst htext
    exact absurd hword (by cases bracket <;> simp [words, opening])
  | number hnumber =>
    subst htext
    have hhead := hnumber.of_cons
    cases bracket <;> exact absurd hhead (by decide)
  | text _ =>
    have hhead := (List.cons_eq_cons.mp htext).1
    cases bracket <;> exact absurd hhead (by decide)
  | enclosed hbody =>
    obtain ⟨hopening, rfl⟩ := List.cons_eq_cons.mp htext
    obtain rfl := opening_injective hopening
    exact hbody

/-- A value that begins with a quote is a string. -/
theorem Value.of_quote {rest : List Char} (h : Value ('"' :: rest)) : TextBody rest := by
  generalize htext : '"' :: rest = text at h
  cases h with
  | word hword =>
    subst htext
    exact absurd hword (by simp [words])
  | number hnumber =>
    subst htext
    exact absurd hnumber.of_cons (by decide)
  | text hbody =>
    obtain ⟨-, rfl⟩ := List.cons_eq_cons.mp htext
    exact hbody
  | @enclosed bracket _ _ =>
    have hhead := (List.cons_eq_cons.mp htext).1
    cases bracket <;> exact absurd hhead (by decide)

/-- A value that begins with a minus sign or a digit is a number. -/
theorem Value.of_numberHead {c : Char} {rest : List Char} (h : Value (c :: rest))
    (hc : c = '-' ∨ c.isDigit = true) : Number (c :: rest) := by
  generalize htext : c :: rest = text at h
  cases h with
  | word hword =>
    subst htext
    have hletter : c = 'n' ∨ c = 't' ∨ c = 'f' := by
      simp only [words, List.mem_cons, List.cons.injEq, List.not_mem_nil, or_false] at hword
      rcases hword with ⟨rfl, -⟩ | ⟨rfl, -⟩ | ⟨rfl, -⟩ <;> simp
    rcases hletter with rfl | rfl | rfl <;> exact absurd hc (by decide)
  | number hnumber => exact hnumber
  | text _ =>
    obtain ⟨rfl, -⟩ := List.cons_eq_cons.mp htext
    exact absurd hc (by decide)
  | @enclosed bracket _ _ =>
    obtain ⟨rfl, -⟩ := List.cons_eq_cons.mp htext
    cases bracket <;> exact absurd hc (by decide)

/-- A value that begins with a letter is a word. -/
theorem Value.of_letter {c : Char} {rest : List Char} (h : Value (c :: rest))
    (hc : c = 'n' ∨ c = 't' ∨ c = 'f') : c :: rest ∈ words := by
  generalize htext : c :: rest = text at h
  cases h with
  | word hword => exact hword
  | number hnumber =>
    subst htext
    have hhead := hnumber.of_cons
    rcases hc with rfl | rfl | rfl <;> exact absurd hhead (by decide)
  | text _ =>
    obtain ⟨rfl, -⟩ := List.cons_eq_cons.mp htext
    exact absurd hc (by decide)
  | @enclosed bracket _ _ =>
    obtain ⟨rfl, -⟩ := List.cons_eq_cons.mp htext
    cases bracket <;> exact absurd hc (by decide)

/-! ## Where values and bodies end -/

/-- Blanks that a text begins with, in front of something else. -/
theorem blank_unique {gap₁ gap₂ rest₁ rest₂ : List Char} (hgap₁ : Blank gap₁)
    (hrest₁ : rest₁.head?.any Reader.isBlank = false) (hgap₂ : Blank gap₂)
    (hrest₂ : rest₂.head?.any Reader.isBlank = false)
    (heq : gap₁ ++ rest₁ = gap₂ ++ rest₂) : gap₁ = gap₂ ∧ rest₁ = rest₂ :=
  run_unique hgap₁ hrest₁ hgap₂ hrest₂ heq

theorem Part.not_blank {bracket : Bracket} {text : List Char} (h : Part bracket text)
    (rest : List Char) : (text ++ rest).head?.any Reader.isBlank = false := by
  obtain ⟨c, more, rfl, hc⟩ := h.head
  simpa using isBlank_eq_false_of_isOpener hc

theorem Value.not_blank {text : List Char} (h : Value text) (rest : List Char) :
    (text ++ rest).head?.any Reader.isBlank = false := by
  obtain ⟨c, more, rfl, hc⟩ := h.head
  simpa using isBlank_eq_false_of_isOpener hc

theorem not_blank_cons {c : Char} {rest : List Char} (hc : Reader.isBlank c = false) :
    (c :: rest).head?.any Reader.isBlank = false := by
  simpa using hc

theorem closing_ne_comma (bracket : Bracket) : closing bracket ≠ ',' := by
  cases bracket <;> decide

theorem closing_not_blank (bracket : Bracket) (rest : List Char) :
    (closing bracket :: rest).head?.any Reader.isBlank = false := by
  cases bracket <;> simp [closing, Reader.isBlank]

theorem Part.head_ne {bracket : Bracket} {text rest more : List Char} {c : Char}
    (h : Part bracket text) (heq : text ++ rest = c :: more) (hc : isOpener c = false) :
    False := by
  obtain ⟨c', more', rfl, hc'⟩ := h.head
  obtain ⟨rfl, -⟩ := List.cons_eq_cons.mp heq
  rw [hc] at hc'
  cases hc'

theorem isOpener_closing (bracket : Bracket) : isOpener (closing bracket) = false := by
  cases bracket <;> decide

/-- What stands in front of a part ends at one place only. -/
theorem Lead.unique {first : Bool} {lead₁ lead₂ rest₁ rest₂ : List Char}
    (h₁ : Lead first lead₁) (h₂ : Lead first lead₂)
    (hrest₁ : rest₁.head?.any Reader.isBlank = false)
    (hrest₂ : rest₂.head?.any Reader.isBlank = false)
    (heq : lead₁ ++ rest₁ = lead₂ ++ rest₂) : lead₁ = lead₂ ∧ rest₁ = rest₂ := by
  cases h₁ with
  | first hgap =>
    cases h₂ with
    | first hgap₂ => exact blank_unique hgap hrest₁ hgap₂ hrest₂ heq
  | next hgap hbefore =>
    cases h₂ with
    | next hgap₂ hbefore₂ =>
      simp only [List.append_assoc, List.cons_append] at heq
      obtain ⟨rfl, hcommas⟩ := blank_unique hgap (not_blank_cons (by decide)) hgap₂
        (not_blank_cons (by decide)) heq
      obtain ⟨rfl, hrests⟩ := blank_unique hbefore hrest₁ hbefore₂ hrest₂
        (List.cons_eq_cons.mp hcommas).2
      exact ⟨rfl, hrests⟩

/-- No text goes on with a part and closes at the same time. -/
theorem Lead.not_closing {bracket : Bracket} {first : Bool}
    {lead part gap rest₁ rest₂ : List Char} (hlead : Lead first lead) (hpart : Part bracket part)
    (hgap : Blank gap)
    (heq : lead ++ (part ++ rest₁) = gap ++ closing bracket :: rest₂) : False := by
  cases hlead with
  | first hgap₁ =>
    obtain ⟨-, hclosing⟩ := blank_unique hgap₁ (hpart.not_blank _) hgap
      (closing_not_blank _ _) heq
    exact hpart.head_ne hclosing (isOpener_closing _)
  | next hgap₁ hbefore =>
    simp only [List.append_assoc, List.cons_append] at heq
    obtain ⟨-, hclosing⟩ := blank_unique hgap₁ (not_blank_cons (by decide)) hgap
      (closing_not_blank _ _) heq
    exact closing_ne_comma bracket (List.cons_eq_cons.mp hclosing).1.symm

theorem word_unique {text₁ text₂ rest₁ rest₂ : List Char} (h₁ : text₁ ∈ words)
    (h₂ : text₂ ∈ words) (heq : text₁ ++ rest₁ = text₂ ++ rest₂) :
    text₁ = text₂ ∧ rest₁ = rest₂ := by
  simp only [words, List.mem_cons, List.not_mem_nil, or_false] at h₁ h₂
  rcases h₁ with rfl | rfl | rfl <;> rcases h₂ with rfl | rfl | rfl <;> simp_all

mutual

/-- A value that a text begins with ends at one place only, if what follows it
cannot go on a number. -/
theorem Value.unique {text₁ text₂ rest₁ rest₂ : List Char} :
    Value text₁ → Value text₂ → Delimited rest₁ → Delimited rest₂ →
    text₁ ++ rest₁ = text₂ ++ rest₂ → text₁ = text₂ ∧ rest₁ = rest₂
  | .word hword, h₂, _, _, heq => by
    obtain ⟨c, more, rfl, -⟩ := h₂.head
    have hc : c = 'n' ∨ c = 't' ∨ c = 'f' := by
      simp only [words, List.mem_cons, List.not_mem_nil, or_false] at hword
      rcases hword with rfl | rfl | rfl <;>
        simp only [List.cons_append, List.cons.injEq] at heq <;> simp [← heq.1]
    exact word_unique hword (h₂.of_letter hc) heq
  | .number hnumber, h₂, hrest₁, hrest₂, heq => by
    obtain ⟨c, more, rfl, -⟩ := h₂.head
    obtain ⟨c', more', rfl, hc⟩ := hnumber.head
    obtain ⟨rfl, -⟩ := List.cons_eq_cons.mp heq
    exact run_unique hnumber.isNumberChar hrest₁ (h₂.of_numberHead hc).isNumberChar hrest₂ heq
  | .text hbody, h₂, _, _, heq => by
    obtain ⟨c, more, rfl, -⟩ := h₂.head
    obtain ⟨rfl, htail⟩ := List.cons_eq_cons.mp heq
    obtain ⟨rfl, rfl⟩ := hbody.unique h₂.of_quote htail
    exact ⟨rfl, rfl⟩
  | .enclosed hbody, h₂, _, _, heq => by
    obtain ⟨c, more, rfl, -⟩ := h₂.head
    obtain ⟨rfl, htail⟩ := List.cons_eq_cons.mp heq
    obtain ⟨rfl, rfl⟩ := hbody.unique h₂.of_opening htail
    exact ⟨rfl, rfl⟩

/-- The same for what stands between commas. -/
theorem Part.unique {bracket : Bracket} {text₁ text₂ rest₁ rest₂ : List Char} :
    Part bracket text₁ → Part bracket text₂ → Delimited rest₁ → Delimited rest₂ →
    text₁ ++ rest₁ = text₂ ++ rest₂ → text₁ = text₂ ∧ rest₁ = rest₂
  | .item hvalue, .item hvalue₂, hrest₁, hrest₂, heq => hvalue.unique hvalue₂ hrest₁ hrest₂ heq
  | .member hkey hbehind hbefore hvalue, .member hkey₂ hbehind₂ hbefore₂ hvalue₂, hrest₁,
      hrest₂, heq => by
    simp only [List.cons_append, List.append_assoc, List.cons.injEq, true_and] at heq
    obtain ⟨rfl, hcolon⟩ := hkey.unique hkey₂ heq
    obtain ⟨rfl, hgap⟩ := blank_unique hbehind (not_blank_cons (by decide)) hbehind₂
      (not_blank_cons (by decide)) hcolon
    obtain ⟨rfl, hvalues⟩ := blank_unique hbefore (hvalue.not_blank _) hbefore₂
      (hvalue₂.not_blank _) (List.cons_eq_cons.mp hgap).2
    obtain ⟨rfl, rfl⟩ := hvalue.unique hvalue₂ hrest₁ hrest₂ hvalues
    exact ⟨rfl, rfl⟩

/-- What a text begins with behind an opening bracket ends at one place only,
whatever follows. -/
theorem Body.unique {bracket : Bracket} {first : Bool} {text₁ text₂ rest₁ rest₂ : List Char} :
    Body bracket first text₁ → Body bracket first text₂ →
    text₁ ++ rest₁ = text₂ ++ rest₂ → text₁ = text₂ ∧ rest₁ = rest₂
  | .close hgap, .close hgap₂, heq => by
    simp only [List.append_assoc, List.singleton_append] at heq
    obtain ⟨rfl, hclosing⟩ := blank_unique hgap (closing_not_blank _ _) hgap₂
      (closing_not_blank _ _) heq
    exact ⟨rfl, (List.cons_eq_cons.mp hclosing).2⟩
  | .close hgap, .part hlead₂ hpart₂ _, heq => by
    simp only [List.append_assoc, List.singleton_append] at heq
    exact (hlead₂.not_closing hpart₂ hgap heq.symm).elim
  | .part hlead hpart _, .close hgap₂, heq => by
    simp only [List.append_assoc, List.singleton_append] at heq
    exact (hlead.not_closing hpart hgap₂ heq).elim
  | .part hlead hpart hrest, .part hlead₂ hpart₂ hrest₂, heq => by
    simp only [List.append_assoc] at heq
    obtain ⟨rfl, hparts⟩ := hlead.unique hlead₂ (hpart.not_blank _) (hpart₂.not_blank _) heq
    obtain ⟨rfl, hrests⟩ := hpart.unique hpart₂ (hrest.delimited _) (hrest₂.delimited _) hparts
    obtain ⟨rfl, rfl⟩ := hrest.unique hrest₂ hrests
    exact ⟨rfl, rfl⟩

end

/-- Behind a list or an object, a text of one value goes on with blanks only. -/
theorem document_append_iff {bracket : Bracket} {before body rest : List Char}
    (hbefore : Blank before) (hbody : Body bracket true body) :
    Document (before ++ (opening bracket :: body) ++ rest) ↔ Blank rest := by
  have hvalue : Value (opening bracket :: body) := .enclosed hbody
  constructor
  · intro h
    obtain ⟨before₂, value, behind, heq, hbefore₂, hvalue₂, hbehind⟩ := h
    rw [List.append_assoc] at heq
    obtain ⟨-, hvalues⟩ := blank_unique hbefore (hvalue.not_blank _) hbefore₂
      (hvalue₂.not_blank _) heq
    obtain ⟨c, more, rfl, -⟩ := hvalue₂.head
    obtain ⟨rfl, hbodies⟩ := List.cons_eq_cons.mp hvalues
    obtain ⟨-, rfl⟩ := hbody.unique hvalue₂.of_opening hbodies
    exact hbehind
  · intro hrest
    exact ⟨before, _, rest, List.append_assoc .., hbefore, hvalue, hrest⟩

end Grammar

end Json

end ComponentProps
