import ComponentProps.Proofs.Json.Scalars
import ComponentProps.Text.Quoted
import Mathlib

/-!
# Quoted text is read back

The reader of strings takes what `Text.quote` writes and gives the text that was
quoted, whatever follows.  A quoted text therefore ends at one place only, and
two texts are never quoted in the same way.

* `Reader.textUnit_escape`: one character.
* `Reader.textBody_quote`: a whole text, behind its opening quote.
* `Text.quote_append_inj`: equal beginnings come from equal texts.
* `Text.newline_not_mem_quote`: a quoted text stays on its line.
-/

namespace ComponentProps

namespace Json

namespace Reader

/-! ## Characters -/

/-- The digits that are written are those that are read. -/
theorem hexValue?_hexDigit {n : Nat} (h : n < 16) : hexValue? (Text.hexDigit n) = some n := by
  have hall : ∀ n < 16, hexValue? (Text.hexDigit n) = some n := by decide
  exact hall n h

/-- The number of a character below the space, in four digits. -/
theorem hexValues?_control {n : Nat} (h : n < 0x20) :
    hexValues? ['0', '0', Text.hexDigit (n / 16), Text.hexDigit (n % 16)] = some n := by
  have hhigh := hexValue?_hexDigit (n := n / 16) (by omega)
  have hlow := hexValue?_hexDigit (n := n % 16) (by omega)
  have hzero : hexValue? '0' = some 0 := by decide
  simp only [hexValues?, hhigh, hlow, hzero, Option.bind_eq_bind, Option.bind_some,
    Option.pure_def, Option.some.injEq]
  omega

theorem four_le_length_bytesOf {digits : List Char} (h : digits.length = 4) :
    4 ≤ (bytesOf digits).length := by
  match digits, h with
  | [a, b, c, d], _ =>
    have ha := Char.utf8Size_pos a
    have hb := Char.utf8Size_pos b
    have hc := Char.utf8Size_pos c
    have hd := Char.utf8Size_pos d
    simp only [bytesOf, List.flatMap_cons, List.flatMap_nil, List.length_append,
      String.length_utf8EncodeChar, List.length_nil]
    omega

/-- A long escape of a character below the space. -/
theorem unicodeEscape_control {c : Char} (h : c.toNat < 0x20) (rest : List Char) :
    unicodeEscape ('0' :: '0' :: Text.hexDigit (c.toNat / 16) ::
      Text.hexDigit (c.toNat % 16) :: rest) = .ok c rest := by
  have hunit : hexUnit ('0' :: '0' :: Text.hexDigit (c.toNat / 16) ::
      Text.hexDigit (c.toNat % 16) :: rest) = .ok c.toNat rest :=
    hexUnit_eq_ok_iff.2 ⟨four_le_length_bytesOf rfl, hexValues?_control h, rfl⟩
  refine bind_eq_ok_iff.2 ⟨c.toNat, rest, hunit, ?_⟩
  rw [if_neg (by omega), if_pos (by omega), Char.ofNat_toNat]
  rfl

/-- What is written for a character is read as that character. -/
theorem textUnit_escape (c : Char) (rest : List Char) :
    textUnit (Text.escape c ++ rest) = .ok (some c) rest := by
  unfold Text.escape
  -- the short escapes
  iterate 7
    split
    next h =>
      rw [h]
      rfl
  split
  next hcontrol =>
    have hread := unicodeEscape_control hcontrol rest
    show (some <$> unicodeEscape : Reader (Option Char)) _ = _
    exact map_eq_ok_iff.2 ⟨c, hread, rfl⟩
  next hquote hslash _ _ _ _ _ hcontrol =>
    show (if c = '"' then _ else if c = '\\' then _ else if c.toNat < 0x20 then _ else _ :
      Reader (Option Char)) (c :: rest) = _
    rw [if_neg hquote, if_neg hslash, if_neg hcontrol]
    rfl

/-! ## Texts -/

/-- The characters of a quoted text, up to and including the closing quote.  Each
takes at least one character of the budget. -/
theorem textUnits_escape (text rest : List Char) {budget : List Char}
    (h : text.length ≤ budget.length) :
    textUnits budget (text.flatMap Text.escape ++ '"' :: rest) = .ok text rest := by
  induction text generalizing budget with
  | nil =>
    unfold textUnits
    rfl
  | cons c more ih =>
    cases budget with
    | nil => simp at h
    | cons _ budget =>
      have hunit := textUnit_escape c (more.flatMap Text.escape ++ '"' :: rest)
      have hmore : textUnits budget (more.flatMap Text.escape ++ '"' :: rest) = .ok more rest :=
        ih (by simpa using h)
      rw [List.flatMap_cons, List.append_assoc]
      unfold textUnits
      refine bind_eq_ok_iff.2 ⟨some c, _, hunit, ?_⟩
      exact map_eq_ok_iff.2 ⟨more, hmore, rfl⟩

/-- A quoted text is read back, whatever follows it. -/
theorem textBody_quote (text : String) (rest : List Char) :
    textBody (text.toList.flatMap Text.escape ++ '"' :: rest) = .ok text rest := by
  have hlength : text.toList.length ≤
      (text.toList.flatMap Text.escape ++ '"' :: rest).length := by
    have hsum : text.toList.length ≤ (text.toList.flatMap Text.escape).length := by
      induction text.toList with
      | nil => exact Nat.zero_le _
      | cons c more ih =>
        have hpos := List.length_pos_of_ne_nil (Text.escape_ne_nil c)
        rw [List.flatMap_cons, List.length_append, List.length_cons]
        omega
    rw [List.length_append]
    omega
  have hunits := textUnits_escape text.toList rest hlength
  have hread : (String.ofList <$> textUnits (text.toList.flatMap Text.escape ++ '"' :: rest) :
      Reader String) (text.toList.flatMap Text.escape ++ '"' :: rest) = .ok text rest :=
    map_eq_ok_iff.2 ⟨text.toList, hunits, String.ofList_toList⟩
  exact hread

end Reader

end Json

namespace Text

theorem toList_quote (text : String) :
    (quote text).toList = '"' :: (text.toList.flatMap escape ++ ['"']) := by
  rw [quote, String.toList_ofList]

/-- A text that begins with a quoted text begins with no other. -/
theorem quote_append_inj {text other : String} {rest others : List Char}
    (h : (quote text).toList ++ rest = (quote other).toList ++ others) :
    text = other ∧ rest = others := by
  simp only [toList_quote, List.cons_append, List.append_assoc, List.nil_append,
    List.cons.injEq, true_and] at h
  have hread := Json.Reader.textBody_quote text rest
  rw [h, Json.Reader.textBody_quote other others] at hread
  cases hread
  exact ⟨rfl, rfl⟩

/-- A line feed is written as an escape, and no other character writes one. -/
theorem newline_not_mem_escape (c : Char) : '\n' ∉ escape c := by
  have hdigit : ∀ n < 16, '\n' ≠ hexDigit n := by decide
  by_cases hfeed : c = '\n'
  · rw [hfeed]
    decide
  unfold escape
  iterate 6
    split
    · decide
  split
  next hcontrol =>
    have hhigh := hdigit (c.toNat / 16) (by omega)
    have hlow := hdigit (c.toNat % 16) (by omega)
    simp [hhigh, hlow]
  next => exact fun h => hfeed (List.mem_singleton.1 h).symm

/-- A quoted text stays on its line. -/
theorem newline_not_mem_quote (text : String) : '\n' ∉ (quote text).toList := by
  simp [toList_quote, newline_not_mem_escape]

end Text

end ComponentProps
