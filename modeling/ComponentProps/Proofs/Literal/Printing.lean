import ComponentProps.Literal.Printer
import ComponentProps.Proofs.Decimal.NumberText
import ComponentProps.Proofs.Json.Grammar
import ComponentProps.Proofs.Json.Quoted
import Mathlib

/-!
# Literals are written distinctly

Two literals share their text exactly if they are the same expression.  `alike`
says when they are: with the same keys in the same order, with placeholders of
the same kind and name, and with numbers that are the same value.

A text tells what it is the text of from its beginning.  The first character of
a literal gives its kind (`exists_chars_cons`).  What is quoted ends at its
closing quote, and a bare key or a number goes on for as long as its characters
do, so it ends in front of what separates it from the next part.

* `PropertyKey.chars_inj`, `Placeholder.chars_inj`, `Literal.chars_inj`: two parts
  in front of two texts are the same part if the whole is the same.
* `Literal.chars_congr`: literals that are alike are written in the same way.
* `Literal.print_eq_iff`: both for whole texts.
-/

namespace ComponentProps

open Json.Grammar (run_unique)

/-! ## Keys -/

namespace PropertyKey

/-- Whether a key that is written bare is an identifier. -/
def isProper : PropertyKey → Bool
  | .identifier name => isIdentifier name
  | .quoted _ => true

theorem isProper_ofName (name : String) : (ofName name).isProper = true := by
  unfold ofName
  split
  next h => exact h
  next => rfl

/-- An identifier is made of the characters of identifiers and does not begin like a
string. -/
theorem of_isIdentifier {name : String} (h : isIdentifier name = true) :
    (∀ c ∈ name.toList, isIdentifierPart c = true) ∧
      ∃ first rest, name.toList = first :: rest ∧ first ≠ '"' := by
  unfold isIdentifier at h
  cases hname : name.toList with
  | nil =>
    rw [hname] at h
    cases h
  | cons first rest =>
    rw [hname] at h
    have hboth : isIdentifierStart first = true ∧ rest.all isIdentifierPart = true :=
      Bool.and_eq_true_iff.1 h
    have hfirst : isIdentifierPart first = true := by simp [isIdentifierPart, hboth.1]
    constructor
    · intro c hc
      obtain rfl | hc := List.mem_cons.1 hc
      · exact hfirst
      · exact List.all_eq_true.1 hboth.2 c hc
    · refine ⟨first, rest, rfl, ?_⟩
      rintro rfl
      exact absurd hboth.1 (by decide)

/-- A bare key is not taken for a quoted one. -/
theorem identifier_ne_quoted {name other : String} {rest others : List Char}
    (h : isIdentifier name = true) :
    name.toList ++ rest ≠ (Text.quote other).toList ++ others := by
  obtain ⟨-, first, more, hname, hfirst⟩ := of_isIdentifier h
  rw [hname, Text.toList_quote]
  exact fun heq => hfirst (List.cons_eq_cons.1 heq).1

/-- A key ends in front of its colon. -/
theorem chars_inj {key other : PropertyKey} {rest others : List Char}
    (hkey : key.isProper = true) (hother : other.isProper = true)
    (h : key.chars ++ ':' :: rest = other.chars ++ ':' :: others) :
    key = other ∧ rest = others := by
  cases key with
  | identifier name =>
    cases other with
    | identifier otherName =>
      have hcolon (text : List Char) : (':' :: text).head?.any isIdentifierPart = false := by
        simp [isIdentifierPart, isIdentifierStart, Char.isAlpha, Char.isDigit]
      obtain ⟨hname, hrest⟩ := run_unique (of_isIdentifier hkey).1 (hcolon rest)
        (of_isIdentifier hother).1 (hcolon others) h
      rw [String.toList_inj.1 hname]
      exact ⟨rfl, (List.cons_eq_cons.1 hrest).2⟩
    | quoted otherName => exact absurd h (identifier_ne_quoted hkey)
  | quoted name =>
    cases other with
    | identifier otherName => exact absurd h.symm (identifier_ne_quoted hother)
    | quoted otherName =>
      obtain ⟨rfl, hrest⟩ := Text.quote_append_inj h
      exact ⟨rfl, (List.cons_eq_cons.1 hrest).2⟩

end PropertyKey

/-! ## Placeholders -/

theorem PlaceholderKind.name_inj {kind other : PlaceholderKind} (h : kind.name = other.name) :
    kind = other := by
  cases kind <;> cases other <;> first | rfl | exact absurd h (by decide)

/-- What a placeholder says of its kind. -/
def PlaceholderKind.chars : PlaceholderKind → List Char
  | .unknown => "undefined".toList
  | kind => (Text.quote kind.name).toList

theorem PlaceholderKind.chars_of_ne {kind : PlaceholderKind} (h : kind ≠ .unknown) :
    kind.chars = (Text.quote kind.name).toList := by
  cases kind
  case unknown => exact absurd rfl h
  all_goals rfl

/-- What is not quoted is the word for an unknown kind. -/
theorem PlaceholderKind.chars_inj {kind other : PlaceholderKind} {rest others : List Char}
    (h : kind.chars ++ rest = other.chars ++ others) : kind = other ∧ rest = others := by
  have hquoted (name : String) (rest others : List Char) :
      "undefined".toList ++ rest ≠ (Text.quote name).toList ++ others := by
    rw [Text.toList_quote]
    exact fun heq => absurd (List.cons_eq_cons.1 heq).1 (by decide)
  by_cases hkind : kind = .unknown
  · by_cases hother : other = .unknown
    · subst hkind hother
      exact ⟨rfl, List.append_cancel_left h⟩
    · rw [hkind, chars_of_ne hother] at h
      exact absurd h (hquoted _ _ _)
  · by_cases hother : other = .unknown
    · rw [hother, chars_of_ne hkind] at h
      exact absurd h.symm (hquoted _ _ _)
    · rw [chars_of_ne hkind, chars_of_ne hother] at h
      obtain ⟨hname, hrest⟩ := Text.quote_append_inj h
      exact ⟨name_inj hname, hrest⟩

/-- A placeholder is a call with two arguments. -/
theorem Placeholder.chars_append (placeholder : Placeholder) (rest : List Char) :
    placeholder.chars ++ rest = "__abstract(".toList ++ (placeholder.kind.chars ++
      (", ".toList ++ ((Text.quote placeholder.name).toList ++ ')' :: rest))) := by
  obtain ⟨kind, name⟩ := placeholder
  unfold Placeholder.chars PlaceholderKind.chars
  cases kind
  all_goals simp only [List.append_assoc, List.cons_append, List.nil_append]

theorem Placeholder.chars_inj {placeholder other : Placeholder} {rest others : List Char}
    (h : placeholder.chars ++ rest = other.chars ++ others) :
    placeholder = other ∧ rest = others := by
  rw [chars_append, chars_append] at h
  obtain ⟨hkind, hname⟩ := PlaceholderKind.chars_inj (List.append_cancel_left h)
  obtain ⟨hname, hrest⟩ := Text.quote_append_inj (List.append_cancel_left hname)
  obtain ⟨kind, name⟩ := placeholder
  obtain ⟨otherKind, otherName⟩ := other
  cases hkind
  cases hname
  exact ⟨rfl, (List.cons_eq_cons.1 hrest).2⟩

namespace Literal

/-! ## Literals that are alike -/

mutual

/-- Whether two literals are the same expression, with numbers compared as values
and everything that is not a number taken for one of them. -/
def alike : Literal → Literal → Bool
  | .object properties, .object others => alikeProperties properties others
  | .list items, .list others => alikeItems items others
  | .text value, .text other => value == other
  | .number value, .number other => Choice.sameNumber value other
  | .bool value, .bool other => value == other
  | .null, .null => true
  | .placeholder value, .placeholder other => value == other
  | _, _ => false

/-- Whether two lists have items that are alike. -/
def alikeItems : List Literal → List Literal → Bool
  | [], [] => true
  | item :: rest, other :: others => item.alike other && alikeItems rest others
  | _, _ => false

/-- Whether two objects have the same keys, with values that are alike. -/
def alikeProperties : Properties → Properties → Bool
  | [], [] => true
  | (key, value) :: rest, (otherKey, other) :: others =>
    key == otherKey && value.alike other && alikeProperties rest others
  | _, _ => false

end

mutual

/-- Whether all keys that are written bare are identifiers. -/
def isProper : Literal → Bool
  | .object properties => areProper properties
  | .list items => areProperItems items
  | .text _ | .number _ | .bool _ | .null | .placeholder _ => true

/-- Whether all bare keys in the items of a list are identifiers. -/
def areProperItems : List Literal → Bool
  | [] => true
  | item :: rest => item.isProper && areProperItems rest

/-- Whether all bare keys in the properties of an object are identifiers. -/
def areProper : Properties → Bool
  | [] => true
  | (key, value) :: rest => key.isProper && value.isProper && areProper rest

end

/-! ## Beginnings -/

/-- The kind of the literals that begin with a character. -/
def kindOfStart (c : Char) : Option Kind :=
  if c = '\x7b' then some .object
  else if c = '[' then some .array
  else if c = '"' then some .string
  else if c = 't' ∨ c = 'f' then some .boolean
  else if c = 'n' then some .null
  else if c = '_' then some .placeholder
  else if isNumeralStart c then some .number
  else none

theorem kindOfStart_of_isNumeralStart {c : Char} (h : isNumeralStart c = true) :
    kindOfStart c = some .number := by
  have hother : ['\x7b', '[', '"', 't', 'f', 'n', '_'].all (!isNumeralStart ·) = true := by
    decide
  have hne : ∀ other ∈ ['\x7b', '[', '"', 't', 'f', 'n', '_'], c ≠ other := by
    intro other hmem heq
    have hnot := List.all_eq_true.1 hother other hmem
    rw [← heq, h] at hnot
    cases hnot
  simp only [List.forall_mem_cons] at hne
  simp [kindOfStart, hne, h]

/-- The first character of a literal tells its kind. -/
theorem exists_chars_cons (level : Nat) (value : Literal) (rest : List Char) :
    ∃ c tail, value.chars level rest = c :: tail ∧ kindOfStart c = some value.kind := by
  cases value with
  | object properties => cases properties <;> exact ⟨_, _, rfl, rfl⟩
  | list items => exact ⟨_, _, rfl, rfl⟩
  | text value => exact ⟨_, _, by rw [chars, Text.toList_quote]; rfl, rfl⟩
  | number value =>
    obtain ⟨c, tail, htext, hstart⟩ := exists_numberText_cons value
    exact ⟨c, tail ++ rest, by rw [chars, htext]; rfl, kindOfStart_of_isNumeralStart hstart⟩
  | bool value => cases value <;> exact ⟨_, _, rfl, rfl⟩
  | null => exact ⟨_, _, rfl, rfl⟩
  | placeholder value => exact ⟨_, _, by rw [chars, Placeholder.chars_append]; rfl, rfl⟩

theorem kind_eq_of_chars_eq {level : Nat} {value other : Literal} {rest others : List Char}
    (h : value.chars level rest = other.chars level others) : value.kind = other.kind := by
  obtain ⟨c, tail, hvalue, hkind⟩ := exists_chars_cons level value rest
  obtain ⟨c', tail', hother, hkind'⟩ := exists_chars_cons level other others
  rw [hvalue, hother] at h
  rw [(List.cons_eq_cons.1 h).1, hkind'] at hkind
  exact (Option.some.inj hkind).symm

/-- No literal begins with a character that is not the first of any kind. -/
theorem chars_ne_cons {c : Char} (h : kindOfStart c = none) (level : Nat) (value : Literal)
    (rest others : List Char) : value.chars level rest ≠ c :: others := by
  obtain ⟨first, tail, hvalue, hkind⟩ := exists_chars_cons level value rest
  rw [hvalue]
  intro heq
  rw [(List.cons_eq_cons.1 heq).1, h] at hkind
  cases hkind

/-! ## Separators -/

/-- What stands behind an item of a list: the other items, or the end of the list. -/
def behindItem (level : Nat) : List Literal → List Char → List Char
  | [], rest => ']' :: rest
  | item :: others, rest => ',' :: ' ' :: itemsChars level (item :: others) (']' :: rest)

theorem itemsChars_cons (level : Nat) (item : Literal) (others : List Literal)
    (rest : List Char) :
    itemsChars level (item :: others) (']' :: rest) =
      item.chars level (behindItem level others rest) := by
  cases others <;> rfl

/-- What stands behind a property of an object: the other properties, or the end of
the line. -/
def behindProperty (level : Nat) : Properties → List Char → List Char
  | [], rest => '\n' :: rest
  | property :: others, rest => ',' :: '\n' :: propertiesChars level (property :: others) rest

theorem propertiesChars_cons (level : Nat) (key : PropertyKey) (value : Literal)
    (others : Properties) (rest : List Char) :
    propertiesChars level ((key, value) :: others) rest =
      indent level ++ (key.chars ++ ':' :: ' ' ::
        value.chars level (behindProperty level others rest)) := by
  cases others <;> exact List.append_assoc _ _ _

/-- Whether a text does not go on with a character of numbers. -/
def Ends (rest : List Char) : Prop := rest.head?.any isNumeralChar = false

theorem ends_nil : Ends [] := rfl

theorem ends_newline (rest : List Char) : Ends ('\n' :: rest) := rfl

theorem ends_behindItem (level : Nat) (others : List Literal) (rest : List Char) :
    Ends (behindItem level others rest) := by
  cases others <;> rfl

theorem ends_behindProperty (level : Nat) (others : Properties) (rest : List Char) :
    Ends (behindProperty level others rest) := by
  cases others <;> rfl

/-! ## Uniqueness -/

theorem numberText_append_inj {x y : Float} {rest others : List Char} (hrest : Ends rest)
    (hothers : Ends others)
    (h : (numberText x).toList ++ rest = (numberText y).toList ++ others) :
    Choice.sameNumber x y = true ∧ rest = others := by
  obtain ⟨htext, hends⟩ := run_unique (fun _ => isNumeralChar_of_mem_numberText) hrest
    (fun _ => isNumeralChar_of_mem_numberText) hothers h
  exact ⟨numberText_eq_iff.1 (String.toList_inj.1 htext), hends⟩

theorem boolText_append_inj {value other : Bool} {rest others : List Char}
    (h : (if value then "true" else "false").toList ++ rest =
      (if other then "true" else "false").toList ++ others) : value = other ∧ rest = others := by
  cases value <;> cases other
  · exact ⟨rfl, List.append_cancel_left h⟩
  · exact absurd (List.cons_eq_cons.1 h).1 (by decide)
  · exact absurd (List.cons_eq_cons.1 h).1 (by decide)
  · exact ⟨rfl, List.append_cancel_left h⟩

mutual

/-- Literals in front of texts that end a number are alike if the whole is the same,
and the texts behind them are the same. -/
theorem chars_inj {level : Nat} : (value other : Literal) → {rest others : List Char} →
    value.isProper = true → other.isProper = true → Ends rest → Ends others →
      value.chars level rest = other.chars level others →
        value.alike other = true ∧ rest = others
  | .object properties, other, rest, others, hvalue, hother, _, _, h => by
    cases other with
    | object otherProperties =>
      match properties, otherProperties with
      | [], [] => exact ⟨rfl, (List.cons_eq_cons.1 (List.cons_eq_cons.1 h).2).2⟩
      | [], _ :: _ => exact absurd (List.cons_eq_cons.1 (List.cons_eq_cons.1 h).2).1 (by decide)
      | _ :: _, [] => exact absurd (List.cons_eq_cons.1 (List.cons_eq_cons.1 h).2).1 (by decide)
      | property :: more, otherProperty :: otherMore =>
        have hlines := (List.cons_eq_cons.1 (List.cons_eq_cons.1 h).2).2
        obtain ⟨hsame, hclose⟩ :=
          propertiesChars_inj (property :: more) (otherProperty :: otherMore)
            (List.cons_ne_nil _ _) (List.cons_ne_nil _ _) hvalue hother hlines
        exact ⟨hsame, (List.cons_eq_cons.1 (List.append_cancel_left hclose)).2⟩
    | _ => cases kind_eq_of_chars_eq h
  | .list items, other, rest, others, hvalue, hother, _, _, h => by
    cases other with
    | list otherItems =>
      exact itemsChars_inj items otherItems hvalue hother (List.cons_eq_cons.1 h).2
    | _ => cases kind_eq_of_chars_eq h
  | .text value, other, rest, others, _, _, _, _, h => by
    cases other with
    | text otherValue =>
      obtain ⟨rfl, hrest⟩ := Text.quote_append_inj h
      exact ⟨beq_self_eq_true value, hrest⟩
    | _ => cases kind_eq_of_chars_eq h
  | .number value, other, rest, others, _, _, hrest, hothers, h => by
    cases other with
    | number otherValue => exact numberText_append_inj hrest hothers h
    | _ => cases kind_eq_of_chars_eq h
  | .bool value, other, rest, others, _, _, _, _, h => by
    cases other with
    | bool otherValue =>
      obtain ⟨rfl, hrest⟩ := boolText_append_inj h
      exact ⟨beq_self_eq_true value, hrest⟩
    | _ => cases kind_eq_of_chars_eq h
  | .null, other, rest, others, _, _, _, _, h => by
    cases other with
    | null => exact ⟨rfl, List.append_cancel_left h⟩
    | _ => cases kind_eq_of_chars_eq h
  | .placeholder value, other, rest, others, _, _, _, _, h => by
    cases other with
    | placeholder otherValue =>
      obtain ⟨rfl, hrest⟩ := Placeholder.chars_inj h
      exact ⟨beq_self_eq_true value, hrest⟩
    | _ => cases kind_eq_of_chars_eq h

/-- The items of a list, up to its bracket. -/
theorem itemsChars_inj {level : Nat} : (items otherItems : List Literal) →
    {rest others : List Char} → areProperItems items = true → areProperItems otherItems = true →
      itemsChars level items (']' :: rest) = itemsChars level otherItems (']' :: others) →
        alikeItems items otherItems = true ∧ rest = others
  | [], [], _, _, _, _, h => ⟨rfl, (List.cons_eq_cons.1 h).2⟩
  | [], other :: more, rest, others, _, _, h => by
    rw [itemsChars_cons] at h
    exact absurd h.symm (chars_ne_cons rfl _ _ _ _)
  | item :: more, [], rest, others, _, _, h => by
    rw [itemsChars_cons] at h
    exact absurd h (chars_ne_cons rfl _ _ _ _)
  | item :: more, other :: otherMore, rest, others, hitems, hothers, h => by
    rw [areProperItems, Bool.and_eq_true] at hitems hothers
    rw [itemsChars_cons, itemsChars_cons] at h
    obtain ⟨hitem, hbehind⟩ := chars_inj item other hitems.1 hothers.1 (ends_behindItem _ _ _)
      (ends_behindItem _ _ _) h
    have hmore : alikeItems more otherMore = true ∧ rest = others := by
      match more, otherMore with
      | [], [] => exact ⟨rfl, (List.cons_eq_cons.1 hbehind).2⟩
      | [], _ :: _ => exact absurd (List.cons_eq_cons.1 hbehind).1 (by decide)
      | _ :: _, [] => exact absurd (List.cons_eq_cons.1 hbehind).1 (by decide)
      | next :: more, otherNext :: otherMore =>
        have hnext := (List.cons_eq_cons.1 (List.cons_eq_cons.1 hbehind).2).2
        exact itemsChars_inj (next :: more) (otherNext :: otherMore) hitems.2 hothers.2 hnext
    rw [alikeItems, Bool.and_eq_true]
    exact ⟨⟨hitem, hmore.1⟩, hmore.2⟩

/-- The properties of an object, up to the end of its last line. -/
theorem propertiesChars_inj {level : Nat} : (properties otherProperties : Properties) →
    {rest others : List Char} → properties ≠ [] → otherProperties ≠ [] →
      areProper properties = true → areProper otherProperties = true →
      propertiesChars level properties rest = propertiesChars level otherProperties others →
        alikeProperties properties otherProperties = true ∧ rest = others
  | [], _, _, _, hsome, _, _, _, _ => absurd rfl hsome
  | _ :: _, [], _, _, _, hsome, _, _, _ => absurd rfl hsome
  | (key, value) :: more, (otherKey, other) :: otherMore, rest, others, _, _, hproper,
      hotherProper, h => by
    rw [areProper, Bool.and_eq_true, Bool.and_eq_true] at hproper hotherProper
    rw [propertiesChars_cons, propertiesChars_cons] at h
    obtain ⟨rfl, hvalue⟩ :=
      PropertyKey.chars_inj hproper.1.1 hotherProper.1.1 (List.append_cancel_left h)
    obtain ⟨hsame, hbehind⟩ := chars_inj value other hproper.1.2 hotherProper.1.2
      (ends_behindProperty _ _ _) (ends_behindProperty _ _ _) (List.cons_eq_cons.1 hvalue).2
    have hmore : alikeProperties more otherMore = true ∧ rest = others := by
      match more, otherMore with
      | [], [] => exact ⟨rfl, (List.cons_eq_cons.1 hbehind).2⟩
      | [], _ :: _ => exact absurd (List.cons_eq_cons.1 hbehind).1 (by decide)
      | _ :: _, [] => exact absurd (List.cons_eq_cons.1 hbehind).1 (by decide)
      | next :: more, otherNext :: otherMore =>
        have hnext := (List.cons_eq_cons.1 (List.cons_eq_cons.1 hbehind).2).2
        exact propertiesChars_inj (next :: more) (otherNext :: otherMore) (List.cons_ne_nil _ _)
          (List.cons_ne_nil _ _) hproper.2 hotherProper.2 hnext
    rw [alikeProperties, Bool.and_eq_true, Bool.and_eq_true]
    exact ⟨⟨⟨beq_self_eq_true key, hsame⟩, hmore.1⟩, hmore.2⟩

end

/-! ## Congruence -/

mutual

/-- Literals that are alike are written in the same way. -/
theorem chars_congr (level : Nat) : (value other : Literal) → (rest : List Char) →
    value.alike other = true → value.chars level rest = other.chars level rest
  | .object [], .object [], rest, _ => rfl
  | .object (property :: more), .object (other :: otherMore), rest, h => by
    rw [chars, chars, propertiesChars_congr (level + 1) (property :: more) (other :: otherMore) _ h]
  | .list items, .list others, rest, h => by
    rw [chars, chars, itemsChars_congr level items others _ h]
  | .text value, .text other, rest, h => by rw [eq_of_beq h]
  | .number value, .number other, rest, h => by rw [chars, chars, numberText_eq_iff.2 h]
  | .bool value, .bool other, rest, h => by rw [eq_of_beq h]
  | .null, .null, rest, _ => rfl
  | .placeholder value, .placeholder other, rest, h => by rw [eq_of_beq h]

theorem itemsChars_congr (level : Nat) : (items others : List Literal) → (rest : List Char) →
    alikeItems items others = true →
      itemsChars level items (']' :: rest) = itemsChars level others (']' :: rest)
  | [], [], rest, _ => rfl
  | item :: more, other :: otherMore, rest, h => by
    rw [alikeItems, Bool.and_eq_true] at h
    have hmore := itemsChars_congr level more otherMore rest h.2
    have hbehind : behindItem level more rest = behindItem level otherMore rest := by
      match more, otherMore with
      | [], [] => rfl
      | next :: more, otherNext :: otherMore => rw [behindItem, behindItem, hmore]
    rw [itemsChars_cons, itemsChars_cons, chars_congr level item other _ h.1, hbehind]

theorem propertiesChars_congr (level : Nat) : (properties others : Properties) →
    (rest : List Char) → alikeProperties properties others = true →
      propertiesChars level properties rest = propertiesChars level others rest
  | [], [], rest, _ => rfl
  | (key, value) :: more, (otherKey, other) :: otherMore, rest, h => by
    rw [alikeProperties, Bool.and_eq_true, Bool.and_eq_true, beq_iff_eq] at h
    have hmore := propertiesChars_congr level more otherMore rest h.2
    have hbehind : behindProperty level more rest = behindProperty level otherMore rest := by
      match more, otherMore with
      | [], [] => rfl
      | next :: more, otherNext :: otherMore => rw [behindProperty, behindProperty, hmore]
    rw [propertiesChars_cons, propertiesChars_cons, h.1.1, chars_congr level value other _ h.1.2,
      hbehind]

end

/-! ## Texts -/

/-- Literals share their text exactly if they are alike. -/
theorem print_eq_iff {value other : Literal} (hvalue : value.isProper = true)
    (hother : other.isProper = true) :
    value.print = other.print ↔ value.alike other = true := by
  rw [print, print, String.ofList_inj]
  constructor
  · intro h
    exact (chars_inj value other hvalue hother ends_nil ends_nil h).1
  · exact chars_congr 0 value other []

/-- A sign of zero does not show, but the form of a key does. -/
theorem print_zeros_and_keys :
    let value (key : PropertyKey) (zero : Float) : Literal :=
      .object [(key, .list [.number zero, .text "a: 0"]),
        (.quoted "a", .placeholder ⟨.unknown, "props.a"⟩)]
    (value (.identifier "a") 0).print = (value (.identifier "a") (-0.0)).print ∧
      (value (.identifier "a") 0).print ≠ (value (.quoted "a") 0).print := by
  intro value
  have hbare (zero : Float) : (value (.identifier "a") zero).isProper = true := rfl
  have hquoted : (value (.quoted "a") 0).isProper = true := rfl
  constructor
  · rw [print_eq_iff (hbare 0) (hbare (-0.0))]
    decide +kernel
  · rw [ne_eq, print_eq_iff (hbare 0) hquoted]
    decide +kernel

end Literal

end ComponentProps
