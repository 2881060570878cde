import ComponentProps.Text.Split

/-!
# Patterns for names

A pattern stands for a set of texts.  `?` is any character, `*` any text,
`[abc]` one of the characters listed, `[!abc]` any other one, and `a-z` in
brackets a range.  `**` stands for folders at any depth; it is not written
beside anything but `/`.  Every other character stands for itself, also `]` and
the backslash.

* `Glob.tokens`: what a pattern is made of, or where it fails.
* `Glob.covers`: is a text in the set?
* `Glob.covers_iff`: the texts of a pattern are those of its parts, one behind the other.
* `Glob.isPattern`: is a text meant to be a pattern?
-/

namespace ComponentProps

namespace Glob

/-- The characters from `first` to `last`. -/
structure Span where
  first : Char
  last : Char
deriving DecidableEq, Repr

/-- Is a character in a span? -/
def Span.admits (span : Span) (c : Char) : Bool :=
  decide (span.first ≤ c) && decide (c ≤ span.last)

/-- A part of a pattern. -/
inductive Token where
  | char (c : Char)
  | anyChar
  | anyText
  | within (spans : List Span)
  | except (spans : List Span)
  /-- Folders at any depth. -/
  | anyDepth
deriving DecidableEq, Repr

/-- What is wrong with a pattern. -/
inductive Flaw where
  | stars
  | depth
  | range
deriving DecidableEq, Repr

/-- The words for what is wrong. -/
def Flaw.message : Flaw → String
  | .stars => "wildcards are either regular `*` or recursive `**`"
  | .depth => "recursive wildcards must form a single path component"
  | .range => "invalid range pattern"

/-- A pattern that means nothing, with the place where it fails. -/
structure Fault where
  position : Nat
  flaw : Flaw
deriving DecidableEq, Repr

/-- The words for a pattern that means nothing. -/
def Fault.message (fault : Fault) : String :=
  "Pattern syntax error near position " ++ toString fault.position ++ ": " ++ fault.flaw.message

/-! ## Reading patterns -/

/-- The spans that are written between brackets. -/
def spans : List Char → List Span
  | first :: '-' :: last :: rest => ⟨first, last⟩ :: spans rest
  | c :: rest => ⟨c, c⟩ :: spans rest
  | [] => []

/-- What stands before the next closing bracket, and what after it. -/
def untilBracket : List Char → Option (List Char × List Char)
  | [] => none
  | ']' :: rest => some ([], rest)
  | c :: rest => (untilBracket rest).map fun (inside, after) => (c :: inside, after)

theorem length_of_untilBracket {text inside after : List Char}
    (h : untilBracket text = some (inside, after)) : after.length < text.length := by
  fun_induction untilBracket text generalizing inside after with
  | case1 => simp at h
  | case2 rest =>
    simp only [Option.some.injEq, Prod.mk.injEq] at h
    simp [h.2]
  | case3 c rest _ ih =>
    simp only [Option.map_eq_some_iff, Prod.exists, Prod.mk.injEq] at h
    obtain ⟨inside', after', hrest, _, rfl⟩ := h
    exact Nat.lt_succ_of_lt (ih hrest)

/-- The parts of what is left of a pattern at a position, after the character
`before`.  A bracket right after the opening one, or after `[!`, is one of the
characters listed. -/
def tokensFrom (before : Option Char) (position : Nat) (text : List Char) :
    Except Fault (List Token) :=
  match text with
  | [] => .ok []
  | '?' :: rest => (.anyChar :: ·) <$> tokensFrom (some '?') (position + 1) rest
  | '*' :: '*' :: '*' :: _ => .error ⟨position + 2, .stars⟩
  | '*' :: '*' :: rest =>
    if before = none ∨ before = some '/' then
      match rest with
      | [] => .ok [.anyDepth]
      | '/' :: after => (.anyDepth :: ·) <$> tokensFrom (some '/') (position + 3) after
      | _ => .error ⟨position + 2, .depth⟩
    else .error ⟨position - 1, .depth⟩
  | '*' :: rest => (.anyText :: ·) <$> tokensFrom (some '*') (position + 1) rest
  | '[' :: '!' :: c :: rest =>
    match h : untilBracket rest with
    | some (inside, after) =>
      have : after.length < rest.length := length_of_untilBracket h
      (.except (spans (c :: inside)) :: ·) <$>
        tokensFrom (some ']') (position + inside.length + 4) after
    | none => .error ⟨position, .range⟩
  | '[' :: '!' :: [] => .error ⟨position, .range⟩
  | '[' :: c :: rest =>
    match h : untilBracket rest with
    | some (inside, after) =>
      have : after.length < rest.length := length_of_untilBracket h
      (.within (spans (c :: inside)) :: ·) <$>
        tokensFrom (some ']') (position + inside.length + 3) after
    | none => .error ⟨position, .range⟩
  | '[' :: [] => .error ⟨position, .range⟩
  | c :: rest => (.char c :: ·) <$> tokensFrom (some c) (position + 1) rest
termination_by text.length
decreasing_by all_goals (simp_all; try omega)

/-- The parts of a pattern. -/
def tokens (text : String) : Except Fault (List Token) := tokensFrom none 0 text.toList

/-- Is a text meant to be a pattern? -/
def isPattern (text : String) : Bool :=
  text.toList.any fun c => c == '*' || c == '?' || c == '['

/-! ## Matching -/

/-- Does a part of a pattern stand for a single character? -/
def Token.admits (token : Token) (c : Char) : Bool :=
  match token with
  | .char expected => c == expected
  | .anyChar => true
  | .within spans => spans.any (·.admits c)
  | .except spans => !spans.any (·.admits c)
  | .anyText | .anyDepth => false

/-- Does a part of a pattern stand for texts of any length? -/
def Token.stretches : Token → Bool
  | .anyText | .anyDepth => true
  | _ => false

/-- Holds at every place of a list from which on some value is true. -/
def anyFurther : List Bool → List Bool
  | [] => []
  | here :: rest =>
    let further := anyFurther rest
    (here || further.headD false) :: further

/-- One character and then what `next` says about the text behind it. -/
def afterOne (token : Token) : List Char → List Bool → List Bool
  | c :: text, _ :: next => (token.admits c && next.headD false) :: afterOne token text next
  | _, _ => [false]

/-- Does a pattern stand for a text, and for each shorter end of it?  The answer
for the whole text comes first and the one for the empty text last.  Going from
one part of the pattern to the part before it takes one pass over the text. -/
def coversEnds (text : List Char) : List Token → List Bool
  | [] => text.map (fun _ => false) ++ [true]
  | token :: rest =>
    if token.stretches then anyFurther (coversEnds text rest)
    else afterOne token text (coversEnds text rest)

/-- Does a pattern stand for a text? -/
def covers (tokens : List Token) (text : List Char) : Bool :=
  (coversEnds text tokens).headD false

/-- The answers for the ends of a text are those for the text behind its first
character and one more. -/
theorem coversEnds_cons (c : Char) (text : List Char) (tokens : List Token) :
    coversEnds (c :: text) tokens = covers tokens (c :: text) :: coversEnds text tokens := by
  induction tokens with
  | nil => simp [coversEnds, covers]
  | cons token rest ih =>
    unfold covers coversEnds
    rw [ih]
    split <;> rfl

/-- The empty text has no shorter end. -/
theorem coversEnds_empty (tokens : List Token) :
    coversEnds [] tokens = [covers tokens []] := by
  induction tokens with
  | nil => rfl
  | cons token rest ih =>
    unfold covers coversEnds
    rw [ih]
    split <;> rfl

/-- Only the empty text is left for the end of a pattern. -/
theorem covers_nil (text : List Char) : covers [] text = text.isEmpty := by
  cases text <;> simp [covers, coversEnds]

/-- A part of any length takes nothing, or one more character. -/
theorem covers_stretch (token : Token) (rest : List Token) (c : Char) (text : List Char)
    (h : token.stretches = true) :
    covers (token :: rest) (c :: text) =
      (covers rest (c :: text) || covers (token :: rest) text) := by
  have hrow : coversEnds (c :: text) (token :: rest) =
      anyFurther (coversEnds (c :: text) rest) := by simp [coversEnds, h]
  have hnext : coversEnds text (token :: rest) = anyFurther (coversEnds text rest) := by
    simp [coversEnds, h]
  rw [covers, hrow, coversEnds_cons, covers.eq_1 (token :: rest) text, hnext]
  rfl

/-- A part for one character takes the first one. -/
theorem covers_single (token : Token) (rest : List Token) (c : Char) (text : List Char)
    (h : token.stretches = false) :
    covers (token :: rest) (c :: text) = (token.admits c && covers rest text) := by
  have hrow : coversEnds (c :: text) (token :: rest) =
      afterOne token (c :: text) (coversEnds (c :: text) rest) := by simp [coversEnds, h]
  rw [covers, hrow, coversEnds_cons]
  rfl

/-- A part of any length may stand for the empty text, and no other part does. -/
theorem covers_empty (token : Token) (rest : List Token) :
    covers (token :: rest) [] = (token.stretches && covers rest []) := by
  have hrow : coversEnds [] (token :: rest) =
      if token.stretches then anyFurther [covers rest []] else [false] := by
    rw [coversEnds, coversEnds_empty]
    rfl
  rw [covers, hrow]
  cases token.stretches <;> cases covers rest [] <;> rfl

/-- A part of any length takes some text, and the rest is left for the other parts. -/
theorem covers_stretch_iff {token : Token} {rest : List Token} {text : List Char}
    (h : token.stretches = true) :
    covers (token :: rest) text = true ↔
      ∃ taken after, text = taken ++ after ∧ covers rest after = true := by
  induction text with
  | nil =>
    rw [covers_empty, h, Bool.true_and]
    constructor
    · intro hrest
      exact ⟨[], [], rfl, hrest⟩
    · intro hsplit
      obtain ⟨taken, after, hempty, hrest⟩ := hsplit
      rw [(List.append_eq_nil_iff.1 hempty.symm).2] at hrest
      exact hrest
  | cons c text ih =>
    rw [covers_stretch token rest c text h, Bool.or_eq_true, ih]
    constructor
    · intro hcases
      obtain hrest | ⟨taken, after, rfl, hrest⟩ := hcases
      · exact ⟨[], c :: text, rfl, hrest⟩
      · exact ⟨c :: taken, after, rfl, hrest⟩
    · intro hsplit
      obtain ⟨taken, after, htext, hrest⟩ := hsplit
      cases taken with
      | nil =>
        rw [List.nil_append] at htext
        exact .inl (htext ▸ hrest)
      | cons first taken => exact .inr ⟨taken, after, (List.cons_eq_cons.1 htext).2, hrest⟩

/-- The texts that parts stand for, one behind the other: a part for one character
stands for those it admits, and a part of any length for every text. -/
inductive Matches : List Token → List Char → Prop where
  | nil : Matches [] []
  | single {token : Token} {c : Char} {rest : List Token} {text : List Char}
      (hadmits : token.admits c = true) (hrest : Matches rest text) :
      Matches (token :: rest) (c :: text)
  | stretch {token : Token} {rest : List Token} {text : List Char} (taken : List Char)
      (hstretches : token.stretches = true) (hrest : Matches rest text) :
      Matches (token :: rest) (taken ++ text)

theorem stretches_eq_false_of_admits {token : Token} {c : Char} (h : token.admits c = true) :
    token.stretches = false := by
  cases token <;> first | rfl | cases h

theorem matches_of_covers {tokens : List Token} {text : List Char}
    (h : covers tokens text = true) : Matches tokens text := by
  induction tokens generalizing text with
  | nil =>
    rw [covers_nil, List.isEmpty_iff] at h
    subst h
    exact .nil
  | cons token rest ih =>
    cases hstretches : token.stretches with
    | true =>
      obtain ⟨taken, after, rfl, hrest⟩ := (covers_stretch_iff hstretches).1 h
      exact .stretch taken hstretches (ih hrest)
    | false =>
      cases text with
      | nil =>
        rw [covers_empty, hstretches] at h
        cases h
      | cons c text =>
        rw [covers_single token rest c text hstretches, Bool.and_eq_true] at h
        exact .single h.1 (ih h.2)

theorem covers_of_matches {tokens : List Token} {text : List Char} (h : Matches tokens text) :
    covers tokens text = true := by
  induction h with
  | nil => rfl
  | single hadmits _ ih =>
    rw [covers_single _ _ _ _ (stretches_eq_false_of_admits hadmits), hadmits, ih]
    rfl
  | stretch taken hstretches _ ih =>
    exact (covers_stretch_iff hstretches).2 ⟨taken, _, rfl, ih⟩

/-- A pattern covers the texts that its parts stand for, and no others. -/
theorem covers_iff {tokens : List Token} {text : List Char} :
    covers tokens text = true ↔ Matches tokens text :=
  ⟨matches_of_covers, covers_of_matches⟩

example : Matches [.anyText, .char 'b'] ['b', 'a', 'b'] := covers_iff.1 (by decide)

end Glob

end ComponentProps
