import ComponentProps.Proofs.Json.Reading

/-!
# What the readers of words, strings and numbers take

Every reader of a part of a value takes a text of that part, in the sense of the
grammar, and depends on one character behind it at most.

* `Reader.takes_word`: the rest of a word.
* `Reader.takes_textBody`: strings.
* `Reader.takes_number`: numbers.

A string is read by a loop over its characters, so the grammar of strings is
met here as what a round adds in front of the text of any string.
-/

namespace ComponentProps

namespace Json

namespace Reader

open Grammar

/-! ## Tokens -/

theorem takes_word (expected : List Char) (next : Option Char) :
    Takes .ahead next (word expected) fun taken _ _ => taken = expected := by
  induction expected generalizing next with
  | nil => exact Takes.pure rfl
  | cons c more ih =>
    apply Takes.peek
    cases next with
    | none => exact Takes.stop
    | some c' =>
      by_cases hc : c' = c
      · simp only [hc, if_true]
        apply Takes.eat
        intro after
        refine (ih after).mono ?_
        intro taken _ _ htaken
        rw [htaken]
      · simp only [hc, if_false]
        exact Takes.stop

/-! ## Strings -/

theorem isHexDigit_of_hexValue? {c : Char} {value : Nat} (h : hexValue? c = some value) :
    IsHexDigit c := by
  unfold hexValue? at h
  split at h
  · next hdigit => exact .inl hdigit
  · split at h
    · next hlower => exact .inr (.inl hlower)
    · split at h
      · next hupper => exact .inr (.inr hupper)
      · cases h

theorem hexDigits_of_hexValues? {digits : List Char} {value : Nat}
    (h : hexValues? digits = some value) : HexDigits digits := by
  match digits, h with
  | [a, b, c, d], h =>
    simp only [hexValues?, Option.bind_eq_bind, Option.bind_eq_some_iff] at h
    obtain ⟨va, ha, vb, hb, vc, hc, vd, hd, -⟩ := h
    refine ⟨rfl, ?_⟩
    intro x hx
    simp only [List.mem_cons, List.not_mem_nil, or_false] at hx
    rcases hx with rfl | rfl | rfl | rfl
    · exact isHexDigit_of_hexValue? ha
    · exact isHexDigit_of_hexValue? hb
    · exact isHexDigit_of_hexValue? hc
    · exact isHexDigit_of_hexValue? hd

theorem hexUnit_eq_ok_iff {text rest : List Char} {value : Nat} :
    hexUnit text = .ok value rest ↔ 4 ≤ (bytesOf (text.take 4)).length ∧
      hexValues? (text.take 4) = some value ∧ rest = text.drop 4 := by
  show (if (bytesOf (text.take 4)).length < 4 then _ else _ : Reader Nat) text = _ ↔ _
  split
  · next hshort =>
    constructor
    · intro h
      cases h
    · intro h
      omega
  · next hlong =>
    cases hvalues : hexValues? (text.take 4) with
    | none =>
      constructor
      · intro h
        cases h
      · intro h
        simp at h
    | some value' =>
      constructor
      · intro h
        cases h
        exact ⟨by omega, rfl, rfl⟩
      · intro h
        obtain ⟨-, hsome, rfl⟩ := h
        cases hsome
        rfl

theorem takes_hexUnit (next : Option Char) :
    Takes .ahead next hexUnit fun taken _ _ => HexDigits taken := by
  intro text value rest _ hrun
  obtain ⟨hbytes, hvalues, rfl⟩ := hexUnit_eq_ok_iff.mp hrun
  have hdigits := hexDigits_of_hexValues? hvalues
  refine ⟨text.take 4, (List.take_append_drop 4 text).symm, nofun, hdigits, ?_⟩
  intro tail _
  have htake : (text.take 4 ++ tail).take 4 = text.take 4 := List.take_left' hdigits.1
  have hdrop : (text.take 4 ++ tail).drop 4 = tail := List.drop_left' hdigits.1
  rw [hexUnit_eq_ok_iff, htake, hdrop]
  exact ⟨hbytes, hvalues, rfl⟩

theorem takes_pairMark (expected : Char) (next : Option Char) :
    Takes .ahead next (pairMark expected) fun taken _ _ => taken = [expected] := by
  apply Takes.peek
  cases next with
  | none => exact Takes.stop
  | some c =>
    by_cases hc : c = expected
    · simp only [hc, if_true]
      exact takes_eat.ahead
    · simp only [hc, if_false]
      exact Takes.stop

/-- One escape, or two escapes that make up one character. -/
theorem takes_unicodeEscape (next : Option Char) :
    Takes .ahead next unicodeEscape fun taken _ _ =>
      ∀ rest, TextBody rest → TextBody ('\\' :: 'u' :: (taken ++ rest)) := by
  refine (takes_hexUnit next).bind ?_
  intro digits first after hdigits
  split
  · exact Takes.stop
  split
  · apply Takes.pure
    intro rest hrest
    rw [List.append_nil]
    exact .unicode hdigits hrest
  refine (takes_pairMark '\\' after).bind ?_
  intro mark _ after hmark
  refine (takes_pairMark 'u' after).bind ?_
  intro mark' _ after hmark'
  refine (takes_hexUnit after).bind ?_
  intro digits' second after hdigits'
  split
  · exact Takes.stop
  · apply Takes.pure
    intro rest hrest
    subst hmark hmark'
    simp only [List.append_assoc, List.append_nil, List.cons_append, List.nil_append]
    exact .unicode hdigits (.unicode hdigits' hrest)

theorem mem_escapeLetters {c value : Char} (h : shortEscape? c = some value) :
    c ∈ escapeLetters := by
  unfold shortEscape? at h
  split at h <;> first | decide | cases h

theorem takes_escapeSequence (next : Option Char) :
    Takes .ahead next escapeSequence fun taken _ _ =>
      ∀ rest, TextBody rest → TextBody ('\\' :: (taken ++ rest)) := by
  apply Takes.peek
  split
  · exact Takes.stop
  · apply Takes.eat
    intro after
    exact takes_unicodeEscape after
  · next c _ =>
    cases hvalue : shortEscape? c with
    | none => exact Takes.stop
    | some value =>
      apply Takes.eat
      intro after
      apply Takes.pure
      intro rest hrest
      exact .escape (mem_escapeLetters hvalue) hrest

/-- The closing quote, or some characters that stand for one. -/
theorem takes_textUnit (next : Option Char) :
    Takes .ahead next textUnit fun taken unit _ =>
      match unit with
      | none => taken = ['"']
      | some _ => taken ≠ [] ∧ ∀ rest, TextBody rest → TextBody (taken ++ rest) := by
  apply Takes.peek
  cases next with
  | none => exact Takes.stop
  | some c =>
    by_cases hquote : c = '"'
    · subst hquote
      apply Takes.eat
      intro after
      exact Takes.pure rfl
    by_cases hslash : c = '\\'
    · subst hslash
      apply Takes.eat
      intro after
      apply Takes.map
      refine (takes_escapeSequence after).mono ?_
      intro taken _ _ htaken
      exact ⟨by simp, htaken⟩
    simp only [hquote, hslash, if_false]
    split
    · exact Takes.stop
    · next hcontrol =>
      apply Takes.eat
      intro after
      apply Takes.pure
      refine ⟨by simp, ?_⟩
      intro rest hrest
      exact .plain hquote hslash (by omega) hrest

/-- One round of `textUnits`. -/
def textRound (_ : Unit) : Reader (Sum (List Char) Char) := do
  match ← textUnit with
  | none => pure (.inl [])
  | some c => pure (.inr c)

theorem isLoop_textUnits :
    IsLoop (fun budget _ => textUnits budget) textRound (fun _ => ()) (fun c rest => c :: rest)
      (fun c => [c]) := by
  intro budget state
  conv_lhs => unfold textUnits
  unfold textRound
  rw [bind_assoc]
  refine bind_congr ?_
  intro unit
  cases unit with
  | none => rfl
  | some c => cases budget <;> rfl

theorem stepTakes_textRound :
    StepTakes textRound (fun _ => ()) (fun c rest => c :: rest)
      (fun _ taken _ => TextBody taken) := by
  intro state next
  refine (takes_textUnit next).bind ?_
  intro taken unit after hunit
  cases unit with
  | none =>
    apply Takes.pure
    obtain rfl : taken = ['"'] := hunit
    exact .close
  | some c =>
    apply Takes.pure
    rw [List.append_nil]
    exact ⟨hunit.1, fun rest _ hrest => hunit.2 rest hrest⟩

/-- A string behind its opening quote. -/
theorem takes_textBody (next : Option Char) :
    Takes .ahead next textBody fun taken _ _ => TextBody taken := by
  have hunits := Takes.of_loop isLoop_textUnits stepTakes_textRound () next
  have hbody : Takes .ahead next (String.ofList <$> (get >>= textUnits)) fun taken _ _ =>
      TextBody taken := hunits.map
  refine hbody.congr ?_
  intro text value rest
  rfl

/-! ## Numbers -/

theorem takes_scaled {negative : Bool} {significand : Nat} {exponent : Int}
    {next : Option Char} : Takes .ahead next (scaled negative significand exponent) fun taken _ _ =>
      taken = [] := by
  unfold scaled
  split
  · exact Takes.stop
  · exact Takes.pure rfl

/-- At least one digit, where a digit is next. -/
theorem takes_digitRun_of_isDigit {c : Char} (hc : c.isDigit = true) :
    Takes .ahead (some c) digitRun fun taken _ _ => Digits taken ∧ taken.head? = some c := by
  refine takes_digitRun.mono ?_
  intro taken digits after htaken
  obtain ⟨hdigits, -, hhead, -⟩ := htaken
  rw [Option.filter_some, if_pos hc] at hhead
  refine ⟨⟨?_, hdigits⟩, hhead⟩
  intro hnil
  rw [hnil] at hhead
  cases hhead

/-- The digits of an exponent, behind its sign. -/
def exponentDigits (negative : Bool) (significand : Nat) (start : Int)
    (negativeExponent : Bool) : Reader Number := do
  match ← peek? with
  | none => stop .endInValue 0
  | some c =>
    if c.isDigit then
      let text ← get
      let digits ← digitRun
      match overflowAt? 0 digits with
      | none =>
        let exponent : Nat := digits.foldl (fun n digit => n * 10 + digit) 0
        scaled negative significand
          (if negativeExponent then start - exponent else start + exponent)
      | some taken =>
        if significand ≠ 0 ∧ ¬ negativeExponent then
          set (text.drop taken)
          stop .numberOutOfRange 0
        else pure (signed negative 0)
    else stop .invalidNumber 1

theorem exponentPart_eq (negative : Bool) (significand : Nat) (start : Int) :
    exponentPart negative significand start = (do
      eat
      match ← peek? with
      | some '+' =>
        eat
        exponentDigits negative significand start false
      | some '-' =>
        eat
        exponentDigits negative significand start true
      | _ => exponentDigits negative significand start false) := rfl

theorem takes_exponentDigits {negative : Bool} {significand : Nat} {start : Int}
    {negativeExponent : Bool} {next : Option Char} :
    Takes .ahead next (exponentDigits negative significand start negativeExponent) fun taken _ _ =>
      Digits taken := by
  apply Takes.peek
  cases next with
  | none => exact Takes.stop
  | some c =>
    by_cases hc : c.isDigit = true
    · simp only [hc, if_true]
      apply Takes.look
      · intro text
        refine (takes_digitRun_of_isDigit hc).bind ?_
        intro taken digits after htaken
        split
        · refine takes_scaled.mono ?_
          intro more _ _ hmore
          rw [hmore, List.append_nil]
          exact htaken.1
        · split
          · intro text value rest _ hrun
            cases hrun
          · apply Takes.pure
            rw [List.append_nil]
            exact htaken.1
      -- the text is looked at for the place of a fault only
      · intro text text' input value rest hrun
        obtain ⟨digits, middle, hdigits, hrest⟩ := bind_eq_ok_iff.mp hrun
        refine bind_eq_ok_iff.mpr ⟨digits, middle, hdigits, ?_⟩
        cases hoverflow : overflowAt? 0 digits with
        | none => simpa only [hoverflow] using hrest
        | some count =>
          simp only [hoverflow] at hrest ⊢
          split at hrest
          · cases hrest
          · next hfits =>
            rw [if_neg hfits]
            exact hrest
    · simp only [hc]
      exact Takes.stop

theorem takes_exponentPart {negative : Bool} {significand : Nat} {start : Int} {c : Char}
    (hc : c = 'e' ∨ c = 'E') :
    Takes .ahead (some c) (exponentPart negative significand start) fun taken _ _ =>
      Exponent taken := by
  rw [exponentPart_eq]
  apply Takes.eat
  intro next
  apply Takes.peek
  split
  · apply Takes.eat
    intro after
    refine takes_exponentDigits.mono ?_
    intro digits _ _ hdigits
    have hsign : (['+'] : List Char) ∈ [[], ['+'], ['-']] := by decide
    exact .present hc hsign hdigits
  · apply Takes.eat
    intro after
    refine takes_exponentDigits.mono ?_
    intro digits _ _ hdigits
    have hsign : (['-'] : List Char) ∈ [[], ['+'], ['-']] := by decide
    exact .present hc hsign hdigits
  · refine takes_exponentDigits.mono ?_
    intro digits _ _ hdigits
    have hsign : ([] : List Char) ∈ [[], ['+'], ['-']] := by decide
    exact .present hc hsign hdigits

theorem takes_exponentOrEnd {negative : Bool} {significand : Nat} {exponent : Int}
    {next : Option Char} :
    Takes .ahead next (exponentOrEnd negative significand exponent) fun taken _ _ =>
      Exponent taken := by
  apply Takes.peek
  split
  · exact takes_exponentPart (.inl rfl)
  · exact takes_exponentPart (.inr rfl)
  · refine takes_scaled.mono ?_
    intro taken _ _ htaken
    rw [htaken]
    exact .absent

theorem takes_fractionPart {negative : Bool} {significand : Nat} {exponent : Int} :
    Takes .ahead (some '.') (fractionPart negative significand exponent) fun taken _ _ =>
      ∃ fraction tail, taken = fraction ++ tail ∧ Fraction fraction ∧ Exponent tail := by
  apply Takes.eat
  intro next
  refine takes_digitRun.bind ?_
  intro taken digits after htaken
  obtain ⟨hdigits, -, -, hlength⟩ := htaken
  split
  · apply Takes.peek
    split
    · exact Takes.stop
    · exact Takes.stop
  · next hne =>
    have htaken : Digits taken := by
      refine ⟨?_, hdigits⟩
      intro hnil
      rw [hnil, List.length_nil, List.length_eq_zero_iff] at hlength
      exact hne (by rw [hlength]; rfl)
    refine takes_exponentOrEnd.mono ?_
    intro tail _ _ htail
    exact ⟨'.' :: taken, tail, rfl, .present htaken, htail⟩

/-- What follows the whole part of a number. -/
def numberTail (negative : Bool) (c : Char) (digits : List Nat) : Reader Number :=
  let (significand, left) := absorb 0 digits
  do
    match ← peek? with
    | some '.' => fractionPart negative significand left.length
    | some 'e' | some 'E' => exponentPart negative significand left.length
    | next =>
      if c = '0' ∧ next.any Char.isDigit then stop .invalidNumber 1
      else if left.isEmpty then pure (wholeNumber negative significand)
      else scaled negative significand left.length

theorem unsignedNumber_eq (negative : Bool) :
    unsignedNumber negative = (do
      match ← peek? with
      | none => stop .endInValue 0
      | some c =>
        if ¬ c.isDigit then stop .invalidNumber 1
        else if c = '0' then
          eat
          numberTail negative c [0]
        else
          let digits ← digitRun
          numberTail negative c digits) := rfl

theorem takes_numberTail {negative : Bool} {c : Char} {digits : List Nat}
    {next : Option Char} :
    Takes .ahead next (numberTail negative c digits) fun taken _ _ =>
      ∃ fraction tail, taken = fraction ++ tail ∧ Fraction fraction ∧ Exponent tail := by
  apply Takes.peek
  split
  · exact takes_fractionPart
  · refine (takes_exponentPart (.inl rfl)).mono ?_
    intro taken _ _ htaken
    exact ⟨[], taken, rfl, .absent, htaken⟩
  · refine (takes_exponentPart (.inr rfl)).mono ?_
    intro taken _ _ htaken
    exact ⟨[], taken, rfl, .absent, htaken⟩
  · split
    · exact Takes.stop
    split
    · exact Takes.pure ⟨[], [], rfl, .absent, .absent⟩
    · refine takes_scaled.mono ?_
      intro taken _ _ htaken
      exact ⟨[], [], htaken, .absent, .absent⟩

theorem takes_unsignedNumber {negative : Bool} {next : Option Char} :
    Takes .ahead next (unsignedNumber negative) fun taken _ _ => Unsigned taken := by
  rw [unsignedNumber_eq]
  apply Takes.peek
  cases next with
  | none => exact Takes.stop
  | some c =>
    by_cases hdigit : c.isDigit = true
    swap
    · simp only [hdigit]
      exact Takes.stop
    simp only [hdigit, not_true_eq_false, if_false]
    split
    · next hzero =>
      subst hzero
      apply Takes.eat
      intro after
      refine takes_numberTail.mono ?_
      intro taken _ _ htaken
      obtain ⟨fraction, tail, rfl, hfraction, htail⟩ := htaken
      have hwhole : WholePart ['0'] := ⟨⟨by simp, by simp [hdigit]⟩, fun _ => rfl⟩
      exact .parts hwhole hfraction htail
    · next hzero =>
      refine (takes_digitRun_of_isDigit hdigit).bind ?_
      intro whole digits after hwhole
      refine takes_numberTail.mono ?_
      intro taken _ _ htaken
      obtain ⟨fraction, tail, rfl, hfraction, htail⟩ := htaken
      refine .parts ⟨hwhole.1, ?_⟩ hfraction htail
      intro hhead
      rw [hwhole.2] at hhead
      exact absurd (Option.some.inj hhead) hzero

theorem takes_number (next : Option Char) :
    Takes .ahead next number fun taken _ _ => Grammar.Number taken := by
  apply Takes.peek
  split
  · next hminus =>
    subst hminus
    apply Takes.eat
    intro after
    refine takes_unsignedNumber.mono ?_
    intro taken _ _ htaken
    exact .negative htaken
  · refine takes_unsignedNumber.mono ?_
    intro taken _ _ htaken
    exact .positive htaken

end Reader

end Json

end ComponentProps
