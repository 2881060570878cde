import ComponentProps.Decimal.Reading
import ComponentProps.Json.Fault

/-!
# Reading JSON text

A `Reader` takes characters off the front of a text.  When it stops, it says
what is wrong, at which path and at which place, and leaves the text at the
point it had reached.

* `Reader.value`: one JSON value; what follows it is not looked at.
* `Reader.list`, `Reader.object`: a list or an object whose items are read by
  some other reader; each carries a result along from item to item.
* `Reader.skip`: passes over a value without building it, checking only what
  has to be checked to find its end.
* `Json.parse`: the value at the start of a text.

A list or object may be open inside at most 127 others.  Readers for values
therefore take the number of levels that are left, and recursion on values is
recursion on that number.  Loops over the characters of a string, the items of
a list and the members of an object take at least one character a round; their
`budget` is the text they start at, of which each round uses up one character.

A fault that arises between the brackets without a place of its own gets the
place where the text stands after the attempt to close the brackets.
-/

namespace ComponentProps

namespace Json

/-- Takes a value off the front of a text. -/
abbrev Reader := EStateM Fault (List Char)

namespace Reader

variable {α β : Type}

/-! ## Single characters -/

/-- The blanks between the tokens of a text. -/
def isBlank (c : Char) : Bool := c = ' ' || c = '\n' || c = '\t' || c = '\r'

/-- Stops with a flaw, `ahead` bytes from here. -/
def stop (flaw : Flaw) (ahead : Nat) : Reader α := do
  throw ⟨.flaw flaw, [], some ⟨← get, ahead⟩⟩

/-- Stops with a problem whose place is here. -/
def stopHere (problem : Problem) : Reader α := do
  throw ⟨problem, [], some ⟨← get, 0⟩⟩

/-- Passes over blanks. -/
def skipBlanks : Reader Unit := modify (·.dropWhile isBlank)

/-- The next character, which stays where it is. -/
def peek? : Reader (Option Char) := List.head? <$> get

/-- Takes one character. -/
def eat : Reader Unit := modify List.tail

/-- The first character of a value, which stays where it is. -/
def valueStart : Reader Char := do
  skipBlanks
  match ← peek? with
  | some c => pure c
  | none => stop .endInValue 1

/-- Runs a reader on a part of the value at hand. -/
def within (segment : Segment) (reader : Reader α) : Reader α := fun text =>
  match reader text with
  | .ok value rest => .ok value rest
  | .error fault rest => .error (fault.inside segment) rest

/-! ## Words -/

/-- Takes the characters of a word whose beginning has been recognised. -/
def word : List Char → Reader Unit
  | [] => pure ()
  | expected :: more => do
    match ← peek? with
    | none => stop .endInValue 0
    | some c =>
      if c = expected then
        eat
        word more
      else stop .expectedWord 1

/-! ## Strings -/

/-- The value of a hexadecimal digit. -/
def hexValue? (c : Char) : Option Nat :=
  if '0' ≤ c ∧ c ≤ '9' then some (c.toNat - '0'.toNat)
  else if 'a' ≤ c ∧ c ≤ 'f' then some (c.toNat - 'a'.toNat + 10)
  else if 'A' ≤ c ∧ c ≤ 'F' then some (c.toNat - 'A'.toNat + 10)
  else none

/-- The number that four hexadecimal digits spell. -/
def hexValues? : List Char → Option Nat
  | [a, b, c, d] => do
    pure (((← hexValue? a) * 16 + (← hexValue? b)) * 256 +
      ((← hexValue? c) * 16 + (← hexValue? d)))
  | _ => none

/-- Takes four hexadecimal digits.  Fewer than four bytes are the end of the
text, and anything else among the four is an invalid escape behind them. -/
def hexUnit : Reader Nat := do
  let digits := (← get).take 4
  if (bytesOf digits).length < 4 then
    set ([] : List Char)
    stop .endInText 0
  else
    match hexValues? digits with
    | none => stop .invalidEscape 4
    | some n =>
      modify (List.drop 4)
      pure n

/-- Takes the character that must continue a pair of surrogates. -/
def pairMark (expected : Char) : Reader Unit := do
  match ← peek? with
  | none => stop .endInText 0
  | some c => if c = expected then eat else stop .missingSecondSurrogate 1

/-- The character of a `\u` escape: one unit, or a leading and a trailing
surrogate in two escapes. -/
def unicodeEscape : Reader Char := do
  let first ← hexUnit
  if 0xdc00 ≤ first ∧ first ≤ 0xdfff then stop .unpairedSurrogate 0
  else if first < 0xd800 ∨ 0xdbff < first then pure (Char.ofNat first)
  else
    pairMark '\\'
    pairMark 'u'
    let second ← hexUnit
    if second < 0xdc00 ∨ 0xdfff < second then stop .unpairedSurrogate 0
    else pure (Char.ofNat ((first - 0xd800) * 0x400 + (second - 0xdc00) + 0x10000))

/-- The character that the letter of a short escape stands for. -/
def shortEscape? : Char → Option Char
  | '"' => some '"'
  | '\\' => some '\\'
  | '/' => some '/'
  | 'b' => some '\x08'
  | 'f' => some '\x0c'
  | 'n' => some '\n'
  | 'r' => some '\r'
  | 't' => some '\t'
  | _ => none

/-- The character of an escape whose backslash has been taken. -/
def escapeSequence : Reader Char := do
  match ← peek? with
  | none => stop .endInText 0
  | some 'u' =>
    eat
    unicodeEscape
  | some c =>
    match shortEscape? c with
    | none => stop .invalidEscape 1
    | some value =>
      eat
      pure value

/-- The next character of a string, or nothing at its closing quote. -/
def textUnit : Reader (Option Char) := do
  match ← peek? with
  | none => stop .endInText 0
  | some c =>
    if c = '"' then
      eat
      pure none
    else if c = '\\' then
      eat
      some <$> escapeSequence
    else if c.toNat < 0x20 then stop .controlCharacter 1
    else
      eat
      pure (some c)

/-- The characters up to the closing quote. -/
def textUnits (budget : List Char) : Reader (List Char) := do
  match ← textUnit with
  | none => pure []
  | some c =>
    match budget with
    | [] => pure [c]
    | _ :: budget => (c :: ·) <$> textUnits budget

/-- A string whose opening quote has been taken. -/
def textBody : Reader String := do
  String.ofList <$> textUnits (← get)

/-! ## Numbers -/

/-- Takes the decimal digits at the front of the text. -/
def digitRun : Reader (List Nat) := do
  let digits := (← get).takeWhile Char.isDigit
  modify (List.dropWhile Char.isDigit)
  pure (digits.map fun c => c.toNat - '0'.toNat)

/-- Appends digits to a significand while it stays below `2 ^ 64`; gives the
significand and the digits that are left. -/
def absorb : Nat → List Nat → Nat × List Nat
  | significand, [] => (significand, [])
  | significand, digit :: rest =>
    if significand * 10 + digit < Nat.pow 2 64 then absorb (significand * 10 + digit) rest
    else (significand, digit :: rest)

/-- The sign of a number applied to its magnitude. -/
def signed (negative : Bool) (magnitude : Float) : Number :=
  .real (if negative then -magnitude else magnitude)

/-- The double for a significand and a power of ten. -/
def scaled (negative : Bool) (significand : Nat) (exponent : Int) : Reader Number := do
  match Decimal.toFloat? significand exponent with
  | none => stop .numberOutOfRange 0
  | some magnitude => pure (signed negative magnitude)

/-- The digits of an exponent up to the first with which it would reach
`2 ^ 31`; nothing if there is no such digit. -/
def overflowAt? : Nat → List Nat → Option Nat
  | _, [] => none
  | exponent, digit :: rest =>
    if exponent * 10 + digit < Nat.pow 2 31 then
      (overflowAt? (exponent * 10 + digit) rest).map (· + 1)
    else some 1

/-- The exponent of a number and what it makes of the number, from the `e` on. -/
def exponentPart (negative : Bool) (significand : Nat) (start : Int) : Reader Number := do
  eat
  let negativeExponent ← do
    match ← peek? with
    | some '+' =>
      eat
      pure false
    | some '-' =>
      eat
      pure true
    | _ => pure false
  match ← peek? with
  | none => stop .endInValue 0
  | some c =>
    if c.isDigit then
      let text ← get
      let digits ← digitRun
      match overflowAt? 0 digits with
      | none =>
        let exponent : Nat := digits.foldl (fun n digit => n * 10 + digit) 0
        scaled negative significand
          (if negativeExponent then start - exponent else start + exponent)
      | some taken =>
        if significand ≠ 0 ∧ ¬ negativeExponent then
          set (text.drop taken)
          stop .numberOutOfRange 0
        else pure (signed negative 0)
    else stop .invalidNumber 1

/-- What follows the digits of a number that is not an integer any more. -/
def exponentOrEnd (negative : Bool) (significand : Nat) (exponent : Int) : Reader Number := do
  match ← peek? with
  | some 'e' | some 'E' => exponentPart negative significand exponent
  | _ => scaled negative significand exponent

/-- The fraction of a number, from the point on. -/
def fractionPart (negative : Bool) (significand : Nat) (exponent : Int) : Reader Number := do
  eat
  let digits ← digitRun
  if digits.isEmpty then
    match ← peek? with
    | some _ => stop .invalidNumber 1
    | none => stop .endInValue 1
  else
    let (significand, left) := absorb significand digits
    exponentOrEnd negative significand (exponent - (digits.length - left.length : Nat))

/-- A whole number without sign: an integer if it fits, otherwise a double. -/
def wholeNumber (negative : Bool) (magnitude : Nat) : Number :=
  if negative then
    if magnitude = 0 ∨ Nat.pow 2 63 < magnitude then .real (-magnitude.toUInt64.toFloat)
    else .integer (-magnitude)
  else .integer magnitude

/-- A number whose sign has been taken. -/
def unsignedNumber (negative : Bool) : Reader Number := do
  match ← peek? with
  | none => stop .endInValue 0
  | some c =>
    if ¬ c.isDigit then stop .invalidNumber 1
    else
      let digits ← if c = '0' then do eat; pure [0] else digitRun
      let (significand, left) := absorb 0 digits
      match ← peek? with
      | some '.' => fractionPart negative significand left.length
      | some 'e' | some 'E' => exponentPart negative significand left.length
      | next =>
        if c = '0' ∧ next.any Char.isDigit then stop .invalidNumber 1
        else if left.isEmpty then pure (wholeNumber negative significand)
        else scaled negative significand left.length

/-- A number, from its sign or first digit on. -/
def number : Reader Number := do
  if (← peek?) = some '-' then
    eat
    unsignedNumber true
  else unsignedNumber false

/-! ## Mismatches -/

/-- Takes the value at hand as far as a message describes it, and stops with a
mismatch. -/
def mismatch (expected : Expected) : Reader α := do
  let found ← do
    match ← peek? with
    | some 'n' =>
      eat
      word ['u', 'l', 'l']
      pure Found.null
    | some 't' =>
      eat
      word ['r', 'u', 'e']
      pure (Found.bool true)
    | some 'f' =>
      eat
      word ['a', 'l', 's', 'e']
      pure (Found.bool false)
    | some '"' =>
      eat
      Found.text <$> textBody
    | some '[' => pure Found.list
    | some '{' => pure Found.object
    | some c =>
      if c = '-' ∨ c.isDigit then Found.number <$> number else stop .expectedValue 1
    | none => stop .expectedValue 1
  stopHere (.mismatch found expected)

/-! ## Lists and objects -/

/-- Whether another item follows in a list; if so, the text is left at it. -/
def nextItem? (first : Bool) : Reader Bool := do
  skipBlanks
  match ← peek? with
  | none => stop .endInList 1
  | some ']' => pure false
  | some c =>
    if first then pure true
    else if c = ',' then
      eat
      skipBlanks
      match ← peek? with
      | none => stop .endInValue 1
      | some ']' => stop .trailingComma 1
      | some _ => pure true
    else stop .expectedListSeparator 1

/-- Takes the closing bracket of a list. -/
def closeList : Reader Unit := do
  skipBlanks
  match ← peek? with
  | none => stop .endInList 1
  | some ']' => eat
  | some ',' =>
    eat
    skipBlanks
    match ← peek? with
    | some ']' => stop .trailingComma 1
    | _ => stop .trailingCharacters 1
  | some _ => stop .trailingCharacters 1

/-- Whether another member follows in an object; if so, the text is left at the
quote of its key. -/
def nextMember? (first : Bool) : Reader Bool := do
  skipBlanks
  match ← peek? with
  | none => stop .endInObject 1
  | some '}' => pure false
  | some c =>
    if first then
      if c = '"' then pure true else stop .keyNotText 1
    else if c = ',' then
      eat
      skipBlanks
      match ← peek? with
      | none => stop .endInValue 1
      | some '"' => pure true
      | some '}' => stop .trailingComma 1
      | some _ => stop .keyNotText 1
    else stop .expectedObjectSeparator 1

/-- Goes to the quote of the key that an object must begin with.  An object
without any key lacks a value rather than a key. -/
def firstKey : Reader Unit := do
  skipBlanks
  match ← peek? with
  | none => stop .endInObject 1
  | some '"' => pure ()
  | some '}' => stop .expectedValue 1
  | some _ => stop .keyNotText 1

/-- Takes the closing brace of an object. -/
def closeObject : Reader Unit := do
  skipBlanks
  match ← peek? with
  | none => stop .endInObject 1
  | some '}' => eat
  | some ',' => stop .trailingComma 1
  | some _ => stop .trailingCharacters 1

/-- Takes the colon behind a key. -/
def colon : Reader Unit := do
  skipBlanks
  match ← peek? with
  | none => stop .endInObject 1
  | some ':' => eat
  | some _ => stop .expectedColon 1

/-- Reads what stands between brackets and then closes them.  If the inner
reader stops, the closing is still tried, and the fault gets the place where
that leaves the text, unless it has one. -/
def enclosed (body : Reader α) (close : Reader Unit) : Reader α := fun text =>
  match body text with
  | .ok value rest =>
    match close rest with
    | .ok _ rest => .ok value rest
    | .error fault rest => .error fault rest
  | .error fault rest =>
    match close rest with
    | .ok _ rest | .error _ rest => .error (fault.settle rest) rest

/-- The items of a list from the one at `position` on. -/
def items (item : Nat → β → Reader β) (budget : List Char) (position : Nat) (result : β) :
    Reader β := do
  if ← nextItem? (position == 0) then
    let result ← within (.index position) (item position result)
    match budget with
    | [] => pure result
    | _ :: budget => items item budget (position + 1) result
  else pure result

/-- A list, from its bracket on; nothing to read items with means that no level
is left. -/
def list (item : Option (Nat → β → Reader β)) (start : β) : Reader β := do
  match item with
  | none => stop .tooDeep 1
  | some item =>
    eat
    enclosed (items item (← get) 0 start) closeList

/-- The members of an object.  `refuse` may turn a key down before its value is
read. -/
def members (refuse : β → String → Option Problem) (member : String → β → Reader β)
    (budget : List Char) (first : Bool) (result : β) : Reader β := do
  if ← within .unknown (nextMember? first) then
    let key ← within .unknown (do eat; textBody)
    match refuse result key with
    | some problem => throw (Fault.here problem)
    | none =>
      colon
      let result ← within (.key key) (member key result)
      match budget with
      | [] => pure result
      | _ :: budget => members refuse member budget false result
  else pure result

/-- An object, from its brace on; nothing to read values with means that no
level is left. -/
def object (refuse : β → String → Option Problem)
    (member : Option (String → β → Reader β)) (start : β) : Reader β := do
  match member with
  | none => stop .tooDeep 1
  | some member =>
    eat
    enclosed (members refuse member (← get) true start) closeObject

/-! ## Values -/

/-- Any value, given a reader for what it contains. -/
def valueWith (inner : Option (Reader Json)) : Reader Json := do
  match ← valueStart with
  | 'n' =>
    eat
    word ['u', 'l', 'l']
    pure .null
  | 't' =>
    eat
    word ['r', 'u', 'e']
    pure (.bool true)
  | 'f' =>
    eat
    word ['a', 'l', 's', 'e']
    pure (.bool false)
  | '"' =>
    eat
    .text <$> textBody
  | '[' =>
    let read := inner.map fun reader _ items => (· :: items) <$> reader
    (fun items => .list items.reverse) <$> list read []
  | '{' =>
    let read := inner.map fun reader key members =>
      (fun value => (key, value) :: members) <$> reader
    (fun members => .object members.reverse) <$> object (fun _ _ => none) read []
  | c =>
    if c = '-' ∨ c.isDigit then .number <$> number else stop .expectedValue 1

/-- Any value, with `depth` levels of lists and objects to go. -/
def value : Nat → Reader Json
  | 0 => valueWith none
  | depth + 1 => valueWith (some (value depth))

end Reader

/-- The number of lists and objects that may be open at the same time. -/
def maxDepth : Nat := 127

/-- The value at the start of a text, with repeated keys resolved.  Text behind
the value is not looked at. -/
def parse (text : String) : Except DecodeError Json :=
  match Reader.value maxDepth text.toList with
  | .ok value _ => .ok value.distinct
  | .error fault _ => .error (DecodeError.ofFault text.toList fault)

end Json

end ComponentProps
