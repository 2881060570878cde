import ComponentProps.Json.Reader

/-!
# Passing over JSON values

`Reader.skip` finds the end of a value that nobody wants.  It keeps the list of
the brackets that are open instead of building anything, so it knows no limit
on depth.  It is also more lenient than `Reader.value`: numbers may be out of
range and surrogates unpaired.  Where both refuse a text they may name
different flaws, since a skipped value is not told apart from its separators
so finely.
-/

namespace ComponentProps

namespace Json

namespace Reader

/-- A bracket that is open. -/
inductive Bracket where
  | list
  | object
deriving DecidableEq, Repr

/-- Passes over the digits of an exponent, from the `e` on. -/
def skipExponent : Reader Unit := do
  eat
  match ← peek? with
  | some '+' | some '-' => eat
  | _ => pure ()
  if (← digitRun).isEmpty then stop .invalidNumber 1

/-- Passes over what may follow the whole part of a number. -/
def skipExponentOrEnd : Reader Unit := do
  match ← peek? with
  | some 'e' | some 'E' => skipExponent
  | _ => pure ()

/-- Passes over a number whose sign has been taken. -/
def skipNumber : Reader Unit := do
  match ← peek? with
  | some '0' =>
    eat
    if (← peek?).any Char.isDigit then stop .invalidNumber 1
  | _ =>
    if (← digitRun).isEmpty then stop .invalidNumber 1
  match ← peek? with
  | some '.' =>
    eat
    if (← digitRun).isEmpty then stop .invalidNumber 1
    skipExponentOrEnd
  | _ => skipExponentOrEnd

/-- Passes over the next character of a string, or over its closing quote; says
whether the string goes on. -/
def skipTextUnit : Reader Bool := do
  match ← peek? with
  | none => stop .endInText 0
  | some '"' =>
    eat
    pure false
  | some '\\' =>
    eat
    match ← peek? with
    | none => stop .endInText 0
    | some 'u' =>
      eat
      let _ ← hexUnit
    | some c => if (shortEscape? c).isSome then eat else stop .invalidEscape 1
    pure true
  | some c =>
    if c.toNat < 0x20 then stop .controlCharacter 0
    else
      eat
      pure true

/-- Passes over the rest of a string. -/
def skipTextUnits (budget : List Char) : Reader Unit := do
  if ← skipTextUnit then
    match budget with
    | [] => pure ()
    | _ :: budget => skipTextUnits budget

/-- Passes over a string whose opening quote has been taken. -/
def skipText : Reader Unit := do
  skipTextUnits (← get)

/-- Passes over a value that holds no others, if there is one; otherwise takes
the opening bracket. -/
def skipScalar : Reader (Option Bracket) := do
  match ← valueStart with
  | 'n' =>
    eat
    word ['u', 'l', 'l']
    pure none
  | 't' =>
    eat
    word ['r', 'u', 'e']
    pure none
  | 'f' =>
    eat
    word ['a', 'l', 's', 'e']
    pure none
  | '"' =>
    eat
    skipText
    pure none
  | '[' =>
    eat
    pure (some .list)
  | '{' =>
    eat
    pure (some .object)
  | '-' =>
    eat
    skipNumber
    pure none
  | c =>
    if c.isDigit then
      skipNumber
      pure none
    else stop .expectedValue 1

/-- Passes over the key and the colon in front of a value of an object. -/
def skipKey : Reader Unit := do
  skipBlanks
  match ← peek? with
  | none => stop .endInObject 1
  | some '"' => eat
  | some _ => stop .keyNotText 1
  skipText
  colon

/-- Closes the brackets that end here and goes on to the next value in the
innermost one that does not; gives the brackets that are still open there.
`separated` says whether a comma has to stand in front of the value. -/
def skipToValue : Bool → List Bracket → Reader (List Bracket)
  | _, [] => pure []
  | separated, bracket :: opened => do
    skipBlanks
    match ← peek?, bracket with
    | some ']', .list | some '}', .object =>
      eat
      skipToValue true opened
    | none, .list => stop .endInList 1
    | none, .object => stop .endInObject 1
    | some c, bracket =>
      if separated then
        if c = ',' then eat
        else stop (if bracket = .list then .expectedListSeparator else .expectedObjectSeparator) 1
      if bracket = .object then skipKey
      pure (bracket :: opened)

/-- Goes from one value to the next until no bracket is open any more. -/
def skipOpen (budget : List Char) (opened : List Bracket) : Reader Unit := do
  let opened ← do
    match ← skipScalar with
    | some bracket => skipToValue false (bracket :: opened)
    | none => skipToValue true opened
  if ¬ opened.isEmpty then
    match budget with
    | [] => pure ()
    | _ :: budget => skipOpen budget opened

/-- Passes over one value. -/
def skip : Reader Unit := do
  skipOpen (← get) []

end Reader

end Json

end ComponentProps
