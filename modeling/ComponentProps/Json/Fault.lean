import ComponentProps.Json.Printer
import ComponentProps.Text.Escaped

/-!
# What can be wrong with a JSON document

A `Fault` is a problem together with the path to the value that has it.  The
problem is either a `Flaw` in the spelling of the text or a well-spelled value
that is not of the wanted form.  `DecodeError` is a fault as callers see it,
with the path as text and, for faults found while reading a text, a position.

* `pathText`: keys joined by dots, list positions in brackets, a lone dot for
  the root.
* `Position.after`: line and column of a place in a text, counted in bytes.
* `DecodeError.within`: the same error seen from a larger document.
-/

namespace ComponentProps

namespace Json

/-! ## Paths -/

/-- One step of the path from the root of a document to a value. -/
inductive Segment where
  | key (name : String)
  | index (position : Nat)
  /-- Somewhere in an object where no key is known yet. -/
  | unknown
deriving DecidableEq, Repr

/-- The steps of a path; `first` when no step has been written yet. -/
def segmentsText : Bool → List Segment → String
  | _, [] => ""
  | first, .key name :: rest => (if first then "" else ".") ++ name ++ segmentsText false rest
  | first, .unknown :: rest => (if first then "" else ".") ++ "?" ++ segmentsText false rest
  | _, .index position :: rest => "[" ++ toString position ++ "]" ++ segmentsText false rest

/-- A path as text.  Keys stand for themselves, so an empty key leaves no
trace but its dot. -/
def pathText (path : List Segment) : String :=
  if path.isEmpty then "." else segmentsText true path

/-! ## Positions -/

/-- A place in a text: the line, counted from one, and the number of bytes
between the start of the line and the place. -/
structure Position where
  line : Nat
  column : Nat
deriving DecidableEq, Repr

/-- The position one byte further on. -/
def Position.step (position : Position) (byte : UInt8) : Position :=
  if byte = 10 then ⟨position.line + 1, 0⟩ else ⟨position.line, position.column + 1⟩

/-- The position behind some bytes. -/
def Position.after (bytes : List UInt8) : Position :=
  bytes.foldl Position.step ⟨1, 0⟩

/-- A place while reading: the text that is still unread there, and how many
bytes of it the place is ahead. -/
structure Mark where
  rest : List Char
  ahead : Nat
deriving DecidableEq, Repr

/-- The bytes of a text in UTF-8. -/
def bytesOf (text : List Char) : List UInt8 := text.flatMap String.utf8EncodeChar

/-- The position of a place in a text, never behind the end of the text. -/
def Mark.position (text : List Char) (mark : Mark) : Position :=
  let bytes := bytesOf text
  Position.after (bytes.take (bytes.length - (bytesOf mark.rest).length + mark.ahead))

/-! ## Problems -/

/-- A flaw in the spelling of a JSON text. -/
inductive Flaw where
  | endInValue
  | endInList
  | endInObject
  | endInText
  | expectedValue
  | expectedWord
  | expectedColon
  | expectedListSeparator
  | expectedObjectSeparator
  | keyNotText
  | trailingComma
  | trailingCharacters
  | invalidNumber
  | numberOutOfRange
  | invalidEscape
  | controlCharacter
  | unpairedSurrogate
  | missingSecondSurrogate
  | tooDeep
deriving DecidableEq, Repr

/-- The words for a flaw. -/
def Flaw.message : Flaw → String
  | .endInValue => "EOF while parsing a value"
  | .endInList => "EOF while parsing a list"
  | .endInObject => "EOF while parsing an object"
  | .endInText => "EOF while parsing a string"
  | .expectedValue => "expected value"
  | .expectedWord => "expected ident"
  | .expectedColon => "expected `:`"
  | .expectedListSeparator => "expected `,` or `]`"
  | .expectedObjectSeparator => "expected `,` or `\x7d`"
  | .keyNotText => "key must be a string"
  | .trailingComma => "trailing comma"
  | .trailingCharacters => "trailing characters"
  | .invalidNumber => "invalid number"
  | .numberOutOfRange => "number out of range"
  | .invalidEscape => "invalid escape"
  | .controlCharacter => "control character (\\u0000-\\u001F) found while parsing a string"
  | .unpairedSurrogate => "lone leading surrogate in hex escape"
  | .missingSecondSurrogate => "unexpected end of hex escape"
  | .tooDeep => "recursion limit exceeded"

/-- A value of the wrong form, as far as a message describes it. -/
inductive Found where
  | null
  | bool (value : Bool)
  | number (value : Number)
  | text (value : String)
  | list
  | object

/-- What a message says about a value. -/
def foundOf : Json → Found
  | .null => .null
  | .bool value => .bool value
  | .number value => .number value
  | .text value => .text value
  | .list _ => .list
  | .object _ => .object

/-- The words for a value of the wrong form. -/
def Found.description : Found → String
  | .null => "null"
  | .bool value => "boolean `" ++ (if value then "true" else "false") ++ "`"
  | .number (.integer value) => "integer `" ++ String.ofList (integerText value) ++ "`"
  | .number (.real value) => "floating point `" ++ String.ofList (realText value) ++ "`"
  | .text value => "string " ++ Text.shown value
  | .list => "sequence"
  | .object => "map"

/-- A form that a value was expected to have. -/
inductive Expected where
  | text
  | bool
  | object
  | list
  | unit
  /-- A record, by the name of its type. -/
  | record (name : String)
  /-- One of several names, as a string or as the key of an object. -/
  | variant
deriving DecidableEq, Repr

/-- The words for an expected form. -/
def Expected.description : Expected → String
  | .text => "a string"
  | .bool => "a boolean"
  | .object => "a map"
  | .list => "a sequence"
  | .unit => "unit"
  | .record name => "struct " ++ name
  | .variant => "string or map"

/-- Why a value could not be decoded. -/
inductive Problem where
  | flaw (cause : Flaw)
  | mismatch (found : Found) (expected : Expected)
  /-- No alternative of a type that has several forms fits. -/
  | noAlternative (type : String)
  | unknownVariant (name : String) (known : List String)
  | notSingleKey
  | duplicateField (name : String)
  /-- A list of this many items where a record has fewer fields. -/
  | tooManyItems (length : Nat)

/-- The words for a problem, without its place. -/
def Problem.message : Problem → String
  | .flaw cause => cause.message
  | .mismatch found expected =>
    "invalid type: " ++ found.description ++ ", expected " ++ expected.description
  | .noAlternative type => "data did not match any variant of untagged enum " ++ type
  | .unknownVariant name known =>
    "unknown variant `" ++ name ++ "`, expected one of " ++
      String.intercalate ", " (known.map fun known => "`" ++ known ++ "`")
  | .notSingleKey => "invalid value: map, expected map with a single key"
  | .duplicateField name => "duplicate field `" ++ name ++ "`"
  | .tooManyItems length =>
    "invalid length " ++ toString length ++ ", expected fewer elements in array"

/-- A problem, the path to the value that has it, and the place in the text
once that is settled. -/
structure Fault where
  problem : Problem
  path : List Segment
  mark : Option Mark

/-- A problem of the value at hand, with no place. -/
def Fault.here (problem : Problem) : Fault := ⟨problem, [], none⟩

/-- The same fault, seen from the value that holds the faulty one. -/
def Fault.inside (segment : Segment) (fault : Fault) : Fault :=
  { fault with path := segment :: fault.path }

/-- Settles the place of a fault that has none yet. -/
def Fault.settle (rest : List Char) (fault : Fault) : Fault :=
  { fault with mark := some (fault.mark.getD ⟨rest, 0⟩) }

/-- Runs a decoder on a part of a value. -/
def within {α : Type} (segment : Segment) : Except Fault α → Except Fault α
  | .ok value => .ok value
  | .error fault => .error (fault.inside segment)

/-! ## Errors -/

/-- Why a document could not be loaded. -/
inductive DecodeError where
  | decode (path : String) (problem : Problem) (position : Option Position)
  /-- A pointer to a part that is not there. -/
  | pointer (target : String)

/-- The words for a problem with its place, if it has one. -/
def placedMessage (problem : Problem) : Option Position → String
  | none => problem.message
  | some position =>
    problem.message ++ " at line " ++ toString position.line ++
      " column " ++ toString position.column

/-- The full text of an error. -/
def DecodeError.message : DecodeError → String
  | .decode path problem position =>
    "at JSON path " ++ path ++ " → " ++ placedMessage problem position
  | .pointer target => "JSON pointer `" ++ target ++ "` selects nothing"

/-- The error of a fault found in a text. -/
def DecodeError.ofFault (text : List Char) (fault : Fault) : DecodeError :=
  .decode (pathText fault.path) fault.problem (fault.mark.map (Mark.position text))

/-- The same error, seen from a document in which this one stands at
`location`. -/
def DecodeError.within (location : String) : DecodeError → DecodeError
  | .decode path problem position =>
    .decode (if path = "." then location else location ++ "." ++ path) problem position
  | .pointer target => .pointer target

end Json

end ComponentProps
