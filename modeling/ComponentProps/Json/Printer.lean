import ComponentProps.Decimal.Shortest
import ComponentProps.Json.Value
import ComponentProps.Text.Quoted

/-!
# Writing JSON

Two layouts of a JSON value: `Json.compact` without any blank, and
`Json.pretty` with one item or member on a line and two spaces of indentation
a level.  Empty lists and objects stay on one line in both.

Doubles are written with the fewest digits that read back, with a point even
when they are whole, and with an exponent from `10 ^ 16` on and below
`10 ^ -5`.  Half way between two such texts the one with the even last digit is
taken.

Every layout is written in front of a text that follows it, so that the parts of
a value are put together without being copied again.
-/

namespace ComponentProps

namespace Json

/-! ## Numbers -/

/-- The magnitude of a finite double. -/
def magnitudeText (x : Float) : List Char :=
  if Decimal.significand x = 0 then ['0', '.', '0']
  else
    let d := Decimal.shortest .even x
    if d.point ≤ -5 ∨ 16 < d.point then d.scientific
    else if 0 ≤ d.exponent then d.positional ++ ['.', '0']
    else d.positional

/-- A double as JSON and messages write it.  JSON has no word for what is not
finite. -/
def realText (x : Float) : List Char :=
  if x.isNaN || x.isInf then "null".toList
  else if Decimal.isNegative x then '-' :: magnitudeText x
  else magnitudeText x

/-- A whole number. -/
def integerText (n : Int) : List Char :=
  if n < 0 then '-' :: Nat.toDigits 10 n.natAbs else Nat.toDigits 10 n.natAbs

/-- A JSON number. -/
def Number.chars : Number → List Char
  | .integer value => integerText value
  | .real value => realText value

/-! ## Compact layout -/

mutual

/-- A JSON value without blanks, in front of `rest`. -/
def compactChars : Json → List Char → List Char
  | .null, rest => "null".toList ++ rest
  | .bool value, rest => (if value then "true" else "false").toList ++ rest
  | .number value, rest => value.chars ++ rest
  | .text value, rest => (Text.quote value).toList ++ rest
  | .list items, rest => '[' :: compactItems items (']' :: rest)
  | .object members, rest => '{' :: compactMembers members ('}' :: rest)

/-- The items of a list, separated by commas, in front of `rest`. -/
def compactItems : List Json → List Char → List Char
  | [], rest => rest
  | [item], rest => item.compactChars rest
  | item :: next :: others, rest => item.compactChars (',' :: compactItems (next :: others) rest)

/-- The members of an object, separated by commas, in front of `rest`. -/
def compactMembers : List (String × Json) → List Char → List Char
  | [], rest => rest
  | [(key, value)], rest => (Text.quote key).toList ++ ':' :: value.compactChars rest
  | (key, value) :: next :: others, rest =>
    (Text.quote key).toList ++ ':' ::
      value.compactChars (',' :: compactMembers (next :: others) rest)

end

/-- The compact text of a JSON value. -/
def compact (value : Json) : String := String.ofList (value.compactChars [])

/-! ## Pretty layout -/

/-- A line break and the indentation of a level. -/
def newline (level : Nat) : List Char := '\n' :: List.replicate (2 * level) ' '

mutual

/-- A JSON value on several lines, the first of which starts at `level`, in front
of `rest`. -/
def prettyChars (level : Nat) : Json → List Char → List Char
  | .list [], rest => '[' :: ']' :: rest
  | .list (item :: others), rest =>
    '[' :: prettyItems level (item :: others) (newline level ++ ']' :: rest)
  | .object [], rest => '{' :: '}' :: rest
  | .object (member :: others), rest =>
    '{' :: prettyMembers level (member :: others) (newline level ++ '}' :: rest)
  | .null, rest => "null".toList ++ rest
  | .bool value, rest => (if value then "true" else "false").toList ++ rest
  | .number value, rest => value.chars ++ rest
  | .text value, rest => (Text.quote value).toList ++ rest

/-- The items of a list that starts at `level`, each on its own line, in front of
`rest`. -/
def prettyItems (level : Nat) : List Json → List Char → List Char
  | [], rest => rest
  | [item], rest => newline (level + 1) ++ prettyChars (level + 1) item rest
  | item :: next :: others, rest =>
    newline (level + 1) ++
      prettyChars (level + 1) item (',' :: prettyItems level (next :: others) rest)

/-- The members of an object that starts at `level`, each on its own line, in
front of `rest`. -/
def prettyMembers (level : Nat) : List (String × Json) → List Char → List Char
  | [], rest => rest
  | [(key, value)], rest =>
    newline (level + 1) ++ (Text.quote key).toList ++ ':' :: ' ' ::
      prettyChars (level + 1) value rest
  | (key, value) :: next :: others, rest =>
    newline (level + 1) ++ (Text.quote key).toList ++ ':' :: ' ' ::
      prettyChars (level + 1) value (',' :: prettyMembers level (next :: others) rest)

end

/-- The text of a JSON value on several lines. -/
def pretty (value : Json) : String := String.ofList (prettyChars 0 value [])

end Json

end ComponentProps
