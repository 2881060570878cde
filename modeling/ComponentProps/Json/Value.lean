import ComponentProps.Kind
import ComponentProps.Table

/-!
# JSON values

`Json` is a JSON value as a text spells it: objects list their members in
order, and a text that repeats a key gives an object that repeats it.
`Json.distinct` resolves repetitions the way documents are usually understood:
a key keeps its first place and takes its last value.

Numbers stay integers when they fit sixty-four bits, signed or unsigned, and
are doubles otherwise.
-/

namespace ComponentProps

/-- A JSON number: an integer of sixty-four bits, or a double. -/
inductive Json.Number where
  | integer (value : Int)
  | real (value : Float)
deriving DecidableEq

/-- The double nearest to a JSON number. -/
def Json.Number.toFloat : Json.Number → Float
  | .integer value => Float.ofInt value
  | .real value => value

/-- A JSON value. -/
inductive Json where
  | null
  | bool (value : Bool)
  | number (value : Json.Number)
  | text (value : String)
  | list (items : List Json)
  | object (members : List (String × Json))

namespace Json

/-- The kind of a JSON value. -/
def kind : Json → Kind
  | .null => .null
  | .bool _ => .boolean
  | .number _ => .number
  | .text _ => .string
  | .list _ => .array
  | .object _ => .object

mutual

/-- The value with every repeated key resolved, at every depth. -/
def distinct : Json → Json
  | .list items => .list (distinctItems items)
  | .object members => .object (Table.ofEntries (distinctMembers members))
  | value => value

/-- Resolves repeated keys inside the items of a list. -/
def distinctItems : List Json → List Json
  | [] => []
  | item :: rest => item.distinct :: distinctItems rest

/-- Resolves repeated keys inside the values of an object. -/
def distinctMembers : List (String × Json) → List (String × Json)
  | [] => []
  | (key, value) :: rest => (key, value.distinct) :: distinctMembers rest

end

end Json

end ComponentProps
