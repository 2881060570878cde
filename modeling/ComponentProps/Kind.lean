/-!
# Kinds of values

The words by which diagnostics call what they found: the six kinds of JSON
values, which are also kinds of literals, and the placeholder.
-/

namespace ComponentProps

/-- What sort of value a diagnostic talks about. -/
inductive Kind where
  | null
  | boolean
  | number
  | string
  | array
  | object
  | placeholder
deriving DecidableEq, Repr

/-- The word for a kind. -/
def Kind.name : Kind → String
  | .null => "null"
  | .boolean => "boolean"
  | .number => "number"
  | .string => "string"
  | .array => "array"
  | .object => "object"
  | .placeholder => "abstract"

end ComponentProps
