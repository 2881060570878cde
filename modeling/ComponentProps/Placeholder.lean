import ComponentProps.Tag

/-!
# Placeholders

A placeholder stands for one input of a component whose value is not known.
Its name is the path by which the component reaches the input.  Placeholders
are issued by a `Mint`, which remembers every name and gives none out twice.

* `Mint.issue_eq_none_iff`: only a name that is taken is refused.
-/

namespace ComponentProps

/-- What is known about the value that a placeholder stands for. -/
inductive PlaceholderKind where
  | array
  | object
  | number
  | string
  | function
  | boolean
  | unknown
deriving DecidableEq, Repr

namespace PlaceholderKind

/-- Every kind of placeholder. -/
def all : List PlaceholderKind :=
  [.array, .object, .number, .string, .function, .boolean, .unknown]

/-- The word for a kind. -/
def name : PlaceholderKind → String
  | .array => "array"
  | .object => "object"
  | .number => "number"
  | .string => "string"
  | .function => "function"
  | .boolean => "boolean"
  | .unknown => "unknown"

/-- The kind with a word. -/
def ofName? (name : String) : Option PlaceholderKind :=
  all.find? (·.name == name)

/-- The kind of a property with this tag.  Only a required property certainly has
a value of its type. -/
def ofTag : Tag → PlaceholderKind
  | .arrayRequired => .array
  | .objectRequired => .object
  | .numberRequired => .number
  | .stringRequired => .string
  | .funcRequired => .function
  | .boolRequired => .boolean
  | _ => .unknown

end PlaceholderKind

/-- A value that is not known. -/
structure Placeholder where
  kind : PlaceholderKind
  name : String
deriving DecidableEq, Repr

/-- Issues placeholders and remembers their names, the latest first. -/
structure Mint where
  names : List String
deriving DecidableEq, Repr

namespace Mint

/-- A mint that has issued nothing. -/
def empty : Mint := ⟨[]⟩

/-- Issues a placeholder, unless the name is taken. -/
def issue (mint : Mint) (kind : PlaceholderKind) (name : String) :
    Option (Placeholder × Mint) :=
  if name ∈ mint.names then none else some (⟨kind, name⟩, ⟨name :: mint.names⟩)

theorem issue_eq_none_iff {mint : Mint} {kind : PlaceholderKind} {name : String} :
    mint.issue kind name = none ↔ name ∈ mint.names := by
  unfold issue
  split <;> simp_all

end Mint

end ComponentProps
