import ComponentProps.Literal.Basic
import ComponentProps.NumberText
import ComponentProps.Text.Quoted

/-!
# Writing literals

Objects take a line for each property and indent by two spaces a level; lists
stay on one line.  Identifiers are written bare and other keys between quotes.
A placeholder is a call that gives its kind and its name; an unknown kind is
`undefined`.  A literal is written in front of the text that follows it, so that
nested objects are put together without being copied at every level.
-/

namespace ComponentProps

/-- The text of a placeholder. -/
def Placeholder.chars (placeholder : Placeholder) : List Char :=
  let kind :=
    match placeholder.kind with
    | .unknown => "undefined"
    | kind => Text.quote kind.name
  "__abstract(".toList ++ kind.toList ++ ", ".toList ++
    (Text.quote placeholder.name).toList ++ [')']

/-- The text of a key. -/
def PropertyKey.chars : PropertyKey → List Char
  | .identifier name => name.toList
  | .quoted name => (Text.quote name).toList

namespace Literal

/-- The indentation of a level. -/
def indent (level : Nat) : List Char := List.replicate (2 * level) ' '

mutual

/-- A literal whose first line starts at `level`, in front of `rest`. -/
def chars (level : Nat) : Literal → List Char → List Char
  | .object [], rest => '{' :: '}' :: rest
  | .object (property :: others), rest =>
    '{' :: '\n' ::
      propertiesChars (level + 1) (property :: others) (indent level ++ '}' :: rest)
  | .list items, rest => '[' :: itemsChars level items (']' :: rest)
  | .text value, rest => (Text.quote value).toList ++ rest
  | .number value, rest => (numberText value).toList ++ rest
  | .bool value, rest => (if value then "true" else "false").toList ++ rest
  | .null, rest => "null".toList ++ rest
  | .placeholder value, rest => value.chars ++ rest

/-- The items of a list, separated by commas and spaces, in front of `rest`. -/
def itemsChars (level : Nat) : List Literal → List Char → List Char
  | [], rest => rest
  | [item], rest => chars level item rest
  | item :: next :: others, rest =>
    chars level item (',' :: ' ' :: itemsChars level (next :: others) rest)

/-- The properties of an object, each on a line of its own at `level`, in front of
`rest`. -/
def propertiesChars (level : Nat) : List (PropertyKey × Literal) → List Char → List Char
  | [], rest => rest
  | [(key, value)], rest =>
    indent level ++ key.chars ++ ':' :: ' ' :: chars level value ('\n' :: rest)
  | (key, value) :: next :: others, rest =>
    indent level ++ key.chars ++ ':' :: ' ' ::
      chars level value (',' :: '\n' :: propertiesChars level (next :: others) rest)

end

/-- The text of a literal. -/
def print (literal : Literal) : String := String.ofList (chars 0 literal [])

end Literal

end ComponentProps
