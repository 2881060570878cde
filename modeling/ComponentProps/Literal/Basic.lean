import ComponentProps.Json.Value
import ComponentProps.Placeholder

/-!
# Object literals

The expressions that are emitted: objects, lists, plain values, and the
placeholders that stand for values unknown until run time.  An object may
repeat a name, in which case its last property counts.

* `Literal.ofJson`: the literal of a JSON value.
* `Properties.get?`, `Properties.replaceLast`: the property that counts for a
  name.
-/

namespace ComponentProps

/-- The key of a property: an identifier, or a quoted string. -/
inductive PropertyKey where
  | identifier (name : String)
  | quoted (name : String)
deriving DecidableEq, Repr

/-- An emitted expression. -/
inductive Literal where
  | object (properties : List (PropertyKey × Literal))
  | list (items : List Literal)
  | text (value : String)
  | number (value : Float)
  | bool (value : Bool)
  | null
  | placeholder (value : Placeholder)

instance : Inhabited Literal := ⟨.null⟩

/-! ## Keys -/

/-- Whether a character may start an identifier. -/
def isIdentifierStart (c : Char) : Bool := c.isAlpha || c = '_' || c = '$'

/-- Whether a character may go on in an identifier. -/
def isIdentifierPart (c : Char) : Bool := isIdentifierStart c || c.isDigit

/-- Whether a name is an identifier: letters and digits of ASCII, underscores and
dollar signs, with no digit at the start. -/
def isIdentifier (name : String) : Bool :=
  match name.toList with
  | [] => false
  | first :: rest => isIdentifierStart first && rest.all isIdentifierPart

namespace PropertyKey

/-- The key for a name, an identifier if the name is one. -/
def ofName (name : String) : PropertyKey :=
  if isIdentifier name then .identifier name else .quoted name

/-- The name that a key gives its property, whichever way it is written. -/
def name : PropertyKey → String
  | .identifier name => name
  | .quoted name => name

@[simp] theorem name_ofName (name : String) : (ofName name).name = name := by
  unfold ofName
  split <;> rfl

end PropertyKey

/-! ## Properties -/

/-- The properties of an object, in order. -/
abbrev Properties := List (PropertyKey × Literal)

namespace Properties

/-- Whether some property has this name. -/
def has (properties : Properties) (name : String) : Bool :=
  properties.any (·.1.name == name)

/-- The position of the last property with this name. -/
def position? : Properties → String → Option Nat
  | [], _ => none
  | (key, _) :: rest, name =>
    match position? rest name with
    | some position => some (position + 1)
    | none => if key.name = name then some 0 else none

/-- The last property with this name. -/
def last? : Properties → String → Option (PropertyKey × Literal)
  | [], _ => none
  | property :: rest, name =>
    match last? rest name with
    | some later => some later
    | none => if property.1.name = name then some property else none

/-- The value that counts for a name. -/
def get? (properties : Properties) (name : String) : Option Literal :=
  (last? properties name).map Prod.snd

/-- The properties with the value of the last one of this name replaced, if there
is one. -/
def replaceLast? : Properties → String → Literal → Option Properties
  | [], _, _ => none
  | (key, old) :: rest, name, value =>
    match replaceLast? rest name value with
    | some replaced => some ((key, old) :: replaced)
    | none => if key.name = name then some ((key, value) :: rest) else none

/-- Replaces the value of the last property with this name. -/
def replaceLast (properties : Properties) (name : String) (value : Literal) : Properties :=
  (replaceLast? properties name value).getD properties

/-- Adds a property at the end. -/
def add (properties : Properties) (name : String) (value : Literal) : Properties :=
  properties ++ [(.ofName name, value)]

end Properties

/-! ## Literals -/

namespace Literal

/-- The kind of an expression. -/
def kind : Literal → Kind
  | .object _ => .object
  | .list _ => .array
  | .text _ => .string
  | .number _ => .number
  | .bool _ => .boolean
  | .null => .null
  | .placeholder _ => .placeholder

mutual

/-- The literal of a JSON value. -/
def ofJson : Json → Literal
  | .null => .null
  | .bool value => .bool value
  | .number value => .number value.toFloat
  | .text value => .text value
  | .list items => .list (ofItems items)
  | .object members => .object (ofMembers members)

/-- The items of the literal of a list. -/
def ofItems : List Json → List Literal
  | [] => []
  | item :: rest => ofJson item :: ofItems rest

/-- The properties of the literal of an object. -/
def ofMembers : List (String × Json) → Properties
  | [] => []
  | (name, value) :: rest => (.ofName name, ofJson value) :: ofMembers rest

end

mutual

/-- Whether two literals are the same expression, with numbers compared as
values. -/
def same : Literal → Literal → Bool
  | .object properties, .object others => sameProperties properties others
  | .list items, .list others => sameItems items others
  | .text value, .text other => value == other
  | .number value, .number other => value == other
  | .bool value, .bool other => value == other
  | .null, .null => true
  | .placeholder value, .placeholder other => value == other
  | _, _ => false

/-- Whether two lists have the same items. -/
def sameItems : List Literal → List Literal → Bool
  | [], [] => true
  | item :: rest, other :: others => item.same other && sameItems rest others
  | _, _ => false

/-- Whether two objects have the same properties in the same order. -/
def sameProperties : Properties → Properties → Bool
  | [], [] => true
  | (key, value) :: rest, (otherKey, other) :: others =>
    key == otherKey && value.same other && sameProperties rest others
  | _, _ => false

end

end Literal

end ComponentProps
