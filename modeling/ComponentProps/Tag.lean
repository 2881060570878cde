import ComponentProps.Json.Form

/-!
# Type tags

A tag is what a component declares about the type of one property, or what is
assumed about it.  Seven of the tags say that the property is required.

* `Tag.ofName?_name`, `Tag.name_of_ofName?`: tags and their names correspond.
* `Tag.form`: tags in JSON.
-/

namespace ComponentProps

/-- The declared or assumed type of a property. -/
inductive Tag where
  | any
  | anyRequired
  | object
  | objectRequired
  | array
  | arrayRequired
  | string
  | stringRequired
  | number
  | numberRequired
  | node
  | element
  | bool
  | boolRequired
  | func
  | funcRequired
  | symbol
  | oneOf
  | instanceOf
  | shape
deriving DecidableEq, Repr

namespace Tag

/-- Every tag, in the order in which messages list them. -/
def all : List Tag :=
  [.any, .anyRequired, .object, .objectRequired, .array, .arrayRequired, .string,
    .stringRequired, .number, .numberRequired, .node, .element, .bool, .boolRequired, .func,
    .funcRequired, .symbol, .oneOf, .instanceOf, .shape]

/-- The name of a tag in declarations and emitted literals. -/
def name : Tag → String
  | .any => "any"
  | .anyRequired => "any_isRequired"
  | .object => "object"
  | .objectRequired => "object_isRequired"
  | .array => "array"
  | .arrayRequired => "array_isRequired"
  | .string => "string"
  | .stringRequired => "string_isRequired"
  | .number => "number"
  | .numberRequired => "number_isRequired"
  | .node => "node"
  | .element => "element"
  | .bool => "bool"
  | .boolRequired => "bool_isRequired"
  | .func => "func"
  | .funcRequired => "func_isRequired"
  | .symbol => "symbol"
  | .oneOf => "one_of"
  | .instanceOf => "instance_of"
  | .shape => "shape"

/-- The tag with a name. -/
def ofName? (name : String) : Option Tag := all.find? (·.name == name)

/-- What is said of a name that no tag has. -/
def unknownMessage (name : String) : String := "unknown type tag `" ++ name ++ "`"

@[simp] theorem ofName?_name (tag : Tag) : ofName? tag.name = some tag := by
  cases tag <;> decide

theorem name_of_ofName? {name : String} {tag : Tag} (h : ofName? name = some tag) :
    tag.name = name := by
  have := List.find?_some h
  simpa using this

/-- Tags in JSON: a name, or an object with the name as its only key and the
value null. -/
def form : Json.Form Tag := .variant (all.map name) ofName?

/-- The tag that a JSON value spells. -/
def ofJson? (value : Json) : Option Tag := (form.decode value).toOption

end Tag

end ComponentProps
