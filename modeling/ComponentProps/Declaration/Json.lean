import ComponentProps.Declaration.Basic

/-!
# Declared property types in JSON

A declaration is a string, or a description.  A description is an object whose
key `kind` says what is described, or a list that starts with the kind and
goes on with the values of the other keys in their order.  The kind is a word
or the position of that word among the three kinds.  Descriptions ignore keys
they do not know, but not a key of their own that occurs twice.

An argument of a call is a list of allowed values or an object of
declarations where it can be read as one, and any value otherwise.
-/

namespace ComponentProps

/-- The allowed value that a JSON value spells. -/
def Choice.ofJson? : Json → Option Choice
  | .null => some .null
  | .bool value => some (.bool value)
  | .number value => some (.number value.toFloat)
  | .text value => some (.text value)
  | .list _ | .object _ => none

/-- Allowed values in JSON. -/
def Choice.form : Json.Form Choice := .alternatives "Literal" Choice.ofJson?

namespace Declaration

/-- What a description describes. -/
inductive DescriptionKind where
  | call
  | conditional
  | unknowable
deriving DecidableEq, Repr

/-- The kind that a JSON value spells. -/
def DescriptionKind.ofJson? : Json → Option DescriptionKind
  | .text "call" | .number (.integer 0) => some .call
  | .text "conditional" | .number (.integer 1) => some .conditional
  | .text "abstract_unknown" | .number (.integer 2) => some .unknowable
  | _ => none

/-- What a description says under each of its keys, once for each time the key
occurs. -/
structure Description where
  kinds : List (Option DescriptionKind) := []
  callees : List (Option String) := []
  arguments : List (Option (List Argument)) := []

/-- The string that a JSON value is. -/
def textOf? : Json → Option String
  | .text value => some value
  | _ => none

/-- The declaration of a description, if each key that matters occurs as often
as it may and has a fitting value. -/
def ofDescription? (description : Description) : Option Declaration :=
  match description.kinds with
  | [some .conditional] => some .conditional
  | [some .unknowable] => some .unknowable
  | [some .call] =>
    match description.callees, description.arguments with
    | [some callee], [] => some (.call callee [])
    | [some callee], [some arguments] => some (.call callee arguments)
    | _, _ => none
  | _ => none

mutual

/-- The declaration that a JSON value spells. -/
def ofJson? : Json → Option Declaration
  | .text word =>
    match Tag.ofName? word with
    | some known => some (.tag known)
    | none => some (.unrecognized word)
  | .object members =>
    match Tag.ofJson? (.object members) with
    | some known => some (.tag known)
    | none => ofDescription? (describe members)
  | .list items => ofItems? items
  | _ => none

/-- The declaration of a description whose values are listed in order. -/
def ofItems? : List Json → Option Declaration
  | [kind] =>
    match DescriptionKind.ofJson? kind with
    | some .conditional => some .conditional
    | some .unknowable => some .unknowable
    | _ => none
  | [kind, callee] =>
    match DescriptionKind.ofJson? kind, textOf? callee with
    | some .call, some callee => some (.call callee [])
    | _, _ => none
  | [kind, callee, arguments] =>
    match DescriptionKind.ofJson? kind, textOf? callee, argumentsOf? arguments with
    | some .call, some callee, some arguments => some (.call callee arguments)
    | _, _, _ => none
  | _ => none

/-- What the members of an object describe. -/
def describe : List (String × Json) → Description
  | [] => {}
  | (key, value) :: rest =>
    let description := describe rest
    if key = "kind" then
      { description with kinds := DescriptionKind.ofJson? value :: description.kinds }
    else if key = "callee" then
      { description with callees := textOf? value :: description.callees }
    else if key = "args" then
      { description with arguments := argumentsOf? value :: description.arguments }
    else description

/-- The arguments that a JSON value spells, if it is a list. -/
def argumentsOf? : Json → Option (List Argument)
  | .list items => some (argumentsOf items)
  | _ => none

/-- The arguments that some JSON values spell. -/
def argumentsOf : List Json → List Argument
  | [] => []
  | value :: rest => argumentOf value :: argumentsOf rest

/-- The argument that a JSON value spells. -/
def argumentOf : Json → Argument
  | .list items =>
    match items.mapM Choice.ofJson? with
    | some choices => .choices choices
    | none => .other (Json.distinct (.list items))
  | .object members =>
    match fieldsOf? members with
    | some fields => .fields (Table.ofEntries fields)
    | none => .other (Json.distinct (.object members))
  | value => .other value

/-- The declarations that the members of an object spell, if all of them do. -/
def fieldsOf? : List (String × Json) → Option (List (String × Declaration))
  | [] => some []
  | (name, value) :: rest =>
    match ofJson? value, fieldsOf? rest with
    | some declaration, some fields => some ((name, declaration) :: fields)
    | _, _ => none

end

/-- Declarations in JSON. -/
def form : Json.Form Declaration := .alternatives "PropTypeDecl" ofJson?

/-- Tables of declarations in JSON. -/
def tableForm : Json.Form (Table Declaration) := .table form

end Declaration

end ComponentProps
