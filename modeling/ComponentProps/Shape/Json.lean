import ComponentProps.Shape.Basic

/-!
# Shapes in JSON

A shape is written as an object, a leaf as the name of its tag, and a nested
shape as an object again.  An object whose only key names a tag is a leaf only
when its value is null; any other object is nested.
-/

namespace ComponentProps

mutual

/-- A slot as a JSON value. -/
def Slot.toJson : Slot → Json
  | .leaf tag => .text tag.name
  | .nested slots => .object (Shape.membersJson slots)

/-- The members of the object for a shape. -/
def Shape.membersJson : List (String × Slot) → List (String × Json)
  | [] => []
  | (name, slot) :: rest => (name, slot.toJson) :: Shape.membersJson rest

end

/-- A shape as a JSON value. -/
def Shape.toJson (shape : Shape) : Json := .object (Shape.membersJson shape)

mutual

/-- The slot that a JSON value spells. -/
def Slot.ofJson? : Json → Option Slot
  | .object members =>
    match Tag.ofJson? (.object members) with
    | some tag => some (.leaf tag)
    | none => (Shape.ofMembers? members).map fun slots => .nested (Table.ofEntries slots)
  | value => (Tag.ofJson? value).map .leaf

/-- The slots that the members of an object spell. -/
def Shape.ofMembers? : List (String × Json) → Option (List (String × Slot))
  | [] => some []
  | (name, value) :: rest =>
    match Slot.ofJson? value, Shape.ofMembers? rest with
    | some slot, some slots => some ((name, slot) :: slots)
    | _, _ => none

end

/-- Slots in JSON. -/
def Slot.form : Json.Form Slot := .alternatives "ShapeValue" Slot.ofJson?

/-- Shapes in JSON. -/
def Shape.form : Json.Form Shape := .table Slot.form

end ComponentProps
