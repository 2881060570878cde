import ComponentProps.Literal.Basic
import ComponentProps.Shape.Basic

/-!
# Lowering to literals

`Shape.lower` turns a shape into the literal that is spliced into emitted
code: one property for each key, in order, with tags as strings.

`lowerPlain` does the same for plain JSON data, provided that every value in
it is an object, a string, a number or a boolean.  Lists and nulls have no
place in such a literal; the first one is reported with its path.
-/

namespace ComponentProps

mutual

/-- The literal of a slot. -/
def Slot.lower : Slot → Literal
  | .leaf tag => .text tag.name
  | .nested slots => .object (Shape.lowerSlots slots)

/-- The properties of the literal of a shape. -/
def Shape.lowerSlots : List (String × Slot) → Properties
  | [] => []
  | (name, slot) :: rest => (.ofName name, slot.lower) :: Shape.lowerSlots rest

end

/-- The literal of a shape. -/
def Shape.lower (shape : Shape) : Literal := .object (Shape.lowerSlots shape)

/-- A value that has no place in a literal of plain data. -/
structure LowerError where
  path : String
  kind : Kind
deriving DecidableEq, Repr

/-- The words for a value that has no place. -/
def LowerError.message (error : LowerError) : String :=
  "no literal form for a " ++ error.kind.name ++ " leaf at `" ++ error.path ++ "`"

/-- The path of a key below a path.  Nothing is put in front of a key whose
parent path is empty. -/
def plainPath (parent key : String) : String :=
  if parent = "" then key else parent ++ "." ++ key

mutual

/-- The literal of a value in plain data. -/
def lowerPlainValue (path : String) : Json → Except LowerError Literal
  | .object members => Literal.object <$> lowerPlainMembers path members
  | .text value => .ok (.text value)
  | .bool value => .ok (.bool value)
  | .number value => .ok (.number value.toFloat)
  | .null => .error ⟨path, .null⟩
  | .list _ => .error ⟨path, .array⟩

/-- The properties of the literal of an object in plain data. -/
def lowerPlainMembers (path : String) :
    List (String × Json) → Except LowerError Properties
  | [] => .ok []
  | (key, value) :: rest => do
    let literal ← lowerPlainValue (plainPath path key) value
    let properties ← lowerPlainMembers path rest
    pure ((.ofName key, literal) :: properties)

end

/-- The literal of plain data, which has to be an object. -/
def lowerPlain : Json → Except LowerError Literal
  | .object members => Literal.object <$> lowerPlainMembers "" members
  | value => .error ⟨"", value.kind⟩

end ComponentProps
