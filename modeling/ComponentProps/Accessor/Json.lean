import ComponentProps.Accessor.Basic
import ComponentProps.Json.Form

/-!
# Property reads in JSON

A read is written as null, or as an object of the reads made on its value.  An
empty object is kept apart from null, though it holds no reads either.

The reads of a component are written as such an object, or as a list of dotted
paths; `Accessors` remembers which.
-/

namespace ComponentProps

namespace Access

mutual

/-- A read as a JSON value. -/
def toJson : Access → Json
  | .plain => .null
  | .into children => .object (membersJson children)

/-- The members of the object for some reads. -/
def membersJson : List (String × Access) → List (String × Json)
  | [] => []
  | (name, access) :: rest => (name, access.toJson) :: membersJson rest

end

/-- A table of reads as a JSON value. -/
def tableJson (reads : Table Access) : Json := .object (membersJson reads)

mutual

/-- Decodes a read. -/
def decode : Json → Except Json.Fault Access
  | .null => .ok .plain
  | .object members => (fun reads => .into (Table.ofEntries reads)) <$> decodeMembers members
  | other => Json.mismatch other .object

/-- Decodes the members of an object of reads. -/
def decodeMembers : List (String × Json) → Except Json.Fault (List (String × Access))
  | [] => .ok []
  | (name, value) :: rest => do
    let access ← Json.within (.key name) (decode value)
    let reads ← decodeMembers rest
    pure ((name, access) :: reads)

end

/-- Reads a read off the front of a text. -/
def read : Nat → Json.Reader Access
  | 0 => readWith none
  | depth + 1 => readWith (some (read depth))
where
  /-- Null, or an object whose values are read by `inner`. -/
  readWith (inner : Option (Json.Reader Access)) : Json.Reader Access := do
    Json.Reader.skipBlanks
    if (← Json.Reader.peek?) = some 'n' then
      Json.Reader.eat
      Json.Reader.word ['u', 'l', 'l']
      pure .plain
    else .into <$> Json.Form.readTable inner

/-- Reads in JSON. -/
def form : Json.Form Access := ⟨decode, read⟩

/-- Tables of reads in JSON. -/
def tableForm : Json.Form (Table Access) := .table form

end Access

/-- The reads of a component as they were given. -/
inductive Accessors where
  | tree (reads : Table Access)
  | dotted (paths : List String)

namespace Accessors

/-- The tree of the reads. -/
def reads : Accessors → Table Access
  | .tree reads => reads
  | .dotted paths => Access.ofPaths paths

/-- The reads as a JSON value, in the form in which they were given. -/
def toJson : Accessors → Json
  | .tree reads => Access.tableJson reads
  | .dotted paths => .list (paths.map .text)

/-- The reads that a JSON value spells. -/
def ofJson? (value : Json) : Option Accessors :=
  match Access.tableForm.decode value with
  | .ok reads => some (.tree reads)
  | .error _ =>
    match (Json.Form.list Json.Form.text).decode value with
    | .ok paths => some (.dotted paths)
    | .error _ => none

/-- The reads of a component in JSON. -/
def form : Json.Form Accessors := .alternatives "Accessors" ofJson?

end Accessors

end ComponentProps
