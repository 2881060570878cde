import ComponentProps.Json.Fault
import ComponentProps.Text.Split

/-!
# Selecting a part of a document

A pointer is empty, for the whole document, or a sequence of tokens with a
slash in front of each.  A token is the key of an object or a position in a
list.  In tokens `~1` stands for a slash and `~0` for a tilde.
-/

namespace ComponentProps

namespace Json

namespace Pointer

/-- Resolves the escapes of a token. -/
def unescape : List Char → List Char
  | [] => []
  | '~' :: '1' :: rest => '/' :: unescape rest
  | '~' :: '0' :: rest => '~' :: unescape rest
  | c :: rest => c :: unescape rest

/-- The position that a token spells, in decimal without leading zeros. -/
def position? (token : List Char) : Option Nat :=
  match token with
  | [] => none
  | first :: rest =>
    if token.all Char.isDigit && (first != '0' || rest.isEmpty) then
      some (token.foldl (fun n c => n * 10 + (c.toNat - '0'.toNat)) 0)
    else none

/-- The part of a value that a token leads to. -/
def step (value : Json) (token : List Char) : Option Json :=
  match value with
  | .object members => Table.get? members (String.ofList token)
  | .list items => (position? token).bind (items[·]?)
  | _ => none

/-- The part of a value that a pointer selects. -/
def find? (pointer : String) (value : Json) : Option Json :=
  match Text.splitChars '/' pointer.toList with
  | [] :: tokens => (tokens.map unescape).foldlM step value
  | _ => none

end Pointer

/-- The part of a document that a pointer selects; the whole of it without a
pointer. -/
def select (value : Json) : Option String → Except DecodeError Json
  | none => .ok value
  | some pointer =>
    match Pointer.find? pointer value with
    | some part => .ok part
    | none => .error (.pointer pointer)

end Json

end ComponentProps
