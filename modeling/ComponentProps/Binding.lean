import ComponentProps.Lowering

/-!
# Binding placeholders

Binding a shape into an object literal puts a placeholder at every leaf of the
shape.  A placeholder is named by the dotted path to it from the root of the
binding.  Objects for nested shapes are entered and never replaced, properties
that the literal lacks are added, and where a name is repeated the last
property is the one that is bound.

Binding goes through the shape in order and stops at the first obstacle: a
value that is no object where the shape is nested, or a name that has been
issued before.  What has been bound until then stays bound.

* `Shape.bind`: binds a shape into the properties of an object.
* `Bound`: the literal as far as it was bound, the names that were issued, and
  the obstacle if there was one.
-/

namespace ComponentProps

/-- Why binding stopped. -/
inductive BindError where
  /-- A value of this kind where an object is needed. -/
  | notAnObject (path : String) (found : Kind)
  | duplicateName (name : String)
deriving DecidableEq, Repr

/-- The words for why binding stopped. -/
def BindError.message : BindError → String
  | .notAnObject path found =>
    "expected an object literal at `" ++ path ++ "`, found " ++ found.name
  | .duplicateName name =>
    "abstract value name `" ++ name ++ "` was already used in this pass"

/-- The state of binding: the part of the literal at hand, the mint, the names
issued in order, and the obstacle that stopped it, if any. -/
structure Bound (α : Type) where
  target : α
  mint : Mint
  names : List String
  obstacle : Option BindError

namespace Binding

/-- The name of the property `key` below a path. -/
def child (path key : String) : String := path ++ "." ++ key

/-- What a property is before it is bound if the literal lacks it. -/
def fresh : Slot → Literal
  | .leaf _ => .null
  | .nested _ => .object []

/-- Makes sure that there is a property called `key`. -/
def define (key : String) (slot : Slot) (properties : Properties) : Properties :=
  if Properties.has properties key then properties
  else Properties.add properties key (fresh slot)

mutual

/-- Binds a slot into the value of a property. -/
def bindSlot (path : String) : Slot → Literal → Mint → Bound Literal
  | .leaf tag, value, mint =>
    match mint.issue (PlaceholderKind.ofTag tag) path with
    | some (placeholder, mint) => ⟨.placeholder placeholder, mint, [path], none⟩
    | none => ⟨value, mint, [], some (.duplicateName path)⟩
  | .nested slots, value, mint =>
    match value with
    | .object properties =>
      let bound := bindSlots path slots properties mint
      ⟨.object bound.target, bound.mint, bound.names, bound.obstacle⟩
    | _ => ⟨value, mint, [], some (.notAnObject path value.kind)⟩

/-- Binds the slots of a shape, in order, into the properties of an object. -/
def bindSlots (path : String) :
    List (String × Slot) → Properties → Mint → Bound Properties
  | [], properties, mint => ⟨properties, mint, [], none⟩
  | (key, slot) :: rest, properties, mint =>
    let defined := define key slot properties
    let value := (Properties.get? defined key).getD (fresh slot)
    let bound := bindSlot (child path key) slot value mint
    let properties := Properties.replaceLast defined key bound.target
    match bound.obstacle with
    | some obstacle => ⟨properties, bound.mint, bound.names, some obstacle⟩
    | none =>
      let others := bindSlots path rest properties bound.mint
      ⟨others.target, others.mint, bound.names ++ others.names, others.obstacle⟩

end

end Binding

/-- Binds a shape into the properties of an object, with names rooted at
`root`. -/
def Shape.bind (shape : Shape) (root : String) (target : Properties) (mint : Mint) :
    Bound Properties :=
  Binding.bindSlots root shape target mint

end ComponentProps
