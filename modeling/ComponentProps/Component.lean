import ComponentProps.Accessor.Json
import ComponentProps.Binding
import ComponentProps.Declaration.Json
import ComponentProps.Inference
import ComponentProps.Json.Pointer
import ComponentProps.Literal.Printer
import ComponentProps.Shape.Json

/-!
# Components

What the analysis of a component reports: its name, the reads observed in its
body, the property types it declares, and the object literal into which its
inputs are to be bound.

* `Component.load`: the components of a document, which is one of them or a
  list.
* `Component.shape`: the inferred shape.
* `Component.bind`: the literal with placeholders bound into it.
* `Component.shapeListing`, `Component.bindListing`, `Component.shapeEntry`:
  what is emitted for a component.

Whether reads are followed deeply and how names are rooted is part of a
component; callers may override both.
-/

namespace ComponentProps

/-- What is known about one component. -/
structure Component where
  name : String := ""
  accessors : Option Accessors := none
  declarations : Option (Table Declaration) := none
  deep : Bool := false
  /-- The root of the names of placeholders, unless it is the usual one. -/
  root : Option String := none
  /-- The literal to bind into, if there is one. -/
  target : Option Json := none

/-- Why nothing can be emitted for a component. -/
inductive ComponentError where
  | unsupported (error : UnsupportedField)
  | bind (error : BindError)
deriving DecidableEq, Repr

/-- The words for why nothing can be emitted. -/
def ComponentError.message : ComponentError → String
  | .unsupported error => error.message
  | .bind error => error.message

namespace Component

/-! ## Documents -/

/-- Components in JSON. -/
def form : Json.Form Component :=
  .record "ComponentFacts"
    [ .of "name" .text fun name component => { component with name },
      .of "accessors" (.optional Accessors.form) fun accessors component =>
        { component with accessors },
      .of "propTypes" (.optional Declaration.tableForm) fun declarations component =>
        { component with declarations },
      .of "deepAccessors" .bool fun deep component => { component with deep },
      .of "prefix" (.optional .text) fun root component => { component with root },
      .of "target" (.optional .any) fun target component => { component with target } ]
    {}

/-- Lists of components in JSON. -/
def listForm : Json.Form (List Component) := .list form

/-- Decodes components one by one, each as a document of its own that stands in
a list. -/
def loadItems : Nat → List Json → Except Json.DecodeError (List Component)
  | _, [] => .ok []
  | position, item :: rest =>
    match form.ofJson item with
    | .error error => .error (error.within ("[" ++ toString position ++ "]"))
    | .ok component => do
      let components ← loadItems (position + 1) rest
      pure (component :: components)

/-- The components of a document: a list of them, or one, in the part that a
pointer selects. -/
def load (text : String) (pointer : Option String) :
    Except Json.DecodeError (List Component) := do
  match ← Json.select (← Json.parse text) pointer with
  | .list items => loadItems 0 items
  | document => (fun component => [component]) <$> form.ofJson document

/-! ## Shapes -/

/-- The inferred shape, or nothing for a component without properties. -/
def shape (component : Component) (deep : Option Bool) :
    Except UnsupportedField (Option Shape) :=
  infer (deep.getD component.deep)
    ((component.accessors.map Accessors.reads).getD [])
    (component.declarations.getD [])

/-! ## Binding -/

/-- The usual root of the names of placeholders. -/
def usualRoot : String := "props"

/-- The root of the names of the placeholders of a component. -/
def effectiveRoot (component : Component) : String := component.root.getD usualRoot

/-- The properties of the literal to bind into; none if there is no literal. -/
def targetProperties (component : Component) : Except BindError Properties :=
  match component.target.map Literal.ofJson with
  | none => .ok []
  | some (.object properties) => .ok properties
  | some other => .error (.notAnObject component.effectiveRoot other.kind)

/-- A literal with all its placeholders, and their names in order. -/
structure BoundProps where
  properties : Properties
  names : List String

/-- The literal of a component with placeholders for its inputs.  Without a shape
there is nothing to bind. -/
def bind (component : Component) (deep : Option Bool) (root : Option String) :
    Except ComponentError BoundProps :=
  match component.targetProperties with
  | .error error => .error (.bind error)
  | .ok properties =>
    match component.shape deep with
    | .error error => .error (.unsupported error)
    | .ok none => .ok ⟨properties, []⟩
    | .ok (some shape) =>
      let bound := shape.bind (root.getD component.effectiveRoot) properties Mint.empty
      match bound.obstacle with
      | some obstacle => .error (.bind obstacle)
      | none => .ok ⟨bound.target, bound.names⟩

/-! ## Listings -/

/-- A comment line with a name, and a literal under it. -/
def listing (name literal : String) : String := "// " ++ name ++ "\n" ++ literal ++ "\n"

/-- The shape of a component under its name, `null` for a component without
properties. -/
def shapeListing (component : Component) (deep : Option Bool) :
    Except UnsupportedField String := do
  match ← component.shape deep with
  | some shape => pure (listing component.name shape.lower.print)
  | none => pure (listing component.name "null")

/-- The bound literal of a component under its name. -/
def bindListing (component : Component) (deep : Option Bool) (root : Option String) :
    Except ComponentError String := do
  let bound ← component.bind deep root
  pure (listing component.name (Literal.object bound.properties).print)

/-- A component's name and its shape in JSON. -/
def shapeEntry (component : Component) (deep : Option Bool) :
    Except UnsupportedField Json := do
  let shape ← component.shape deep
  pure (.object
    [("name", .text component.name), ("shape", (shape.map Shape.toJson).getD .null)])

end Component

end ComponentProps
