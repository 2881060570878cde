import ComponentProps.NumberText
import ComponentProps.Shape.Basic

/-!
# Declared property types

What a component declares about its properties, first as the analysis of the
source hands it over, then resolved.

A `Declaration` is a tag, some other word, or a description of an expression:
a call with its arguments, a conditional, or something that cannot be known
statically.  Resolving it gives an `Entry`, which says what the shape of the
component holds under the property.  Nearly everything that is not understood
resolves to an entry without knowledge; only a call of `shape` with a field
that is itself a description is an error.

* `Declaration.resolve`: the entry of a declaration.
* `Entry.slot`: what an entry contributes to a shape.
* `Choice.distinct`: the allowed values of a `one_of`, each once.
-/

namespace ComponentProps

/-! ## Allowed values -/

/-- One of the values that a property may have. -/
inductive Choice where
  | null
  | bool (value : Bool)
  | number (value : Float)
  | text (value : String)

namespace Choice

/-- The property key that a value turns into. -/
def key : Choice → String
  | .null => "null"
  | .bool value => if value then "true" else "false"
  | .number value => numberText value
  | .text value => value

/-- Whether two numbers are the same value: zeros of either sign are, and so
are any two that are not numbers. -/
def sameNumber (x y : Float) : Bool := (x.isNaN && y.isNaN) || x == y

/-- Whether two allowed values are the same. -/
def same : Choice → Choice → Bool
  | .null, .null => true
  | .bool x, .bool y => x == y
  | .number x, .number y => sameNumber x y
  | .text x, .text y => x == y
  | _, _ => false

/-- The values of a list, each at its first occurrence, without those that are
already in `known`. -/
def distinctFrom (known : List Choice) : List Choice → List Choice
  | [] => []
  | choice :: rest =>
    if known.any (same choice) then distinctFrom known rest
    else choice :: distinctFrom (choice :: known) rest

/-- The values of a list, each at its first occurrence. -/
def distinct (choices : List Choice) : List Choice := distinctFrom [] choices

end Choice

/-! ## Declarations -/

mutual

/-- The declaration of one property. -/
inductive Declaration where
  | tag (tag : Tag)
  /-- A word that is no tag. -/
  | unrecognized (word : String)
  /-- A call, by the name of what is called. -/
  | call (callee : String) (arguments : List Argument)
  | conditional
  /-- An expression of which nothing is known statically. -/
  | unknowable

/-- An argument of a call in a declaration. -/
inductive Argument where
  | choices (choices : List Choice)
  | fields (fields : List (String × Declaration))
  /-- Any other value. -/
  | other (value : Json)

end

instance : Inhabited Declaration := ⟨.unknowable⟩
instance : Inhabited Argument := ⟨.other .null⟩

/-- Why nothing is known about a declared property. -/
inductive Degraded where
  | conditional
  | unknowable
  | unrecognizedWord (word : String)
  | unrecognizedCall (callee : String)
  | malformedArguments (callee : Tag)
deriving DecidableEq, Repr

/-- The words for a reason. -/
def Degraded.message : Degraded → String
  | .conditional => "conditional expression"
  | .unknowable => "statically unknown value"
  | .unrecognizedWord word => "unrecognized type `" ++ word ++ "`"
  | .unrecognizedCall callee => "unrecognized call `" ++ callee ++ "`"
  | .malformedArguments callee => "malformed `" ++ callee.name ++ "` arguments"

/-- What is known about a declared property. -/
inductive Entry where
  | tag (tag : Tag)
  | oneOf (choices : List Choice)
  | shape (fields : Table Tag)
  | unknown (reason : Degraded)

/-- A property whose declaration nests a shape in a shape. -/
structure UnsupportedField where
  prop : String
  field : String
deriving DecidableEq, Repr

/-- The words for an unsupported field. -/
def UnsupportedField.message (error : UnsupportedField) : String :=
  "prop `" ++ error.prop ++ "` declares a nested shape at field `" ++ error.field ++
    "`; only scalar shape fields are supported"

/-- The tags of the fields of a shape.  A word that is no tag says nothing about
its field, and a description cannot be a field. -/
def scalarFields (prop : String) :
    List (String × Declaration) → Except UnsupportedField (Table Tag)
  | [] => .ok []
  | (field, declaration) :: rest => do
    let tag ←
      match declaration with
      | .tag known => .ok known
      | .unrecognized _ => .ok .any
      | _ => .error ⟨prop, field⟩
    let tags ← scalarFields prop rest
    pure ((field, tag) :: tags)

namespace Declaration

/-- The entry of a call.  Only the first argument counts. -/
def resolveCall (prop callee : String) (argument : Option Argument) :
    Except UnsupportedField Entry :=
  match Tag.ofName? callee, argument with
  | some .oneOf, some (.choices choices) => .ok (.oneOf (Choice.distinct choices))
  | some .oneOf, _ => .ok (.unknown (.malformedArguments .oneOf))
  | some .shape, some (.fields fields) => Entry.shape <$> scalarFields prop fields
  | some .shape, _ => .ok (.unknown (.malformedArguments .shape))
  | _, _ => .ok (.unknown (.unrecognizedCall callee))

/-- The entry of the declaration of `prop`. -/
def resolve (prop : String) : Declaration → Except UnsupportedField Entry
  | .tag known => .ok (.tag known)
  | .unrecognized word => .ok (.unknown (.unrecognizedWord word))
  | .call callee arguments => resolveCall prop callee arguments.head?
  | .conditional => .ok (.unknown .conditional)
  | .unknowable => .ok (.unknown .unknowable)

end Declaration

/-- What an entry contributes to a shape under the name of its property.  Where
nothing is known, and where there are no values or fields to list, that is a
leaf without a type. -/
def Entry.slot : Entry → Slot
  | .tag known => .leaf known
  | .oneOf [] => .leaf .any
  | .oneOf choices =>
    .nested (Table.ofEntries (choices.map fun choice => (choice.key, .leaf .any)))
  | .shape [] => .leaf .any
  | .shape fields => .nested (fields.map fun field => (field.1, .leaf field.2))
  | .unknown _ => .leaf .any

end ComponentProps
