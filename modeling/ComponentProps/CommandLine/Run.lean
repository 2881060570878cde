import ComponentProps.CommandLine.Request
import ComponentProps.Component
import ComponentProps.Files.Glob.Search
import ComponentProps.Files.Tree

/-!
# Runs

A run finds the documents of a request, reads their components, makes the
output of all of them and delivers it.  Nothing is delivered unless all of it
can be made.

* `Sources.load`: the components of all documents, in order.
* `Product.render`: the output for components, or what is wrong with each of
  those that have none.
* `Request.conclude`: what comes of loaded components.
* `Request.run`: a run on a tree of files held in memory.

All patterns are searched before any document is read.  The first folder on the
way whose names cannot be read ends the run, and so does the first document that
fails.
-/

namespace ComponentProps

namespace CommandLine

/-- A component for which nothing can be made, with the reason in words. -/
structure Complaint where
  name : String
  reason : String
deriving DecidableEq, Repr

/-- The line for a complaint. -/
def Complaint.line (complaint : Complaint) : String :=
  "error: component `" ++ complaint.name ++ "`: " ++ complaint.reason ++ "\n"

/-- Why a run fails. -/
inductive Failure where
  | badPattern (pattern : String) (fault : Glob.Fault)
  | noMatch (pattern : String)
  | unsearchable (path : String) (fault : Files.Fault)
  | unreadable (path : String) (fault : Files.Fault)
  | undecodable (path : String) (error : Json.DecodeError)
  | badComponents (failed total : Nat)
  | noFolder (path : String) (fault : Files.Fault)
  | unwritable (path : String) (fault : Files.Fault)

/-- The words for why a run fails. -/
def Failure.message : Failure → String
  | .badPattern pattern fault => "bad glob pattern: " ++ pattern ++ ": " ++ fault.message
  | .noMatch pattern => "glob pattern matched no files: " ++ pattern
  | .unsearchable path fault =>
    "attempting to read `" ++ path ++ "` resulted in an error: " ++ fault.message
  | .unreadable path fault => "failed to read " ++ path ++ ": " ++ fault.message
  | .undecodable path error => "failed to decode " ++ path ++ ": " ++ error.message
  | .badComponents failed total =>
    toString failed ++ " of " ++ toString total ++ " components failed"
  | .noFolder path fault => "failed to create " ++ path ++ ": " ++ fault.message
  | .unwritable path fault => "failed to write " ++ path ++ ": " ++ fault.message

/-! ## Loading -/

section Loading

variable {m : Type → Type} [Monad m]

/-- The results of a step for every item, in order and all in one list.  The
first failure ends it. -/
def gather {α β : Type} (one : α → m (Except Failure (List β))) :
    List α → m (Except Failure (List β))
  | [] => pure (.ok [])
  | item :: rest => do
    match ← one item with
    | .error failure => pure (.error failure)
    | .ok first =>
      match ← gather one rest with
      | .error failure => pure (.error failure)
      | .ok others => pure (.ok (first ++ others))

/-- The paths of the documents that an input stands for. -/
def inputPaths (files : Files.Reading m) (input : String) :
    m (Except Failure (List String)) := do
  if Glob.isPattern input then
    match Glob.Pattern.ofText input with
    | .error fault => pure (.error (.badPattern input fault))
    | .ok pattern =>
      match ← pattern.paths files with
      | .error folder => pure (.error (.unsearchable folder.path folder.fault))
      | .ok paths => pure (if paths.isEmpty then .error (.noMatch input) else .ok paths)
  else pure (.ok [input])

/-- The components of the document at a path. -/
def documentComponents (files : Files.Reading m) (pointer : Option String) (path : String) :
    m (Except Failure (List Component)) := do
  match ← files.text path with
  | .error fault => pure (.error (.unreadable path fault))
  | .ok text =>
    match Component.load text pointer with
    | .error error => pure (.error (.undecodable path error))
    | .ok components => pure (.ok components)

/-- The components of all documents. -/
def Sources.load (files : Files.Reading m) (sources : Sources) :
    m (Except Failure (List Component)) := do
  match ← gather (inputPaths files) sources.inputs with
  | .error failure => pure (.error failure)
  | .ok paths => gather (documentComponents files sources.pointer) paths

end Loading

/-! ## Rendering -/

/-- What is made of each component, in order; or, if there are any, complaints
about those of which nothing can be made. -/
def makeAll {ε α : Type} (reason : ε → String) (make : Component → Except ε α) :
    List Component → Except (List Complaint) (List α)
  | [] => .ok []
  | component :: rest =>
    match make component, makeAll reason make rest with
    | .ok made, .ok others => .ok (made :: others)
    | .ok _, .error complaints => .error complaints
    | .error error, .ok _ => .error [⟨component.name, reason error⟩]
    | .error error, .error complaints =>
      .error (⟨component.name, reason error⟩ :: complaints)

/-- The output for components. -/
def Product.render (product : Product) (deep : Option Bool) (components : List Component) :
    Except (List Complaint) String :=
  match product with
  | .shapes .literal =>
    String.join <$> makeAll UnsupportedField.message (·.shapeListing deep) components
  | .shapes .json =>
    (fun entries => (Json.list entries).pretty ++ "\n") <$>
      makeAll UnsupportedField.message (·.shapeEntry deep) components
  | .bindings root =>
    String.join <$> makeAll ComponentError.message (·.bindListing deep root) components

/-! ## Delivering -/

/-- What a run shows: what it prints, its complaints, and why it failed if it
did. -/
structure Outcome where
  output : String
  complaints : List Complaint
  failure : Option Failure

/-- An outcome of nothing but a failure. -/
def Outcome.failed (failure : Failure) : Outcome := ⟨"", [], some failure⟩

/-- What a run prints among its errors. -/
def Outcome.errorText (outcome : Outcome) : String :=
  String.join (outcome.complaints.map Complaint.line)

section Delivering

variable {m : Type → Type} [Monad m]

/-- Makes a file of a text, with the folders that its path stands in. -/
def deliver (files : Files.Writing m) (path text : String) : m (Option Failure) := do
  let parent := Path.parent? path
  let folders ←
    match parent with
    | none => pure (.ok ())
    | some parent => files.makeFolders parent
  match folders with
  | .error fault => pure (some (.noFolder (parent.getD "") fault))
  | .ok () =>
    match ← files.writeText path text with
    | .error fault => pure (some (.unwritable path fault))
    | .ok () => pure none

/-- What comes of the components of a request. -/
def Request.conclude (files : Files.Writing m) (request : Request)
    (loaded : Except Failure (List Component)) : m Outcome := do
  match loaded with
  | .error failure => pure (.failed failure)
  | .ok components =>
    match request.product.render request.sources.deep components with
    | .error complaints =>
      pure ⟨"", complaints, some (.badComponents complaints.length components.length)⟩
    | .ok text =>
      match request.out with
      | none => pure ⟨text, [], none⟩
      | some path =>
        match ← deliver files path text with
        | some failure => pure (.failed failure)
        | none => pure ⟨"", [], none⟩

end Delivering

/-- A run on files held in memory: its outcome, and the files after it. -/
def Request.run (request : Request) (tree : Files.Tree) : Outcome × Files.Tree :=
  (request.conclude Files.Tree.writing (request.sources.load tree.reading)).run tree

end CommandLine

end ComponentProps
