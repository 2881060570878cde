import ComponentProps.Files.Basic
import ComponentProps.Files.Glob.Pattern

/-!
# The files of a pattern

A pattern for paths is a pattern for names in each of its segments, and `**` as
a segment of its own spans any number of folders.  Its paths come in a fixed
order: the names of a folder in the order of their characters, and what is in a
folder before the next name.  A folder on the way whose names cannot be read ends
the search.

* `Glob.Pattern.ofText`: the segments of a pattern.
* `Glob.Unsearchable`: the folder that a search ends at.
* `Glob.Pattern.paths`: the paths of the files and folders that it stands for.

A segment of plain characters is looked up and not searched for, so `.` and `..`
may be written out.  A segment with wildcards stands for `.` and `..` only if it
starts with a point.
-/

namespace ComponentProps

namespace Glob

/-- A pattern for paths. -/
structure Pattern where
  /-- The folder where the search starts. -/
  start : String
  segments : List (List Token)
  /-- Does the pattern end in `/`, so that it stands for folders only? -/
  foldersOnly : Bool
deriving DecidableEq, Repr

/-- The segments of a pattern; an empty one at the end is none. -/
def patternSegments (text : String) : List String :=
  let segments := Text.split '/' text
  if segments.getLast? = some "" then segments.dropLast else segments

/-- A pattern for paths.  Its parts must make sense in the whole text first, and
then in each segment by itself. -/
def Pattern.ofText (text : String) : Except Fault Pattern := do
  let _ ← tokens text
  let absolute := Path.isAbsolute text
  let written := patternSegments text
  let segments ← (if absolute then written.drop 1 else written).mapM tokens
  pure ⟨if absolute then "/" else ".", segments, text.toList.getLast? == some '/'⟩

/-! ## Segments -/

/-- The text that a segment without wildcards stands for. -/
def plainText? : List Token → Option String
  | [] => some ""
  | .char c :: rest => (plainText? rest).map (String.singleton c ++ ·)
  | _ :: _ => none

/-- Does a segment span folders at any depth? -/
def spansDepth (segment : List Token) : Bool := segment.contains .anyDepth

/-- The segments from the last of the leading ones that span folders at any
depth: several in a row mean the same as one. -/
def collapse : List (List Token) → List (List Token)
  | first :: next :: rest =>
    if spansDepth next then collapse (next :: rest) else first :: next :: rest
  | segments => segments

/-- The folders `..` and `.` if a segment stands for them. -/
def dotNames (segment : List Token) : List String :=
  if segment.head? = some (.char '.') then
    ["..", "."].filter fun name => covers segment name.toList
  else []

/-- A path one name further down; the working folder is not written. -/
def step (path name : String) : String :=
  if Path.isHere path then name else Path.join path name

/-! ## Searching -/

/-- A folder whose names cannot be read. -/
structure Unsearchable where
  path : String
  fault : Files.Fault
deriving DecidableEq, Repr

section Search

variable {m : Type → Type} [Monad m]

/-- The names in a folder, in the order of their characters. -/
def namesIn (files : Files.Reading m) (path : String) :
    ExceptT Unsearchable m (List String) := do
  match ← files.names path with
  | .error fault => throw ⟨path, fault⟩
  | .ok names => pure (names.mergeSort fun a b => decide (a ≤ b))

/-- The path itself, if it may stand in the result. -/
def found (files : Files.Reading m) (foldersOnly : Bool) (path : String) :
    ExceptT Unsearchable m (List String) := do
  if foldersOnly then
    pure (if ← files.isFolder path then [path] else [])
  else pure [path]

/-- What is left of the segments at a path, which is the path itself if none is left.
`explore` searches folders. -/
def proceed (files : Files.Reading m) (foldersOnly : Bool)
    (explore : List (List Token) → String → ExceptT Unsearchable m (List String))
    (segments : List (List Token)) (path : String) : ExceptT Unsearchable m (List String) :=
  if segments.isEmpty then found files foldersOnly path else explore segments path

/-- What the segments stand for at an entry of a folder, the first of them being
for its name. -/
def enter (files : Files.Reading m) (foldersOnly : Bool)
    (explore : List (List Token) → String → ExceptT Unsearchable m (List String))
    (segments : List (List Token)) (path name : String) :
    ExceptT Unsearchable m (List String) :=
  match segments with
  | [] => pure []
  | segment :: rest =>
    if covers segment name.toList then proceed files foldersOnly explore rest path
    else pure []

/-- The same if the first segment may span folders at any depth. -/
def visit (files : Files.Reading m) (foldersOnly : Bool)
    (explore : List (List Token) → String → ExceptT Unsearchable m (List String))
    (segments : List (List Token)) (path name : String) :
    ExceptT Unsearchable m (List String) := do
  if (segments.head?.map spansDepth).getD false then
    let spanning := collapse segments
    if ← files.isFolder path then
      let here ←
        if spanning.tail.isEmpty then pure [path]
        else enter files foldersOnly explore spanning.tail path name
      let below ← explore spanning path
      pure (here ++ below)
    else enter files foldersOnly explore spanning.tail path name
  else enter files foldersOnly explore segments path name

/-- What the segments stand for in a folder, at most `depth` steps down. -/
def explore (files : Files.Reading m) (foldersOnly : Bool) :
    Nat → List (List Token) → String → ExceptT Unsearchable m (List String)
  | 0, _, _ => pure []
  | _, [], _ => pure []
  | depth + 1, segment :: rest, path => do
    let next := proceed files foldersOnly (explore files foldersOnly depth) rest
    match plainText? segment with
    | some name =>
      let below := step path name
      let isThere ←
        if name == "." || name == ".." then files.isFolder path else files.holds below
      if isThere then next below else pure []
    | none =>
      if ← files.isFolder path then
        let names ← namesIn files path
        let dots ← (dotNames segment).flatMapM fun name => next (Path.join path name)
        let entries ← names.flatMapM fun name =>
          visit files foldersOnly (explore files foldersOnly depth) (segment :: rest)
            (step path name) name
        pure (dots ++ entries)
      else pure []

end Search

/-- The number of folders that a search goes down beyond the segments of its
pattern; a longer path is not taken by any system. -/
def maxDepth : Nat := 4096

/-- The paths of the files and folders that a pattern stands for, or the first folder
that the search for them ends at. -/
def Pattern.paths {m : Type → Type} [Monad m] (files : Files.Reading m)
    (pattern : Pattern) : m (Except Unsearchable (List String)) :=
  (explore files pattern.foldersOnly (maxDepth + pattern.segments.length) pattern.segments
    pattern.start).run

end Glob

end ComponentProps
