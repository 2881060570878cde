import ComponentProps.Files.Path

/-!
# Files

What the program needs of a place where files are kept.  Both records are over
a monad, so the same program works on real files and on a tree held in memory.

* `Files.Reading`: looking at files and folders.
* `Files.Writing`: making folders and files.
* `Writing.makeFolders`: a folder with all the folders it stands in.
* `Files.Fault`: why an operation failed, with the words in `Fault.message`.
-/

namespace ComponentProps

namespace Files

/-- Why a file or folder could not be used. -/
inductive Fault where
  | notFound
  | notFolder
  | isFolder
  | alreadyThere
  /-- A name or a path of more bytes than the system takes. -/
  | nameTooLong
  /-- The bytes of a file are not those of a text. -/
  | notText
  /-- A path holds a NUL character. -/
  | nulInPath
  /-- Any other refusal of the system, in its words and with its number. -/
  | system (words : String) (number : Nat)
deriving DecidableEq, Repr

/-- The words for a refusal of the system. -/
def systemMessage (words : String) (number : Nat) : String :=
  words ++ " (os error " ++ toString number ++ ")"

/-- The words for a fault. -/
def Fault.message : Fault → String
  | .notFound => systemMessage "No such file or directory" 2
  | .notFolder => systemMessage "Not a directory" 20
  | .isFolder => systemMessage "Is a directory" 21
  | .alreadyThere => systemMessage "File exists" 17
  | .nameTooLong => systemMessage "File name too long" 36
  | .notText => "stream did not contain valid UTF-8"
  | .nulInPath => "file name contained an unexpected NUL byte"
  | .system words number => systemMessage words number

/-- Looking at files. -/
structure Reading (m : Type → Type) where
  /-- Is there a file or folder at a path? -/
  holds : String → m Bool
  /-- Is there a folder at a path? -/
  isFolder : String → m Bool
  /-- The names in a folder, in any order. -/
  names : String → m (Except Fault (List String))
  /-- The text of a file. -/
  text : String → m (Except Fault String)

/-- Making files. -/
structure Writing (m : Type → Type) where
  /-- Is there a folder at a path? -/
  isFolder : String → m Bool
  /-- Makes a folder in one that is there. -/
  makeFolder : String → m (Except Fault Unit)
  /-- Makes a file of a text, in place of the one that is there. -/
  writeText : String → String → m (Except Fault Unit)

namespace Writing

variable {m : Type → Type} [Monad m]

/-- Makes a folder; one that is there is as good as one just made. -/
def ensureFolder (writing : Writing m) (path : String) : m (Except Fault Unit) := do
  match ← writing.makeFolder path with
  | .ok () => pure (.ok ())
  | .error fault => pure (if ← writing.isFolder path then .ok () else .error fault)

/-- Makes a folder after those it stands in, at most `depth` of them.  The outer
folders are made only if the folder cannot be made without them. -/
def makeFoldersWithin (writing : Writing m) : Nat → String → m (Except Fault Unit)
  | 0, path => writing.ensureFolder path
  | depth + 1, path => do
    if path.isEmpty then pure (.ok ())
    else
      match ← writing.makeFolder path with
      | .ok () => pure (.ok ())
      | .error .notFound =>
        match Path.parent? path with
        | none => pure (.error .notFound)
        | some parent =>
          match ← writing.makeFoldersWithin depth parent with
          | .error fault => pure (.error fault)
          | .ok () => writing.ensureFolder path
      | .error fault => pure (if ← writing.isFolder path then .ok () else .error fault)

/-- Makes a folder with all the folders it stands in.  Each of them takes a
segment of the path, so there are no more of them than there are segments. -/
def makeFolders (writing : Writing m) (path : String) : m (Except Fault Unit) :=
  writing.makeFoldersWithin (Path.segments path).length path

end Writing

end Files

end ComponentProps
