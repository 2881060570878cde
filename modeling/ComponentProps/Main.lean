import ComponentProps.CommandLine.Arguments
import ComponentProps.CommandLine.Run

/-!
# The command line

Runs the command line on the files of the system.  All that is decided is
decided in `CommandLine`; this module reads, writes and prints.
-/

namespace ComponentProps

namespace Terminal

/-- The number of an error of the system, which may come with a sign. -/
def errorNumber (number : UInt32) : Nat := number.toInt32.toInt.natAbs

/-- The fault that an error of the system stands for. -/
def faultOf : IO.Error → Files.Fault
  | .noFileOrDirectory _ _ _ => .notFound
  | .alreadyExists _ _ _ => .alreadyThere
  | .inappropriateType _ number words =>
    match errorNumber number with
    | 20 => .notFolder
    | 21 => .isFolder
    | number => .system words number
  | .permissionDenied _ number words => .system words (errorNumber number)
  | .invalidArgument _ number words =>
    match errorNumber number with
    | 36 => .nameTooLong
    | number => .system words number
  | .resourceExhausted _ number words => .system words (errorNumber number)
  | .noSuchThing _ number words => .system words (errorNumber number)
  | .otherError number words => .system words (errorNumber number)
  | error => .system (toString error) 0

/-- The result of an action, or the fault that it ends with. -/
def attempt {α : Type} (action : IO α) : IO (Except Files.Fault α) := do
  match ← action.toBaseIO with
  | .ok value => pure (.ok value)
  | .error error => pure (.error (faultOf error))

/-- Refuses paths that no system takes, and goes on with the others. -/
def withPath {α : Type} (path : String) (action : IO (Except Files.Fault α)) :
    IO (Except Files.Fault α) :=
  match Files.Tree.checkPath path with
  | .error fault => pure (.error fault)
  | .ok () => action

/-- Is there a folder at a path? -/
def isFolder (path : String) : IO Bool := do
  if path.isEmpty then pure false else ((← IO.currentDir) / path).isDir

/-- Is there anything at a path? -/
def holds (path : String) : IO Bool := do
  if path.isEmpty then pure false else ((← IO.currentDir) / path).pathExists

/-- The names in a folder. -/
def names (path : String) : IO (Except Files.Fault (List String)) :=
  withPath path do
    match ← attempt ((← IO.currentDir) / path).readDir with
    | .ok entries => pure (.ok (entries.toList.map (·.fileName)))
    | .error fault => pure (.error fault)

/-- The text of a file. -/
def text (path : String) : IO (Except Files.Fault String) :=
  withPath path do
    if ← isFolder path then pure (.error .isFolder)
    else
      match ← attempt (IO.FS.readBinFile path) with
      | .error fault => pure (.error fault)
      | .ok bytes =>
        match String.fromUTF8? bytes with
        | some text => pure (.ok text)
        | none => pure (.error .notText)

/-- Looking at the files of the system. -/
def reading : Files.Reading IO := ⟨holds, isFolder, names, text⟩

/-- Changing the files of the system. -/
def writing : Files.Writing IO where
  isFolder := isFolder
  makeFolder path := withPath path (attempt (IO.FS.createDir path))
  writeText path text := withPath path (attempt (IO.FS.writeFile path text))

/-- How the program is used. -/
def usage : String :=
  "Usage:\n" ++
  "  shape -i INPUT... [--json-pointer P] [--deep-accessors [true|false]]\n" ++
  "        [--format js|json] [-o FILE]\n" ++
  "  bind  -i INPUT... [--json-pointer P] [--deep-accessors [true|false]]\n" ++
  "        [--prefix ROOT] [-o FILE]\n"

end Terminal

end ComponentProps

open ComponentProps in
/-- Runs the command line and gives its exit status. -/
def main (words : List String) : IO UInt32 := do
  match CommandLine.parse words with
  | .error .help =>
    IO.print Terminal.usage
    pure 0
  | .error fault =>
    IO.eprint Terminal.usage
    pure fault.status.toUInt32
  | .ok request =>
    let loaded ← request.sources.load Terminal.reading
    let outcome ← request.conclude Terminal.writing loaded
    IO.print outcome.output
    IO.eprint outcome.errorText
    match outcome.failure with
    | none => pure 0
    | some failure =>
      IO.eprintln ("error: " ++ failure.message)
      pure 1
