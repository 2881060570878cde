/-!
# Requests

What a command line asks for: a command, the documents that it reads, and where
its output goes.

* `Request`: a command with its options.
* `UsageFault`: why a command line asks for nothing, or for help.
-/

namespace ComponentProps

namespace CommandLine

/-- The commands. -/
inductive Command where
  | shape
  | bind
deriving DecidableEq, Repr

/-- The word for a command. -/
def Command.name : Command → String
  | .shape => "shape"
  | .bind => "bind"

/-- The command of a word. -/
def Command.ofName? (word : String) : Option Command :=
  [Command.shape, .bind].find? (·.name == word)

/-- How shapes are written. -/
inductive Format where
  | literal
  | json
deriving DecidableEq, Repr

/-- The format of a word. -/
def Format.ofName? : String → Option Format
  | "js" => some .literal
  | "json" => some .json
  | _ => none

/-- The documents to read, and how to read them. -/
structure Sources where
  /-- The paths of the documents, or patterns for them. -/
  inputs : List String
  /-- Which part of each document holds the components. -/
  pointer : Option String
  /-- Whether reads are followed deeply, in place of what a component says. -/
  deep : Option Bool
deriving DecidableEq, Repr

/-- What is made of every component. -/
inductive Product where
  | shapes (format : Format)
  /-- Bound literals, with a root for the names of placeholders in place of what
  a component says. -/
  | bindings (root : Option String)
deriving DecidableEq, Repr

/-- What a command line asks for. -/
structure Request where
  sources : Sources
  product : Product
  /-- The file that the output goes to, unless it is printed. -/
  out : Option String
deriving DecidableEq, Repr

/-- Why there is nothing to run. -/
inductive UsageFault where
  /-- Help is asked for. -/
  | help
  | noCommand
  | unknownCommand
  | unknownArgument
  | missingArgument
  | invalidValue
  /-- An option that takes no value has one. -/
  | tooManyValues
  /-- An option is given twice. -/
  | conflict
deriving DecidableEq, Repr

/-- The exit status for a command line with nothing to run. -/
def UsageFault.status : UsageFault → Nat
  | .help => 0
  | _ => 2

end CommandLine

end ComponentProps
