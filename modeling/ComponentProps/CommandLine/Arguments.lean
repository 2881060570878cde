import ComponentProps.CommandLine.Request

/-!
# Arguments

The command line begins with a command.  After it come options: `--name value`,
`--name=value`, `-nvalue`, `-n=value` or `-n value`.  A value in the same word
as its option is the only one; otherwise the option takes the plain words after
it, as many as it may have.  `--` ends the options.

* `CommandLine.parse`: the request of a command line.
* `Word.ofText`: what a single word is by itself.
* `Draft.settle`: an option with all its values.

The values of an option are looked at when the next option begins, or at the
end, so the first fault in this order is the one that counts.
-/

namespace ComponentProps

namespace CommandLine

/-! ## Words -/

/-- What a word of the command line is by itself. -/
inductive Word where
  | long (name : String) (value : Option String)
  | short (letter : Char) (value : Option String)
  /-- The end of the options. -/
  | stop
  | plain (text : String)
deriving DecidableEq, Repr

/-- What stands before the first `=`, and what after it. -/
def cutAtEquals : List Char → List Char × Option (List Char)
  | [] => ([], none)
  | '=' :: rest => ([], some rest)
  | c :: rest =>
    let (before, after) := cutAtEquals rest
    (c :: before, after)

/-- What a word is.  A lone `-` is a plain word. -/
def Word.ofText (text : String) : Word :=
  match text.toList with
  | ['-', '-'] => .stop
  | '-' :: '-' :: rest =>
    let (name, value) := cutAtEquals rest
    .long (String.ofList name) (value.map String.ofList)
  | '-' :: letter :: '=' :: rest => .short letter (some (String.ofList rest))
  | ['-', letter] => .short letter none
  | '-' :: letter :: rest => .short letter (some (String.ofList rest))
  | _ => .plain text

/-! ## Options -/

/-- The options that take values. -/
inductive Flag where
  | pointer
  | deep
  | input
  | format
  | out
  | root
deriving DecidableEq, Repr

/-- An option, or the wish for help. -/
inductive Switch where
  | help
  | flag (flag : Flag)
deriving DecidableEq, Repr

/-- The option of a long name. -/
def Command.long? : Command → String → Option Switch
  | _, "help" => some .help
  | _, "json-pointer" => some (.flag .pointer)
  | _, "deep-accessors" => some (.flag .deep)
  | _, "input" => some (.flag .input)
  | .shape, "format" => some (.flag .format)
  | .bind, "prefix" => some (.flag .root)
  | _, "out" => some (.flag .out)
  | _, _ => none

/-- The option of a letter. -/
def Command.short? : Command → Char → Option Switch
  | _, 'h' => some .help
  | _, 'i' => some (.flag .input)
  | _, 'o' => some (.flag .out)
  | _, _ => none

/-- May an option stand without a value? -/
def Flag.mayBeAlone (flag : Flag) : Bool := flag == .deep

/-- May an option take a plain word after those it has? -/
def Flag.takesAnother (flag : Flag) (values : List String) : Bool :=
  flag == .input || values.isEmpty

/-! ## Drafts -/

/-- The options given so far. -/
structure Draft where
  pointer : Option String
  deep : Option Bool
  inputs : List String
  format : Option Format
  out : Option String
  root : Option String
deriving DecidableEq, Repr

/-- The draft before any option. -/
def Draft.empty : Draft := ⟨none, none, [], none, none, none⟩

/-- Is an option given that may be given only once? -/
def Draft.hasSingle (draft : Draft) : Flag → Bool
  | .pointer => draft.pointer.isSome
  | .deep => draft.deep.isSome
  | .input => false
  | .format => draft.format.isSome
  | .out => draft.out.isSome
  | .root => draft.root.isSome

/-- The yes or no of a word. -/
def yesNo? : String → Option Bool
  | "true" => some true
  | "false" => some false
  | _ => none

/-- The draft with a value for an option. -/
def Draft.set (draft : Draft) (flag : Flag) (value : String) : Except UsageFault Draft :=
  match flag with
  | .pointer => .ok { draft with pointer := some value }
  | .deep =>
    match yesNo? value with
    | some deep => .ok { draft with deep := some deep }
    | none => .error .invalidValue
  | .input => .ok { draft with inputs := draft.inputs ++ [value] }
  | .format =>
    match Format.ofName? value with
    | some format => .ok { draft with format := some format }
    | none => .error .invalidValue
  | .out =>
    if value.isEmpty then .error .invalidValue else .ok { draft with out := some value }
  | .root => .ok { draft with root := some value }

/-- The draft with an option and all its values.  An option that may be alone
means `true` then. -/
def Draft.settle (draft : Draft) (flag : Flag) (values : List String) :
    Except UsageFault Draft :=
  if values.isEmpty && !flag.mayBeAlone then .error .invalidValue
  else if draft.hasSingle flag then .error .conflict
  else (if values.isEmpty then ["true"] else values).foldlM (·.set flag ·) draft

/-! ## Reading -/

/-- An option whose values may go on. -/
abbrev Pending := Option (Flag × List String)

/-- The draft with the option whose values have ended. -/
def Draft.settlePending (draft : Draft) : Pending → Except UsageFault Draft
  | none => .ok draft
  | some (flag, values) => draft.settle flag values

/-- The draft and the pending option after another option. -/
def Draft.react (draft : Draft) (pending : Pending) (switch : Option Switch)
    (value : Option String) : Except UsageFault (Draft × Pending) :=
  match switch, value with
  | none, _ => .error .unknownArgument
  | some .help, _ => do
    let _ ← draft.settlePending pending
    .error .help
  | some (.flag flag), none => do
    let draft ← draft.settlePending pending
    pure (draft, some (flag, []))
  | some (.flag flag), some value => do
    let draft ← draft.settlePending pending
    let draft ← draft.settle flag [value]
    pure (draft, none)

/-- The draft after all options of a command. -/
def Draft.read (command : Command) :
    Draft → Pending → List String → Except UsageFault Draft
  | draft, pending, [] => draft.settlePending pending
  | draft, pending, text :: rest =>
    match Word.ofText text with
    | .stop =>
      if rest.isEmpty then draft.settlePending pending else .error .unknownArgument
    | .plain text =>
      match pending with
      | some (flag, values) =>
        if flag.takesAnother values then
          Draft.read command draft (some (flag, values ++ [text])) rest
        else .error .unknownArgument
      | none => .error .unknownArgument
    | .long name value =>
      if command.long? name = some .help ∧ value.isSome then .error .tooManyValues
      else do
        let (draft, pending) ← draft.react pending (command.long? name) value
        Draft.read command draft pending rest
    | .short letter value => do
      let (draft, pending) ← draft.react pending (command.short? letter) value
      Draft.read command draft pending rest

/-- The request of a command with its options. -/
def Draft.request (command : Command) (draft : Draft) : Except UsageFault Request :=
  if draft.inputs.isEmpty then .error .missingArgument
  else
    let product :=
      match command with
      | .shape => Product.shapes (draft.format.getD .literal)
      | .bind => Product.bindings draft.root
    .ok ⟨⟨draft.inputs, draft.pointer, draft.deep⟩, product, draft.out⟩

/-- Reads the words after a command. -/
def Command.parse (command : Command) (words : List String) : Except UsageFault Request := do
  let draft ← Draft.read command Draft.empty none words
  draft.request command

/-! ## Commands -/

/-- Is a word a command, or the wish for help with one? -/
def isCommandWord (word : String) : Bool := word == "help" || (Command.ofName? word).isSome

/-- What comes of a wish for help with a command; the commands have none below
them. -/
def helpWith : List String → UsageFault
  | [] => .help
  | [word] => if isCommandWord word then .help else .unknownCommand
  | _ => .unknownCommand

/-- The request of a command line. -/
def parse : List String → Except UsageFault Request
  | [] => .error .noCommand
  | word :: rest =>
    match Word.ofText word with
    | .stop =>
      match rest with
      | [] => .error .noCommand
      | next :: _ =>
        .error (if isCommandWord next then .unknownArgument else .unknownCommand)
    | .long "help" (some _) => .error .tooManyValues
    | .long "help" none => .error .help
    | .long _ _ => .error .unknownArgument
    | .short 'h' _ => .error .help
    | .short _ _ => .error .unknownArgument
    | .plain word =>
      if word = "help" then .error (helpWith rest)
      else
        match Command.ofName? word with
        | some command => command.parse rest
        | none => .error .unknownCommand

end CommandLine

end ComponentProps
