import ComponentProps.Json.Skip

/-!
# Forms of JSON documents

A `Form α` says how a value of type `α` is written in JSON.  It has two faces:
`decode` takes a JSON value that has been read already, and `read` takes the
value off the front of a text.  The two accept the same documents but for
repeated keys, which a JSON value resolves before `decode` sees them; reading
a text stops at the first thing that is wrong, in the order of the text.

Forms are put together from a few pieces: `Form.text`, `Form.bool`,
`Form.any`, `Form.optional`, `Form.list`, `Form.table`, `Form.record`,
`Form.variant`, and `Form.alternatives` for types that are told apart by which
of several forms fits.

* `Form.ofJson`: decodes a value.
* `Form.ofText`: decodes the value at the start of a text.
-/

namespace ComponentProps

namespace Json

/-- How values of a type are written in JSON. -/
structure Form (α : Type) where
  /-- Decodes a JSON value. -/
  decode : Json → Except Fault α
  /-- Reads a text with the given number of levels to go. -/
  read : Nat → Reader α

/-- The mismatch between a value and a form. -/
def mismatch {α : Type} (value : Json) (expected : Expected) : Except Fault α :=
  .error (Fault.here (.mismatch (foundOf value) expected))

namespace Form

variable {α β : Type}

/-- The same form with its values changed by a function. -/
def map (f : α → β) (form : Form α) : Form β where
  decode value := f <$> form.decode value
  read depth := f <$> form.read depth

/-! ## Plain values -/

/-- A string. -/
def text : Form String where
  decode
    | .text value => .ok value
    | other => mismatch other .text
  read _ := do
    if (← Reader.valueStart) = '"' then
      Reader.eat
      Reader.textBody
    else Reader.mismatch .text

/-- A boolean. -/
def bool : Form Bool where
  decode
    | .bool value => .ok value
    | other => mismatch other .bool
  read _ := do
    match ← Reader.valueStart with
    | 't' =>
      Reader.eat
      Reader.word ['r', 'u', 'e']
      pure true
    | 'f' =>
      Reader.eat
      Reader.word ['a', 'l', 's', 'e']
      pure false
    | _ => Reader.mismatch .bool

/-- Any value, with repeated keys resolved. -/
def any : Form Json where
  decode value := .ok value
  read depth := distinct <$> Reader.value depth

/-- A value, or null for none. -/
def optional (form : Form α) : Form (Option α) where
  decode
    | .null => .ok none
    | value => some <$> form.decode value
  read depth := do
    Reader.skipBlanks
    if (← Reader.peek?) = some 'n' then
      Reader.eat
      Reader.word ['u', 'l', 'l']
      pure none
    else some <$> form.read depth

/-- A value of a type that has several forms.  Which of them fits can only be
seen from the whole value, so a fault in a part is one of the whole. -/
def alternatives (type : String) (choose : Json → Option α) : Form α where
  decode value :=
    match choose value with
    | some result => .ok result
    | none => .error (Fault.here (.noAlternative type))
  read depth := do
    match choose (← Reader.value depth) with
    | some result => pure result
    | none => throw (Fault.here (.noAlternative type))

/-! ## Lists and tables -/

/-- Decodes the items of a list from the one at `position` on. -/
def decodeItems (form : Form α) : Nat → List Json → Except Fault (List α)
  | _, [] => .ok []
  | position, item :: rest => do
    let value ← within (.index position) (form.decode item)
    let values ← decodeItems form (position + 1) rest
    pure (value :: values)

/-- The levels left inside a list or an object, if there are any. -/
def inside {γ : Type} (f : Nat → γ) : Nat → Option γ
  | 0 => none
  | depth + 1 => some (f depth)

/-- A list whose items all have one form. -/
def list (form : Form α) : Form (List α) where
  decode
    | .list items => decodeItems form 0 items
    | other => mismatch other .list
  read depth := do
    if (← Reader.valueStart) = '[' then
      List.reverse <$> Reader.list
        (inside (fun depth _ values => (· :: values) <$> form.read depth) depth) []
    else Reader.mismatch .list

/-- Decodes the members of an object into a table. -/
def decodeMembers (form : Form α) (table : Table α) :
    List (String × Json) → Except Fault (Table α)
  | [] => .ok table
  | (key, member) :: rest => do
    let value ← within (.key key) (form.decode member)
    decodeMembers form (Table.insert table key value) rest

/-- Reads an object into a table, given a reader for its values. -/
def readTable (member : Option (Reader α)) : Reader (Table α) := do
  if (← Reader.valueStart) = '{' then
    Reader.object (fun _ _ => none)
      (member.map fun reader key table => Table.insert table key <$> reader) []
  else Reader.mismatch .object

/-- An object whose values all have one form. -/
def table (form : Form α) : Form (Table α) where
  decode
    | .object members => decodeMembers form [] members
    | other => mismatch other .object
  read depth := readTable (inside form.read depth)

/-! ## Records -/

/-- A field of a record: its key, and the form of its value, which says what
the value changes in the record. -/
structure Field (α : Type) where
  name : String
  form : Form (α → α)

/-- The field that takes a value of some form. -/
def Field.of (name : String) (form : Form β) (set : β → α → α) : Field α :=
  ⟨name, form.map set⟩

/-- Decodes the members of a record; unknown keys are ignored. -/
def decodeFields (fields : List (Field α)) : α → List (String × Json) → Except Fault α
  | record, [] => .ok record
  | record, (key, member) :: rest => do
    match fields.find? (·.name == key) with
    | none => decodeFields fields record rest
    | some field =>
      let change ← within (.key key) (field.form.decode member)
      decodeFields fields (change record) rest

/-- Decodes a record whose values are listed in the order of its fields;
missing values at the end are allowed. -/
def decodePositions : Nat → List (Field α) → α → List Json → Except Fault α
  | position, field :: fields, record, item :: rest => do
    let change ← within (.index position) (field.form.decode item)
    decodePositions (position + 1) fields (change record) rest
  | position, [], _, item :: rest =>
    .error (Fault.here (.tooManyItems (position + (item :: rest).length)))
  | _, _, record, [] => .ok record

/-- Reads the values of a record in the order of its fields. -/
def readPositions (depth : Nat) : Nat → List (Field α) → α → Reader α
  | _, [], record => pure record
  | position, field :: fields, record => do
    if ← Reader.nextItem? (position == 0) then
      let change ← Reader.within (.index position) (field.form.read depth)
      readPositions depth (position + 1) fields (change record)
    else pure record

/-- A record and the keys of its fields that have been read. -/
structure Progress (α : Type) where
  record : α
  seen : List String

/-- Turns down the second of two members for the same field. -/
def refuseRepeated (progress : Progress α) (key : String) : Option Problem :=
  if key ∈ progress.seen then some (.duplicateField key) else none

/-- Reads one member of a record; the values of unknown keys are passed over. -/
def readField (fields : List (Field α)) (depth : Nat) (key : String)
    (progress : Progress α) : Reader (Progress α) := do
  match fields.find? (·.name == key) with
  | none =>
    Reader.skip
    pure progress
  | some field =>
    let change ← field.form.read depth
    pure ⟨change progress.record, key :: progress.seen⟩

/-- A record with optional fields, as an object or as a list of values in the
order of the fields.  `start` has the values of the fields that are missing. -/
def record (name : String) (fields : List (Field α)) (start : α) : Form α where
  decode
    | .object members => decodeFields fields start members
    | .list items => decodePositions 0 fields start items
    | other => mismatch other (.record name)
  read depth := do
    match ← Reader.valueStart with
    | '[' =>
      match inside (fun depth => readPositions depth 0 fields start) depth with
      | none => Reader.stop .tooDeep 1
      | some positions =>
        Reader.eat
        Reader.enclosed positions Reader.closeList
    | '{' =>
      Progress.record <$>
        Reader.object refuseRepeated (inside (readField fields) depth) ⟨start, []⟩
    | _ => Reader.mismatch (.record name)

/-! ## Variants -/

/-- Decodes nothing but null. -/
def decodeUnit : Json → Except Fault Unit
  | .null => .ok ()
  | other => mismatch other .unit

/-- Reads nothing but null. -/
def readUnit : Reader Unit := do
  if (← Reader.valueStart) = 'n' then
    Reader.eat
    Reader.word ['u', 'l', 'l']
  else Reader.mismatch .unit

/-- Reads the name of a variant, from its opening quote on. -/
def readVariant (known : List String) (ofName : String → Option α) :
    Reader (String × α) := do
  Reader.eat
  let name ← Reader.textBody
  match ofName name with
  | some value => pure (name, value)
  | none => Reader.stopHere (.unknownVariant name known)

/-- One of several named values: its name as a string, or as the only key of an
object with the value null. -/
def variant (known : List String) (ofName : String → Option α) : Form α where
  decode value :=
    let find (name : String) : Except Fault α :=
      match ofName name with
      | some value => .ok value
      | none => .error (Fault.here (.unknownVariant name known))
    match value with
    | .text name => find name
    | .object [(name, member)] => do
      let value ← find name
      within (.key name) (decodeUnit member)
      pure value
    | .object _ => .error (Fault.here .notSingleKey)
    | other => mismatch other .variant
  read depth := do
    match ← Reader.valueStart with
    | '"' => Prod.snd <$> readVariant known ofName
    | '{' =>
      if depth = 0 then Reader.stop .tooDeep 1
      Reader.eat
      Reader.firstKey
      let (name, value) ← readVariant known ofName
      Reader.colon
      Reader.within (.key name) readUnit
      Reader.skipBlanks
      match ← Reader.peek? with
      | some '}' => Reader.eat
      | some _ => Reader.stop .expectedValue 0
      | none => Reader.stop .endInObject 0
      pure value
    | _ => Reader.stop .expectedValue 1

/-! ## Documents -/

/-- Decodes a JSON value. -/
def ofJson (form : Form α) (value : Json) : Except DecodeError α :=
  match form.decode value with
  | .ok value => .ok value
  | .error fault => .error (DecodeError.ofFault [] fault)

/-- Decodes the value at the start of a text.  Text behind the value is not
looked at. -/
def ofText (form : Form α) (text : String) : Except DecodeError α :=
  match form.read maxDepth text.toList with
  | .ok value _ => .ok value
  | .error fault _ => .error (DecodeError.ofFault text.toList fault)

end Form

end Json

end ComponentProps
