import ComponentProps.Files.Basic
import ComponentProps.Files.Place

/-!
# Trees of files

Files and folders held in memory, with the operations of `Files.Reading` and
`Files.Writing`.  An entry is found under its place.  The root and the folders
around it are always there; those around it hold nothing but what has been put
into them.

* `Tree.get?`, `Tree.insert`: the entry at a place; `get?_insert_self` and
  `get?_insert_of_ne` say what an insertion changes.
* `Tree.locate`: the place that a path leads to.
* `Tree.reading`, `Tree.writing`: the operations.
* `Tree.changedFiles`: the files below the root that an older tree does not hold.

Paths lead from the root, segment by segment.  Every segment but the last must
lead to a folder, and a path that ends in `/` leads to a folder too.  No name is
longer than 255 bytes and no path longer than 4095.
-/

namespace ComponentProps

namespace Files

/-- What stands at a place. -/
inductive Entry where
  | folder
  | file (bytes : ByteArray)

instance : DecidableEq Entry
  | .folder, .folder => .isTrue rfl
  | .folder, .file _ => .isFalse nofun
  | .file _, .folder => .isFalse nofun
  | .file bytes, .file others =>
    match ByteArray.instDecidableEq bytes others with
    | .isTrue h => .isTrue (congrArg Entry.file h)
    | .isFalse h => .isFalse fun heq => h (Entry.file.inj heq)

/-- Files and folders by their places. -/
structure Tree where
  entries : List (Place × Entry)
deriving DecidableEq

namespace Tree

/-- The tree that holds nothing. -/
def empty : Tree := ⟨[]⟩

/-- The entry at a place. -/
def get? (tree : Tree) (place : Place) : Option Entry :=
  if place.isAround then some .folder else tree.entries.lookup place

/-- The tree with an entry at a place, instead of what was there. -/
def insert (tree : Tree) (place : Place) (entry : Entry) : Tree :=
  if (tree.entries.lookup place).isSome then
    ⟨tree.entries.map fun other => (other.1, if other.1 = place then entry else other.2)⟩
  else ⟨tree.entries ++ [(place, entry)]⟩

@[simp] theorem get?_root (tree : Tree) : tree.get? [] = some .folder := by
  simp [get?, Place.isAround]

theorem lookup_replace (entries : List (Place × Entry)) (place other : Place) (entry : Entry) :
    List.lookup other
        (entries.map fun old => (old.1, if old.1 = place then entry else old.2)) =
      if other = place then (entries.lookup place).map fun _ => entry
      else entries.lookup other := by
  induction entries with
  | nil => simp
  | cons first rest ih =>
    obtain ⟨key, old⟩ := first
    rw [List.map_cons, List.lookup_cons, List.lookup_cons, List.lookup_cons, ih]
    by_cases hother : other = place
    · subst hother
      by_cases hkey : other = key
      · subst hkey
        simp
      · have hne : (other == key) = false := by simpa using hkey
        simp [hne]
    · by_cases hkey : other = key
      · subst hkey
        simp [hother]
      · have hne : (other == key) = false := by simpa using hkey
        simp [hne, hother]

theorem get?_insert_self (tree : Tree) {place : Place} (entry : Entry)
    (h : place.isAround = false) : (tree.insert place entry).get? place = some entry := by
  unfold insert get?
  cases hfound : tree.entries.lookup place with
  | none => simp [h, hfound, List.lookup_append]
  | some old => simp [h, hfound, lookup_replace]

theorem get?_insert_of_ne (tree : Tree) {place other : Place} (entry : Entry)
    (h : other ≠ place) : (tree.insert place entry).get? other = tree.get? other := by
  have hne : (other == place) = false := by simpa using h
  unfold insert get?
  cases hfound : tree.entries.lookup place with
  | none => simp [List.lookup_append, List.lookup_cons, hne]
  | some old => simp [h, lookup_replace]

/-- The tree with an entry at a place and with folders all the way to it. -/
def insertDeep (tree : Tree) : Place → Entry → Tree
  | [], _ => tree
  | name :: outer, entry =>
    if Place.isAround (name :: outer) then tree
    else (insertDeep tree outer .folder).insert (name :: outer) entry

/-- The tree of the entries at the given paths. -/
def ofPaths (entries : List (String × Entry)) : Tree :=
  entries.foldl
    (fun tree (path, entry) => tree.insertDeep (Place.ofPath path) entry) empty

/-! ## Finding places -/

/-- Is there a folder at a place? -/
def isFolderAt (tree : Tree) (place : Place) : Bool := tree.get? place == some .folder

/-- The number of bytes that a name may have. -/
def maxNameSize : Nat := 255

/-- The number of bytes that a path may have. -/
def maxPathSize : Nat := 4095

/-- Is a name longer than the name of any entry? -/
def isTooLong (name : String) : Bool := decide (maxNameSize < name.utf8ByteSize)

/-- Where a segment leads to from a folder. -/
def follow (tree : Tree) (place : Place) (segment : String) : Except Fault Place :=
  if isTooLong segment then .error .nameTooLong
  else if (tree.get? (place.down segment)).isSome then .ok (place.down segment)
  else .error .notFound

/-- Where segments lead to, one after the other. -/
def walk (tree : Tree) : Place → List String → Except Fault Place
  | place, [] => .ok place
  | place, segment :: rest =>
    if tree.isFolderAt place then
      match tree.follow place segment with
      | .ok next => tree.walk next rest
      | .error fault => .error fault
    else .error .notFolder

/-- Refuses paths that no system takes. -/
def checkPath (path : String) : Except Fault Unit :=
  if path.toList.contains '\x00' then .error .nulInPath
  else if path.isEmpty then .error .notFound
  else if maxPathSize < path.utf8ByteSize then .error .nameTooLong
  else .ok ()

/-- Where a path leads to. -/
def locate (tree : Tree) (path : String) : Except Fault Place :=
  match checkPath path with
  | .error fault => .error fault
  | .ok () => tree.walk (Place.start path) (Path.segments path)

/-! ## Reading -/

/-- Is there a file or folder at a path? -/
def holds (tree : Tree) (path : String) : Bool := (tree.locate path).isOk

/-- Is there a folder at a path? -/
def isFolder (tree : Tree) (path : String) : Bool :=
  match tree.locate path with
  | .ok place => tree.isFolderAt place
  | .error _ => false

/-- The names in the folder at a place. -/
def namesAt (tree : Tree) (place : Place) : List String :=
  tree.entries.filterMap fun (other, _) =>
    match other with
    | [] => none
    | name :: outer => if outer = place then some name else none

/-- The names in the folder at a path. -/
def names (tree : Tree) (path : String) : Except Fault (List String) :=
  match tree.locate path with
  | .error fault => .error fault
  | .ok place =>
    if tree.isFolderAt place then .ok (tree.namesAt place) else .error .notFolder

/-- The text of the file at a path. -/
def text (tree : Tree) (path : String) : Except Fault String :=
  match tree.locate path with
  | .error fault => .error fault
  | .ok place =>
    match tree.get? place with
    | some (.file bytes) =>
      match String.fromUTF8? bytes with
      | some text => .ok text
      | none => .error .notText
    | some .folder => .error .isFolder
    | none => .error .notFound

/-- Looking at a tree. -/
def reading (tree : Tree) : Reading Id where
  holds path := tree.holds path
  isFolder path := tree.isFolder path
  names path := tree.names path
  text path := tree.text path

/-! ## Writing -/

/-- The folder that a path leads to without its last segment, and that segment.
Empty segments at the end do not count; a path of nothing else has an empty last
segment. -/
def locateParent (tree : Tree) (path : String) : Except Fault (Place × String) :=
  match checkPath path with
  | .error fault => .error fault
  | .ok () =>
    let segments := ((Path.segments path).reverse.dropWhile String.isEmpty).reverse
    match tree.walk (Place.start path) segments.dropLast with
    | .error fault => .error fault
    | .ok place =>
      if tree.isFolderAt place then .ok (place, segments.getLast?.getD "")
      else .error .notFolder

/-- Does a segment name the folder it is read in, or the one around it? -/
def isDots (segment : String) : Bool := Path.staysPut segment || segment == ".."

/-- Makes a folder in one that is there. -/
def makeFolder (tree : Tree) (path : String) : Except Fault Unit × Tree :=
  match tree.locateParent path with
  | .error fault => (.error fault, tree)
  | .ok (place, name) =>
    if isDots name then (.error .alreadyThere, tree)
    else if isTooLong name then (.error .nameTooLong, tree)
    else if (tree.get? (name :: place)).isSome then (.error .alreadyThere, tree)
    else (.ok (), tree.insert (name :: place) .folder)

/-- Makes a file of a text in a folder that is there, in place of the file that
is there.  A path that ends in `/` names no file. -/
def writeText (tree : Tree) (path text : String) : Except Fault Unit × Tree :=
  match tree.locateParent path with
  | .error fault => (.error fault, tree)
  | .ok (place, name) =>
    if isDots name || path.toList.getLast? == some '/' then (.error .isFolder, tree)
    else if isTooLong name then (.error .nameTooLong, tree)
    else if tree.isFolderAt (name :: place) then (.error .isFolder, tree)
    else (.ok (), tree.insert (name :: place) (.file text.toUTF8))

/-- Changing a tree. -/
def writing : Writing (StateM Tree) where
  isFolder path := fun tree => (tree.isFolder path, tree)
  makeFolder path := fun tree => tree.makeFolder path
  writeText path text := fun tree => tree.writeText path text

/-! ## Comparing -/

/-- The files of a tree below the root that are not in an older one, or not with
the same bytes, in the order of their paths. -/
def changedFiles (older newer : Tree) : List (String × ByteArray) :=
  let changed := newer.entries.filterMap fun (place, entry) =>
    match entry with
    | .folder => none
    | .file bytes =>
      if !place.isBelowRoot || older.get? place == some (.file bytes) then none
      else some (place.path, bytes)
  changed.mergeSort fun a b => decide (a.1 ≤ b.1)

end Tree

end Files

end ComponentProps
