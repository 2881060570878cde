import ComponentProps.Table
import ComponentProps.Text.Split

/-!
# Property reads

The reads that were observed in the body of a component, as a tree: a read of
a property, and the reads made on its value.  The tree may also come as a list
of dotted paths.

* `Access.children`: the reads made on a value, if there are any.
* `Access.ofPaths`: the tree of a list of paths.  The tree is grown along the paths,
  and lists of reads with nothing in them are dropped from it afterwards.
* `Access.ofPaths_eq_foldl`: they can as well be dropped on the way, which is what
  `Access.addPath` does.
-/

namespace ComponentProps

/-- An observed read of a property. -/
inductive Access where
  /-- A read whose value was not read any further. -/
  | plain
  /-- A read with a list of the reads made on its value. -/
  | into (children : List (String × Access))

instance : Inhabited Access := ⟨.plain⟩

namespace Access

/-- The reads made on a value, if there are any. -/
def children : Access → List (String × Access)
  | .plain => []
  | .into children => children

/-- A read with these reads on its value, which is plain if there are none. -/
def ofChildren : Table Access → Access
  | [] => .plain
  | child :: rest => .into (child :: rest)

/-- The segments of a dotted path; empty segments do not count. -/
def segments (path : String) : List String :=
  (Text.split '.' path).filter (· ≠ "")

/-- Adds the reads along a path to a tree.  Each of them gets a list of the reads on
its value, which has nothing in it yet at the end of the path. -/
def openPath : List String → Table Access → Table Access
  | [], reads => reads
  | segment :: rest, reads =>
    let below := ((Table.get? reads segment).map children).getD []
    Table.insert reads segment (.into (openPath rest below))

mutual

/-- A read without the lists in it that have nothing in them, at any depth. -/
def prune : Access → Access
  | .plain => .plain
  | .into children => ofChildren (pruneReads children)

/-- Some reads without the lists in them that have nothing in them. -/
def pruneReads : List (String × Access) → List (String × Access)
  | [] => []
  | (name, access) :: rest => (name, access.prune) :: pruneReads rest

end

/-- The tree of the reads along a list of dotted paths. -/
def ofPaths (paths : List String) : Table Access :=
  pruneReads (paths.foldl (fun reads path => openPath (segments path) reads) [])

/-! ## Pruning on the way -/

@[simp] theorem children_ofChildren (reads : Table Access) :
    (ofChildren reads).children = reads := by
  cases reads <;> rfl

/-- Adds the reads along a path to a tree that holds no list with nothing in it, and
leaves none behind. -/
def addPath : List String → Table Access → Table Access
  | [], reads => reads
  | segment :: rest, reads =>
    let below := ((Table.get? reads segment).map children).getD []
    Table.insert reads segment (ofChildren (addPath rest below))

theorem children_prune (access : Access) :
    access.prune.children = pruneReads access.children := by
  cases access with
  | plain => rfl
  | into children => rw [prune, children_ofChildren, Access.children]

theorem get?_pruneReads (reads : List (String × Access)) (name : String) :
    Table.get? (pruneReads reads) name = (Table.get? reads name).map prune := by
  induction reads with
  | nil => rfl
  | cons entry rest ih =>
    obtain ⟨key, access⟩ := entry
    rw [pruneReads, Table.get?, Table.get?, ih]
    split <;> rfl

theorem pruneReads_insert (reads : List (String × Access)) (name : String) (access : Access) :
    pruneReads (Table.insert reads name access) =
      Table.insert (pruneReads reads) name access.prune := by
  induction reads with
  | nil => rfl
  | cons entry rest ih =>
    obtain ⟨key, old⟩ := entry
    rw [pruneReads, Table.insert, Table.insert]
    split
    · rw [pruneReads]
    · rw [pruneReads, ih]

theorem pruneReads_openPath (path : List String) (reads : List (String × Access)) :
    pruneReads (openPath path reads) = addPath path (pruneReads reads) := by
  induction path generalizing reads with
  | nil => rfl
  | cons segment rest ih =>
    rw [openPath, addPath, pruneReads_insert, prune, ih, get?_pruneReads]
    cases Table.get? reads segment with
    | none => rfl
    | some access =>
      rw [Option.map_some, Option.map_some, Option.map_some, Option.getD_some, Option.getD_some,
        children_prune]

/-- It does not matter whether the lists with nothing in them are dropped in the end
or on the way. -/
theorem ofPaths_eq_foldl (paths : List String) :
    ofPaths paths = paths.foldl (fun reads path => addPath (segments path) reads) [] := by
  have hfold : ∀ reads, pruneReads
      (paths.foldl (fun reads path => openPath (segments path) reads) reads) =
        paths.foldl (fun reads path => addPath (segments path) reads) (pruneReads reads) := by
    induction paths with
    | nil => exact fun reads => rfl
    | cons path rest ih =>
      intro reads
      rw [List.foldl_cons, List.foldl_cons, ih, pruneReads_openPath]
  exact hfold []

end Access

end ComponentProps
