import ComponentProps.Component
import ComponentProps.Proofs.Accessor.Order
import ComponentProps.Proofs.Inference.Levels
import Mathlib

/-!
# Reads as a tree and as dotted paths

The reads of a component come as a tree or as a list of dotted paths.  A tree is
written as paths by listing its leaves, depth first; a read counts as a leaf if
there are no reads on its value, however it is given.  The shape of a component
does not depend on which of the two forms is used, down to the order of the
properties on every level.

There are four groups.

* Leaves.  `Access.leafNames` lists the names that lead to the leaves of a tree,
  and `Access.dottedPaths` joins them.  Paths are taken apart again only if every
  name is a segment, which is `Access.Segmented`.
* `Access.Alike`: two trees list the same names in the same order on every level.
* Building a tree from paths.  Paths that begin with a new name build the reads on
  its value and leave the rest of the level alone (`addPaths_new`), so the dotted
  paths of a tree build a tree that is alike (`alike_ofPaths_dottedPaths`).
* Inference sees no difference between trees that are alike (`infer_of_alike`), so
  the form of the reads does not count (`shape_dottedPaths`).
-/

namespace ComponentProps

namespace Access

/-! ## Leaves -/

mutual

/-- The names that lead from a read to the leaves below it, depth first. -/
def leafNames : Access → List (List String)
  | .into (child :: rest) => leafNamesOf (child :: rest)
  | _ => [[]]

/-- The names that lead to the leaves of a tree of reads, depth first. -/
def leafNamesOf : List (String × Access) → List (List String)
  | [] => []
  | (name, access) :: rest => (leafNames access).map (name :: ·) ++ leafNamesOf rest

end

/-- The dotted paths to the leaves of a tree of reads, depth first. -/
def dottedPaths (reads : List (String × Access)) : List String :=
  (leafNamesOf reads).map (String.intercalate ".")

/-- A name that stands between the dots of a path. -/
def IsSegment (name : String) : Prop := name ≠ "" ∧ '.' ∉ name.toList

/-- Every name of a tree, on every level, is a segment. -/
inductive Segmented : List (String × Access) → Prop
  | intro {reads : List (String × Access)}
      (hnames : ∀ name ∈ Table.keys reads, IsSegment name)
      (hbelow : ∀ name access, (name, access) ∈ reads → Segmented access.children) :
      Segmented reads

instance (name : String) : Decidable (IsSegment name) := inferInstanceAs (Decidable (_ ∧ _))

theorem segmented_iff {reads : List (String × Access)} :
    Segmented reads ↔
      (∀ name ∈ Table.keys reads, IsSegment name) ∧
        ∀ entry ∈ reads, Segmented entry.2.children := by
  constructor
  · rintro ⟨hnames, hbelow⟩
    exact ⟨hnames, fun entry hentry => hbelow entry.1 entry.2 hentry⟩
  · rintro ⟨hnames, hbelow⟩
    exact .intro hnames fun name access hread => hbelow (name, access) hread

@[simp] theorem segmented_nil : Segmented [] := segmented_iff.2 (by simp)

@[simp] theorem segmented_cons_iff (name : String) (access : Access)
    (rest : List (String × Access)) :
    Segmented ((name, access) :: rest) ↔
      IsSegment name ∧ Segmented access.children ∧ Segmented rest := by
  constructor
  · intro h
    obtain ⟨hnames, hbelow⟩ := segmented_iff.1 h
    rw [Table.keys_cons, List.forall_mem_cons] at hnames
    rw [List.forall_mem_cons] at hbelow
    exact ⟨hnames.1, hbelow.1, segmented_iff.2 ⟨hnames.2, hbelow.2⟩⟩
  · rintro ⟨hname, haccess, hrest⟩
    obtain ⟨hnames, hbelow⟩ := segmented_iff.1 hrest
    exact segmented_iff.2 ⟨List.forall_mem_cons.2 ⟨hname, hnames⟩,
      List.forall_mem_cons.2 ⟨haccess, hbelow⟩⟩

theorem segments_intercalate {names : List String} (h : ∀ name ∈ names, IsSegment name) :
    segments (String.intercalate "." names) = names := by
  have hsplit : names ≠ [] → Text.split '.' (String.intercalate "." names) = names :=
    fun hnames => Text.split_intercalate hnames fun name hname => (h name hname).2
  cases names with
  | nil => rfl
  | cons name rest =>
    rw [segments, hsplit (List.cons_ne_nil _ _), List.filter_eq_self]
    intro name hname
    exact decide_eq_true (h name hname).1

theorem leafNames_ne_nil : (access : Access) → access.leafNames ≠ []
  | .plain => by simp [leafNames]
  | .into [] => by simp [leafNames]
  | .into ((name, access) :: rest) => by simp [leafNames, leafNamesOf, leafNames_ne_nil access]

/-- The names that lead to a leaf begin with a read of the level. -/
theorem exists_of_mem_leafNamesOf {reads : List (String × Access)} {names : List String}
    (h : names ∈ leafNamesOf reads) :
    ∃ name access below, (name, access) ∈ reads ∧ below ∈ access.leafNames ∧
      names = name :: below := by
  induction reads with
  | nil => cases h
  | cons entry rest ih =>
    obtain ⟨name, access⟩ := entry
    rw [leafNamesOf, List.mem_append] at h
    rcases h with h | h
    · obtain ⟨below, hbelow, rfl⟩ := List.mem_map.1 h
      exact ⟨name, access, below, List.mem_cons_self, hbelow, rfl⟩
    · obtain ⟨other, inner, below, hread, hbelow, rfl⟩ := ih h
      exact ⟨other, inner, below, List.mem_cons_of_mem _ hread, hbelow, rfl⟩

/-- From a leaf no names lead on; from another read, those of the reads on its value. -/
theorem mem_leafNames {access : Access} {names : List String} (h : names ∈ access.leafNames) :
    names = [] ∨ names ∈ leafNamesOf access.children := by
  cases access with
  | plain => exact Or.inl (List.mem_singleton.1 h)
  | into children =>
    cases children with
    | nil => exact Or.inl (List.mem_singleton.1 h)
    | cons child rest => exact Or.inr (by rwa [leafNames] at h)

/-- If every name of a tree is a segment, so are those that lead to its leaves. -/
theorem Segmented.isSegment {reads : List (String × Access)} (h : Segmented reads) :
    ∀ names ∈ leafNamesOf reads, ∀ name ∈ names, IsSegment name := by
  induction h with
  | @intro reads hnames hbelow ih =>
    intro names hmem
    obtain ⟨name, access, below, hread, hleaf, rfl⟩ := exists_of_mem_leafNamesOf hmem
    rw [List.forall_mem_cons]
    refine ⟨hnames name (List.mem_map_of_mem hread), ?_⟩
    rcases mem_leafNames hleaf with rfl | hleaf
    · simp
    · exact ih name access hread below hleaf

/-- The segments of the dotted paths are the names that lead to the leaves. -/
theorem map_segments_dottedPaths {reads : List (String × Access)} (h : Segmented reads) :
    (dottedPaths reads).map segments = leafNamesOf reads := by
  rw [dottedPaths, List.map_map]
  refine (List.map_congr_left ?_).trans (List.map_id _)
  intro names hnames
  exact segments_intercalate (h.isSegment names hnames)

/-! ## Trees that list the same names -/

/-- Two trees list the same names in the same order on every level. -/
inductive Alike : List (String × Access) → List (String × Access) → Prop
  | nil : Alike [] []
  | cons {name : String} {access other : Access} {reads others : List (String × Access)}
      (hbelow : Alike access.children other.children) (hrest : Alike reads others) :
      Alike ((name, access) :: reads) ((name, other) :: others)

theorem Alike.eq_nil_iff {reads others : List (String × Access)} (h : Alike reads others) :
    reads = [] ↔ others = [] := by
  cases h <;> simp

/-! ## Building a tree from paths -/

/-- Adds the reads along some paths to a tree, one path after the other. -/
def addPaths (reads : Table Access) (paths : List (List String)) : Table Access :=
  paths.foldl (fun reads path => addPath path reads) reads

theorem addPaths_append (reads : Table Access) (paths others : List (List String)) :
    addPaths reads (paths ++ others) = addPaths (addPaths reads paths) others :=
  List.foldl_append

/-- Paths that begin with the last name of a level add to the reads on its value. -/
theorem addPaths_last {reads : Table Access} {name : String} (hname : name ∉ Table.keys reads)
    (below : Table Access) (paths : List (List String)) :
    addPaths (reads ++ [(name, ofChildren below)]) (paths.map (name :: ·)) =
      reads ++ [(name, ofChildren (addPaths below paths))] := by
  induction paths generalizing below with
  | nil => rfl
  | cons path rest ih =>
    have hget :
        Table.get? (reads ++ [(name, ofChildren below)]) name = some (ofChildren below) := by
      rw [Table.get?_append, Table.get?_eq_none_iff.2 hname]
      simp [Table.get?]
    have hstep : addPath (name :: path) (reads ++ [(name, ofChildren below)]) =
        reads ++ [(name, ofChildren (addPath path below))] := by
      rw [addPath, hget, Option.map_some, Option.getD_some, children_ofChildren,
        Table.insert_append_of_not_mem _ _ hname]
      simp [Table.insert]
    rw [List.map_cons, addPaths, List.foldl_cons, hstep]
    exact ih (addPath path below)

/-- Paths that begin with a new name add it at the end of the level, with the reads
that are left of the paths on its value. -/
theorem addPaths_new {reads : Table Access} {name : String} (hname : name ∉ Table.keys reads)
    {paths : List (List String)} (hpaths : paths ≠ []) :
    addPaths reads (paths.map (name :: ·)) =
      reads ++ [(name, ofChildren (addPaths [] paths))] := by
  cases paths with
  | nil => exact absurd rfl hpaths
  | cons path rest =>
    have hstep : addPath (name :: path) reads =
        reads ++ [(name, ofChildren (addPath path []))] := by
      rw [addPath, Table.get?_eq_none_iff.2 hname, Option.map_none, Option.getD_none,
        Table.insert_of_not_mem _ hname]
    rw [List.map_cons, addPaths, List.foldl_cons, hstep]
    exact addPaths_last hname (addPath path []) rest

mutual

/-- The leaves below a read build the reads on its value. -/
theorem alike_addPaths_leafNames :
    (access : Access) → access.WellFormed →
      Alike (addPaths [] access.leafNames) access.children
  | .plain, _ => by
    rw [leafNames.eq_def]
    exact .nil
  | .into [], _ => by
    rw [leafNames.eq_def]
    exact .nil
  | .into (child :: rest), h => by
    obtain ⟨built, hbuilt, halike⟩ := exists_addPaths_leafNamesOf (child :: rest) h [] (by simp)
    rw [leafNames, hbuilt]
    exact halike

/-- The leaves of a tree build it behind the reads that are there, if those have
other names. -/
theorem exists_addPaths_leafNamesOf :
    (reads : List (String × Access)) → WellFormedTable reads → (done : Table Access) →
      (∀ name ∈ Table.keys reads, name ∉ Table.keys done) →
      ∃ built, addPaths done (leafNamesOf reads) = done ++ built ∧ Alike built reads
  | [], _, done, _ => ⟨[], by rw [leafNamesOf, List.append_nil]; rfl, .nil⟩
  | (name, access) :: rest, h, done, hnew => by
    obtain ⟨hname, haccess, hrest⟩ := h
    rw [Table.keys_cons, List.forall_mem_cons] at hnew
    have hfirst := addPaths_new hnew.1 (leafNames_ne_nil access)
    have hbelow := alike_addPaths_leafNames access haccess
    have hnew' : ∀ other ∈ Table.keys rest,
        other ∉ Table.keys (done ++ [(name, ofChildren (addPaths [] access.leafNames))]) := by
      intro other hother hmem
      rw [Table.keys, List.map_append, List.mem_append] at hmem
      rcases hmem with hmem | hmem
      · exact hnew.2 other hother hmem
      · have heq : other = name := List.mem_singleton.1 hmem
        exact hname (heq ▸ hother)
    obtain ⟨built, hbuilt, halike⟩ := exists_addPaths_leafNamesOf rest hrest _ hnew'
    refine ⟨(name, ofChildren (addPaths [] access.leafNames)) :: built, ?_, ?_⟩
    · rw [leafNamesOf, addPaths_append, hfirst, hbuilt, List.append_assoc, List.singleton_append]
    · refine .cons ?_ halike
      rw [children_ofChildren]
      exact hbelow

end

/-- The dotted paths of a tree build a tree that lists the same names. -/
theorem alike_ofPaths_dottedPaths {reads : Table Access} (hreads : WellFormedTable reads)
    (hsegments : Segmented reads) : Alike (ofPaths (dottedPaths reads)) reads := by
  have hpaths : ofPaths (dottedPaths reads) = addPaths [] (leafNamesOf reads) := by
    rw [← map_segments_dottedPaths hsegments, addPaths, List.foldl_map, ofPaths_eq_foldl]
  obtain ⟨built, hbuilt, halike⟩ := exists_addPaths_leafNamesOf reads hreads [] (by simp)
  rw [hpaths, hbuilt]
  exact halike

end Access

/-! ## Inference -/

namespace Inference

variable (deep : Bool) (declared : List (String × Slot))

theorem readSlot_congr {access other : Access}
    (hnil : access.children = [] ↔ other.children = [])
    (hbelow : undeclared deep declared access.children =
      undeclared deep declared other.children) :
    readSlot deep declared access = readSlot deep declared other := by
  by_cases hexpands : Expands deep access
  · have hexpands' : Expands deep other := ⟨hexpands.1, mt hnil.2 hexpands.2⟩
    rw [readSlot_of_expands hexpands, readSlot_of_expands hexpands', level, level, hbelow]
  · have hexpands' : ¬ Expands deep other :=
      fun h => hexpands ⟨h.1, mt hnil.1 h.2⟩
    rw [readSlot_of_not_expands hexpands, readSlot_of_not_expands hexpands']

/-- Reads that are listed alike have the same slots. -/
theorem undeclared_of_alike {reads others : List (String × Access)}
    (h : Access.Alike reads others) :
    undeclared deep declared reads = undeclared deep declared others := by
  induction h with
  | nil => rfl
  | cons hbelow hrest ihbelow ihrest =>
    rw [undeclared, undeclared, readSlot_congr deep declared hbelow.eq_nil_iff ihbelow, ihrest]

/-- Trees that are alike give the same shape, or the same reason why there is none. -/
theorem infer_of_alike {reads others : Table Access} (h : Access.Alike reads others)
    (declarations : Table Declaration) :
    infer deep reads declarations = infer deep others declarations := by
  have hempty : reads.isEmpty = others.isEmpty := by
    rw [Bool.eq_iff_iff, List.isEmpty_iff, List.isEmpty_iff, h.eq_nil_iff]
  unfold infer
  rw [hempty]
  simp only [level, undeclared_of_alike deep _ h]

end Inference

namespace Component

/-- A component has the same shape, or fails for the same reason, whether its reads
are given as a tree or as the dotted paths to the leaves of the tree, depth first. -/
theorem shape_dottedPaths (component : Component) {reads : Table Access}
    (hreads : Access.WellFormedTable reads) (hsegments : Access.Segmented reads)
    (deep : Option Bool) :
    { component with accessors := some (.tree reads) }.shape deep =
      { component with accessors := some (.dotted (Access.dottedPaths reads)) }.shape deep :=
  (Inference.infer_of_alike _ (Access.alike_ofPaths_dottedPaths hreads hsegments) _).symm

/-- A read with an empty list of reads on its value is a leaf.  The declared property
is left out of the reads on every level, and stands last. -/
theorem shape_dottedPaths_declared :
    let reads : Table Access :=
      [("user", .into [("name", .plain), ("tags", .into []), ("size", .into [("id", .plain)])]),
        ("id", .plain), ("kind", .plain)]
    let component : Component := { declarations := some [("id", .tag .number)] }
    Access.WellFormedTable reads ∧ Access.Segmented reads ∧
      Access.dottedPaths reads = ["user.name", "user.tags", "user.size.id", "id", "kind"] ∧
      { component with accessors := some (.tree reads) }.shape (some true) =
        { component with accessors := some (.dotted (Access.dottedPaths reads)) }.shape
          (some true) ∧
      { component with accessors := some (.tree reads) }.shape (some true) =
        .ok (some
          [("user", .nested
            [("name", .leaf .any), ("tags", .leaf .any), ("size", .nested [("id", .leaf .number)]),
              ("id", .leaf .number)]),
            ("kind", .leaf .any), ("id", .leaf .number)]) := by
  intro reads component
  have hreads : Access.WellFormedTable reads := by simp [reads]
  have hsegments : Access.Segmented reads := by
    simp only [reads, Access.segmented_cons_iff, Access.segmented_nil, Access.children]
    decide
  exact ⟨hreads, hsegments, rfl, component.shape_dottedPaths hreads hsegments (some true), rfl⟩

end Component

end ComponentProps
