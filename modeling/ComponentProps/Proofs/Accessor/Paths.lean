import ComponentProps.Proofs.Accessor.Order
import Mathlib

/-!
# The tree of a list of dotted paths

The tree of a list of dotted paths has a read for every beginning of a path, and no
others.  The reads of a level stand in the order in which the paths first come to them,
and a read holds a list of reads only if there are any on its value.

There are four groups.

* Single reads.  `Access.node?` finds the read at the end of a sequence of names, where
  `Access.at?` finds the level below it (`at?_eq_map_node?`).
* One path.  `Access.next?` is the name by which a path goes on behind some names
  (`next?_eq_some_iff`).  A path adds this name to the level under them, at the end,
  unless it is there (`namesAt_addPath`).
* All paths.  `namesAt_ofPaths` follows by induction over the paths.
* Pruning.  A read of a pruned tree is a pruned read (`node?_pruneReads`), and that is
  never an empty list (`prune_ne`).

`nodes_ofPaths` puts these together.
-/

namespace ComponentProps

namespace Access

variable {reads : List (String × Access)} {name : String} {names : List String}

/-! ## Single reads -/

/-- The read at the end of a sequence of names.  No read stands under no names. -/
def node? : List (String × Access) → List String → Option Access
  | _, [] => none
  | reads, [name] => Table.get? reads name
  | reads, name :: next :: names =>
    (Table.get? reads name).bind fun access => node? access.children (next :: names)

theorem node?_cons (h : names ≠ []) (reads : List (String × Access)) (name : String) :
    node? reads (name :: names) =
      (Table.get? reads name).bind fun access => node? access.children names := by
  cases names with
  | nil => exact absurd rfl h
  | cons next rest => rw [node?]

/-- The level under some names is made of the reads on the value of the last one. -/
theorem at?_eq_map_node? (h : names ≠ []) (reads : List (String × Access)) :
    at? reads names = (node? reads names).map children := by
  induction names generalizing reads with
  | nil => exact absurd rfl h
  | cons name rest ih =>
    cases rest with
    | nil =>
      rw [at?_cons, node?, Option.map_eq_bind]
      rfl
    | cons next more =>
      rw [at?_cons, node?_cons (List.cons_ne_nil _ _), Option.map_bind]
      refine Option.bind_congr ?_
      intro access _
      exact ih (List.cons_ne_nil _ _) access.children

/-- A read stands in the level under the names before it. -/
theorem node?_append_singleton (reads : List (String × Access)) (names : List String)
    (name : String) :
    node? reads (names ++ [name]) = (at? reads names).bind (Table.get? · name) := by
  induction names generalizing reads with
  | nil => rfl
  | cons first rest ih =>
    rw [List.cons_append, node?_cons (by simp), at?_cons, Option.bind_assoc]
    refine Option.bind_congr ?_
    intro access _
    exact ih access.children

/-- Every level of a well-formed tree is well formed. -/
theorem WellFormedTable.at? {level : List (String × Access)} (h : WellFormedTable reads)
    (hlevel : Access.at? reads names = some level) : WellFormedTable level := by
  induction names generalizing reads with
  | nil =>
    cases hlevel
    exact h
  | cons name rest ih =>
    obtain ⟨access, hread, hbelow⟩ := Option.bind_eq_some_iff.1 hlevel
    exact ih (h.children (Table.mem_of_get? hread)) hbelow

/-! ## One path -/

/-- The segment that comes behind some names in a path that begins with them. -/
def next? : List String → List String → Option String
  | [], path => path.head?
  | _ :: _, [] => none
  | name :: names, segment :: rest => if name = segment then next? names rest else none

/-- A path goes on with a name if it begins with the names and this one behind them. -/
theorem next?_eq_some_iff {path : List String} :
    next? names path = some name ↔ names ++ [name] <+: path := by
  induction names generalizing path with
  | nil =>
    cases path with
    | nil => simp [next?]
    | cons segment rest => simp [next?, eq_comm]
  | cons first more ih =>
    cases path with
    | nil => simp [next?]
    | cons segment rest =>
      rw [next?, List.cons_append, List.cons_prefix_cons]
      split
      next hfirst => rw [ih, and_iff_right hfirst]
      next hfirst => simp [hfirst]

/-- The names of the level under some names, none if there is no such level. -/
def namesAt (reads : List (String × Access)) (names : List String) : List String :=
  Table.keys ((at? reads names).getD [])

theorem namesAt_nil (reads : List (String × Access)) : namesAt reads [] = Table.keys reads := rfl

theorem namesAt_cons (reads : List (String × Access)) (name : String) (names : List String) :
    namesAt reads (name :: names) =
      namesAt (((Table.get? reads name).map children).getD []) names := by
  rw [namesAt, namesAt, at?_cons]
  cases Table.get? reads name with
  | some access => rfl
  | none => cases names <;> rfl

/-- A path adds to a level the name by which it goes on there, at the end and unless it
is listed, and changes no other level. -/
theorem namesAt_addPath (path names : List String) (reads : Table Access) :
    namesAt (addPath path reads) names =
      namesAt reads names ++ (next? names path).toList.filter (· ∉ namesAt reads names) := by
  induction path generalizing names reads with
  | nil => cases names <;> simp [addPath, next?]
  | cons segment rest ih =>
    cases names with
    | nil =>
      rw [addPath, namesAt_nil, namesAt_nil, Table.keys_insert]
      by_cases hlisted : segment ∈ Table.keys reads <;> simp [next?, hlisted]
    | cons name names =>
      rw [addPath, namesAt_cons, namesAt_cons reads, next?]
      by_cases hname : name = segment
      · rw [hname, Table.get?_insert_self, Option.map_some, Option.getD_some,
          children_ofChildren, if_pos rfl]
        exact ih names _
      · rw [Table.get?_insert_of_ne _ (Ne.symm hname), if_neg hname]
        simp

/-! ## All paths -/

/-- One more element is kept if it has not come up before. -/
theorem eraseDups_append_toList (done : List String) (next : Option String) :
    (done ++ next.toList).eraseDups =
      done.eraseDups ++ next.toList.filter (· ∉ done.eraseDups) := by
  rw [List.eraseDups_append]
  cases next with
  | none => rfl
  | some name =>
    by_cases hdone : name ∈ done <;> simp [List.removeAll, List.eraseDups_cons, hdone]

/-- The names of a level of the tree of some paths are those by which the paths go on
there, each where it first comes up. -/
theorem namesAt_ofPaths (paths names : List String) :
    namesAt (ofPaths paths) names =
      (paths.filterMap fun path => next? names (segments path)).eraseDups := by
  have hfold : ∀ reads done, namesAt reads names = done.eraseDups →
      namesAt (paths.foldl (fun reads path => addPath (segments path) reads) reads) names =
        (done ++ paths.filterMap fun path => next? names (segments path)).eraseDups := by
    induction paths with
    | nil =>
      intro reads done hdone
      rw [List.filterMap_nil, List.append_nil]
      exact hdone
    | cons path rest ih =>
      intro reads done hdone
      have hstep : namesAt (addPath (segments path) reads) names =
          (done ++ (next? names (segments path)).toList).eraseDups := by
        rw [namesAt_addPath, hdone, eraseDups_append_toList]
      rw [List.foldl_cons, ih _ _ hstep, List.append_assoc, List.filterMap_cons]
      cases next? names (segments path) <;> rfl
  have hempty : namesAt [] names = ([] : List String).eraseDups := by
    cases names <;> rfl
  rw [ofPaths_eq_foldl]
  exact hfold [] [] hempty

/-! ## Pruning -/

/-- A pruned read never holds a list with nothing in it. -/
theorem prune_ne (access : Access) : access.prune ≠ .into [] := by
  cases access with
  | plain => simp [prune]
  | into children =>
    rw [prune]
    cases pruneReads children <;> simp [ofChildren]

/-- The reads of a pruned tree are the pruned reads of the tree. -/
theorem node?_pruneReads (reads : List (String × Access)) (names : List String) :
    node? (pruneReads reads) names = (node? reads names).map prune := by
  induction names generalizing reads with
  | nil => rfl
  | cons name rest ih =>
    cases rest with
    | nil => exact get?_pruneReads reads name
    | cons next more =>
      rw [node?_cons (List.cons_ne_nil _ _), node?_cons (List.cons_ne_nil _ _), get?_pruneReads,
        Option.bind_map, Option.map_bind]
      refine Option.bind_congr ?_
      intro access _
      rw [Function.comp_apply, Function.comp_apply, children_prune]
      exact ih access.children

/-- A read that holds no empty list holds a list exactly if there are reads on its
value. -/
theorem exists_into_iff {access : Access} (h : access ≠ .into []) :
    (∃ children, access = .into children) ↔
      ∃ name, (Table.get? access.children name).isSome := by
  cases access with
  | plain => simp [children, Table.get?]
  | into children =>
    refine iff_of_true ⟨children, rfl⟩ ?_
    cases children with
    | nil => exact absurd rfl h
    | cons child rest => exact ⟨child.1, by simp [Access.children, Table.get?]⟩

/-! ## The tree -/

/-- In the tree of a list of dotted paths, a read stands under a sequence of names
exactly if some path begins with them.  On every level, the root included, the reads are
listed once each and in the order in which the paths first come to them.  A read holds a
list of reads exactly if there is a read on its value, so no list is empty. -/
theorem nodes_ofPaths (paths : List String) :
    (∀ names, names ≠ [] →
      ((node? (ofPaths paths) names).isSome ↔ ∃ path ∈ paths, names <+: segments path)) ∧
    (∀ names level, at? (ofPaths paths) names = some level →
      (Table.keys level).Nodup ∧
        Table.keys level =
          (paths.filterMap fun path => next? names (segments path)).eraseDups) ∧
    ∀ names access, node? (ofPaths paths) names = some access →
      ((∃ children, access = .into children) ↔
        ∃ name, (node? (ofPaths paths) (names ++ [name])).isSome) ∧
      access ≠ .into [] := by
  refine ⟨?_, ?_, ?_⟩
  · intro names hnames
    have hat := @isSome_at?_ofPaths_iff paths names
    rwa [at?_eq_map_node? hnames, Option.isSome_map, or_iff_right hnames] at hat
  · intro names level hlevel
    refine ⟨((wellFormedTable_ofPaths paths).at? hlevel).nodup, ?_⟩
    rw [← namesAt_ofPaths, namesAt, hlevel, Option.getD_some]
  · intro names access hnode
    have hnames : names ≠ [] := by
      intro hnil
      rw [hnil] at hnode
      cases hnode
    have hne : access ≠ .into [] := by
      rw [ofPaths, node?_pruneReads, Option.map_eq_some_iff] at hnode
      obtain ⟨grown, -, rfl⟩ := hnode
      exact prune_ne grown
    refine ⟨?_, hne⟩
    rw [exists_into_iff hne]
    simp only [node?_append_singleton, at?_eq_map_node? hnames, hnode, Option.map_some,
      Option.bind_some]

/-- Empty segments are skipped, a path of nothing else adds nothing, and a read to which
a later path only comes back stays where it is. -/
theorem nodes_ofPaths_empty_segments :
    let paths := ["user.name", ".", "onClick.", "user..id.x", "user", "onClick"]
    let id : Access := .into [("x", .plain)]
    ["user", "id"] ≠ [] ∧ (node? (ofPaths paths) ["user", "id"]).isSome ∧
      at? (ofPaths paths) ["user"] = some [("name", .plain), ("id", id)] ∧
      Table.keys [("name", .plain), ("id", id)] =
        (paths.filterMap fun path => next? ["user"] (segments path)).eraseDups ∧
      node? (ofPaths paths) ["onClick"] = some .plain ∧
      ¬ ∃ name, (node? (ofPaths paths) (["onClick"] ++ [name])).isSome := by
  intro paths id
  obtain ⟨hnodes, hlevels, hlists⟩ := nodes_ofPaths paths
  have hnames : ["user", "id"] ≠ [] := List.cons_ne_nil _ _
  have hlevel : at? (ofPaths paths) ["user"] = some [("name", .plain), ("id", id)] := by
    cbv
  have hplain : node? (ofPaths paths) ["onClick"] = some .plain := by cbv
  refine ⟨hnames, (hnodes _ hnames).2 ⟨"user..id.x", by simp [paths], ["x"], by cbv⟩, hlevel,
    (hlevels _ _ hlevel).2, hplain, ?_⟩
  rw [← (hlists _ _ hplain).1]
  intro hlist
  obtain ⟨children, hinto⟩ := hlist
  cases hinto

end Access

end ComponentProps
