import ComponentProps.Proofs.Accessor.WellFormed

/-!
# Comparing trees of reads

Two trees of reads are compared level by level, by the names of the reads.  A
read whose value is not read any further counts as one with no reads on its
value, however it is given.

There are four groups.

* `Access.level_induction`: what holds of a level if it holds of the levels below
  its reads.
* `Access.Included`: one tree has at least the reads of another.
* `Access.Reordered`: two trees have the same reads, in any order on any level.
* Dotted paths.  `Access.at?` goes down a tree along names, and
  `isSome_at?_ofPaths_iff` says which names lead into the tree of some paths:
  those along which some path begins.  So the order of the paths and how often
  each of them comes up do not count, which is `reordered_ofPaths`.
-/

namespace ComponentProps

namespace Access

variable {reads others : List (String × Access)}

/-- What holds of a level if it holds of the reads on the values of its reads
holds of every level. -/
@[elab_as_elim]
theorem level_induction {motive : List (String × Access) → Prop}
    (level : ∀ reads, (∀ name access, (name, access) ∈ reads → motive access.children) →
      motive reads) (reads : List (String × Access)) : motive reads := by
  refine level reads ?_
  intro name access hread
  have hlt : sizeOf access.children < sizeOf reads := by
    have hentry : sizeOf (name, access) < sizeOf reads := List.sizeOf_lt_of_mem hread
    cases access with
    | plain =>
      simp only [Prod.mk.sizeOf_spec, plain.sizeOf_spec] at hentry
      simp only [children, List.nil.sizeOf_spec]
      omega
    | into children =>
      simp only [Prod.mk.sizeOf_spec, into.sizeOf_spec] at hentry
      simp only [Access.children]
      omega
  exact level_induction level access.children
termination_by sizeOf reads

/-! ## More reads -/

/-- Every read of one tree is in the other as well, on every level. -/
inductive Included : List (String × Access) → List (String × Access) → Prop
  | intro {reads others : List (String × Access)}
      (hnames : ∀ name ∈ Table.keys reads, name ∈ Table.keys others)
      (hbelow : ∀ name access other, (name, access) ∈ reads → (name, other) ∈ others →
        Included access.children other.children) : Included reads others

/-- A read of a level has a counterpart with at least the reads on its value. -/
theorem Included.exists_mem (h : Included reads others) {name : String} {access : Access}
    (hread : (name, access) ∈ reads) :
    ∃ other, (name, other) ∈ others ∧ Included access.children other.children := by
  obtain ⟨hnames, hbelow⟩ := h
  obtain ⟨other, hother⟩ := Table.mem_keys_iff.1 (hnames name (List.mem_map_of_mem hread))
  exact ⟨other, hother, hbelow name access other hread hother⟩

theorem Included.ne_nil (h : Included reads others) (hreads : reads ≠ []) : others ≠ [] := by
  obtain ⟨⟨name, access⟩, hread⟩ := List.exists_mem_of_ne_nil reads hreads
  obtain ⟨other, hother, -⟩ := h.exists_mem hread
  exact List.ne_nil_of_mem hother

/-! ## Reads in another order -/

/-- Two trees have the same names on every level, in any order. -/
inductive Reordered : List (String × Access) → List (String × Access) → Prop
  | intro {reads others : List (String × Access)}
      (hnames : (Table.keys reads).Perm (Table.keys others))
      (hbelow : ∀ name access other, (name, access) ∈ reads → (name, other) ∈ others →
        Reordered access.children other.children) : Reordered reads others

theorem Reordered.symm (h : Reordered reads others) : Reordered others reads := by
  induction h with
  | intro hnames _ ih =>
    exact .intro hnames.symm fun name other access hother hread =>
      ih name access other hread hother

/-- A read of a level has a counterpart with the same reads on its value. -/
theorem Reordered.exists_mem (h : Reordered reads others) {name : String} {access : Access}
    (hread : (name, access) ∈ reads) :
    ∃ other, (name, other) ∈ others ∧ Reordered access.children other.children := by
  obtain ⟨hnames, hbelow⟩ := h
  obtain ⟨other, hother⟩ := Table.mem_keys_iff.1 (hnames.mem_iff.1 (List.mem_map_of_mem hread))
  exact ⟨other, hother, hbelow name access other hread hother⟩

theorem Reordered.eq_nil_iff (h : Reordered reads others) : reads = [] ↔ others = [] := by
  obtain ⟨hnames, -⟩ := h
  exact Table.eq_nil_iff_of_perm hnames

/-- Distinct names stay distinct in another order, on every level. -/
theorem Reordered.wellFormed (h : Reordered reads others) (hreads : WellFormedTable reads) :
    WellFormedTable others := by
  induction h with
  | @intro reads others hnames hbelow ih =>
    refine wellFormedTable_iff.2 ⟨hnames.nodup_iff.1 hreads.nodup, ?_⟩
    intro (name, other) hother
    obtain ⟨access, hread⟩ := Table.mem_keys_iff.1 (hnames.mem_iff.2 (List.mem_map_of_mem hother))
    have hchildren := ih name access other hread hother (hreads.children hread)
    cases other with
    | plain => trivial
    | into children => exact hchildren

/-! ## Names that lead into a tree -/

/-- The reads that stand under a sequence of names. -/
def at? : List (String × Access) → List String → Option (List (String × Access))
  | reads, [] => some reads
  | reads, name :: names => (Table.get? reads name).bind fun access => at? access.children names

@[simp] theorem at?_nil (reads : List (String × Access)) : at? reads [] = some reads := rfl

theorem at?_cons (reads : List (String × Access)) (name : String) (names : List String) :
    at? reads (name :: names) =
      (Table.get? reads name).bind fun access => at? access.children names := rfl

theorem isSome_at?_singleton_iff {name : String} :
    (at? reads [name]).isSome ↔ name ∈ Table.keys reads := by
  rw [← Table.contains_iff, Table.contains, at?_cons]
  cases Table.get? reads name <;> simp

/-- Trees into which the same names lead are the same up to order. -/
theorem reordered_of_isSome_at?_iff (hreads : WellFormedTable reads)
    (hothers : WellFormedTable others)
    (h : ∀ names, (at? reads names).isSome ↔ (at? others names).isSome) :
    Reordered reads others := by
  induction reads using level_induction generalizing others with
  | _ reads ih =>
  refine .intro ?_ ?_
  · rw [List.perm_ext_iff_of_nodup hreads.nodup hothers.nodup]
    intro name
    rw [← isSome_at?_singleton_iff, ← isSome_at?_singleton_iff, h]
  · intro name access other hread hother
    have hbelow (names : List String) :
        (at? access.children names).isSome ↔ (at? other.children names).isSome := by
      have hnames := h (name :: names)
      rwa [at?_cons, at?_cons, (Table.get?_eq_some_iff hreads.nodup).2 hread,
        (Table.get?_eq_some_iff hothers.nodup).2 hother] at hnames
    exact ih name access hread (hreads.children hread) (hothers.children hother) hbelow

/-! ## Dotted paths -/

/-- A path adds the names along which it begins, and nothing else. -/
theorem isSome_at?_addPath_iff {path names : List String} {reads : Table Access} :
    (at? (addPath path reads) names).isSome ↔ (at? reads names).isSome ∨ names <+: path := by
  induction path generalizing reads names with
  | nil =>
    rw [addPath, List.prefix_nil]
    refine (or_iff_left_of_imp ?_).symm
    rintro rfl
    rfl
  | cons segment rest ih =>
    cases names with
    | nil => simp
    | cons name names =>
      rw [addPath, at?_cons, at?_cons]
      by_cases hname : name = segment
      · subst hname
        rw [Table.get?_insert_self, Option.bind_some, children_ofChildren, ih,
          List.cons_prefix_cons]
        cases Table.get? reads name with
        | some access => simp
        | none =>
          -- nothing was read under the segment, so only the empty sequence leads anywhere
          cases names <;> simp [at?, Table.get?]
      · have hprefix : ¬ name :: names <+: segment :: rest := by
          rw [List.cons_prefix_cons]
          exact fun h => hname h.1
        rw [Table.get?_insert_of_ne _ (Ne.symm hname), or_iff_left hprefix]

/-- The names that lead into the tree of some paths are those along which one of
the paths begins. -/
theorem isSome_at?_ofPaths_iff {paths names : List String} :
    (at? (ofPaths paths) names).isSome ↔
      names = [] ∨ ∃ path ∈ paths, names <+: segments path := by
  have hfold : ∀ reads, (at? (paths.foldl (fun reads path => addPath (segments path) reads)
      reads) names).isSome ↔
        (at? reads names).isSome ∨ ∃ path ∈ paths, names <+: segments path := by
    induction paths with
    | nil => simp
    | cons path rest ih =>
      intro reads
      rw [List.foldl_cons, ih, isSome_at?_addPath_iff, or_assoc]
      simp only [List.mem_cons, exists_eq_or_imp]
  rw [ofPaths_eq_foldl, hfold]
  refine or_congr_left ?_
  cases names <;> simp [at?, Table.get?]

/-- The order of dotted paths and how often each comes up do not count. -/
theorem reordered_ofPaths {paths others : List String}
    (h : ∀ path, path ∈ paths ↔ path ∈ others) : Reordered (ofPaths paths) (ofPaths others) := by
  refine reordered_of_isSome_at?_iff (wellFormedTable_ofPaths paths)
    (wellFormedTable_ofPaths others) ?_
  intro names
  simp only [isSome_at?_ofPaths_iff, h]

end Access

end ComponentProps
