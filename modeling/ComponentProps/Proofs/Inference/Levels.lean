import ComponentProps.Proofs.Accessor.WellFormed
import ComponentProps.Proofs.Inference.Declared

/-!
# The levels of an inferred shape

An inferred shape has a level for the root, and with deep reads one for every
read that is not declared and whose value is read further.  `Expanded` says
which reads have a level, by the names that lead to it.

There are three groups.

* One level.  `keys_level` gives its keys in order, and `get?_level_read` and
  `get?_level_declared` the slot of each.  `Joins` collects this.
* All levels.  `at?_level` finds the level of an expanded read, and
  `inferred_of_at?` shows that a shape holds nothing but its levels, the leaves
  of the other reads, and the declared slots.
* `infer_levels` puts the two together for the shape of some reads and
  declarations.
-/

namespace ComponentProps

namespace Inference

/-- A read has a level of its own: reads are followed deeply, and its value is
read further. -/
def Expands (deep : Bool) (access : Access) : Prop := deep = true ∧ access.children ≠ []

/-- The levels of a shape, by the names of the reads that lead to them: the root,
and the reads below undeclared reads that have levels of their own. -/
inductive Expanded (deep : Bool) (declared : List String) :
    List (String × Access) → List String → List (String × Access) → Prop
  | root (reads : List (String × Access)) : Expanded deep declared reads [] reads
  | read {reads below : List (String × Access)} {name : String} {access : Access}
      {names : List String} (hread : (name, access) ∈ reads) (hname : name ∉ declared)
      (hexpands : Expands deep access)
      (hbelow : Expanded deep declared access.children names below) :
      Expanded deep declared reads (name :: names) below

variable {deep : Bool} {declarations : List (String × Declaration)}
  {declared : List (String × Slot)} {reads below : List (String × Access)}
  {names : List String}

/-- The reads of a level are well formed if those of the root are. -/
theorem Expanded.wellFormed {others : List String} (h : Expanded deep others reads names below)
    (hreads : Access.WellFormedTable reads) : Access.WellFormedTable below := by
  induction h with
  | root => exact hreads
  | read hread _ _ _ ih => exact ih (hreads.children hread)

/-- Where every read has a counterpart, every level has one: `R` relates the reads
of two levels, and is kept from each read to its counterpart. -/
theorem Expanded.counterpart {deep' : Bool} {names' path : List String}
    {R : List (String × Access) → List (String × Access) → Prop}
    (hR : ∀ {reads others}, R reads others → ∀ {name access}, (name, access) ∈ reads →
      ∃ other, (name, other) ∈ others ∧ R access.children other.children)
    (hdeep : deep = true → deep' = true) (hnames : ∀ name ∈ names', name ∈ names)
    (h : Expanded deep names reads path below) {counterparts : List (String × Access)}
    (hreads : R reads counterparts) :
    ∃ below', Expanded deep' names' counterparts path below' ∧ R below below' := by
  induction h generalizing counterparts with
  | root reads => exact ⟨counterparts, .root counterparts, hreads⟩
  | @read reads below name access path hread hname hexpands _ ih =>
    obtain ⟨hon, hsome⟩ := hexpands
    obtain ⟨other, hother, hchildren⟩ := hR hreads hread
    -- a value that is read further has a counterpart that is
    have hsome' : other.children ≠ [] := by
      obtain ⟨⟨_, child⟩, hchild⟩ := List.exists_mem_of_ne_nil _ hsome
      obtain ⟨child', hchild', -⟩ := hR hchildren hchild
      exact List.ne_nil_of_mem hchild'
    obtain ⟨below', hlevel, hbelow⟩ := ih hchildren
    exact ⟨below', .read hother (fun h => hname (hnames name h)) ⟨hdeep hon, hsome'⟩ hlevel, hbelow⟩

/-! ## One level -/

theorem readSlot_of_expands {access : Access} (h : Expands deep access) :
    readSlot deep declared access = .nested (level deep declared access.children) := by
  obtain ⟨hdeep, hchildren⟩ := h
  cases access with
  | plain => exact absurd rfl hchildren
  | into children =>
    cases children with
    | nil => exact absurd rfl hchildren
    | cons child rest =>
      rw [readSlot, if_pos hdeep]
      rfl

theorem readSlot_of_not_expands {access : Access} (h : ¬ Expands deep access) :
    readSlot deep declared access = .leaf .any := by
  cases access with
  | plain => rw [readSlot]; simp
  | into children =>
    cases children with
    | nil => rw [readSlot]; simp
    | cons child rest =>
      have hdeep : ¬ deep = true := fun hdeep => h ⟨hdeep, by simp [Access.children]⟩
      rw [readSlot, if_neg hdeep]

theorem keys_undeclared (reads : List (String × Access)) :
    Table.keys (undeclared deep declared reads) =
      (Table.keys reads).filter fun name => decide (name ∉ Table.keys declared) := by
  induction reads with
  | nil => rw [undeclared]; rfl
  | cons entry rest ih =>
    obtain ⟨name, access⟩ := entry
    rw [undeclared, Table.keys_cons, List.filter_cons]
    by_cases h : name ∈ Table.keys declared
    · rw [if_pos (Table.contains_iff.2 h), if_neg (by simpa using h), ih]
    · rw [if_neg (by rwa [Table.contains_iff]), if_pos (by simpa using h), Table.keys_cons, ih]

theorem get?_undeclared (reads : List (String × Access)) {name : String}
    (h : name ∉ Table.keys declared) :
    Table.get? (undeclared deep declared reads) name =
      (Table.get? reads name).map (readSlot deep declared) := by
  induction reads with
  | nil => rw [undeclared]; rfl
  | cons entry rest ih =>
    obtain ⟨other, access⟩ := entry
    rw [undeclared, Table.get?]
    split
    next hother =>
      -- a declared read is passed over, and `name` is not declared
      have hne : other ≠ name := by
        rintro rfl
        exact h (Table.contains_iff.1 hother)
      rw [if_neg hne, ih]
    · rw [Table.get?]
      split
      · rfl
      · exact ih

theorem nodup_keys_append (hreads : (Table.keys reads).Nodup)
    (hdeclared : (Table.keys declared).Nodup) :
    (Table.keys (undeclared deep declared reads ++ declared)).Nodup := by
  rw [Table.keys, List.map_append, ← Table.keys, ← Table.keys, keys_undeclared,
    List.nodup_append]
  refine ⟨hreads.filter _, hdeclared, ?_⟩
  intro name hname other hother
  rw [List.mem_filter, decide_eq_true_eq] at hname
  rintro rfl
  exact hname.2 hother

/-- With distinct names, nothing is overwritten on a level. -/
theorem level_eq_append (hreads : (Table.keys reads).Nodup)
    (hdeclared : (Table.keys declared).Nodup) :
    level deep declared reads = undeclared deep declared reads ++ declared :=
  Table.ofEntries_of_nodup (nodup_keys_append hreads hdeclared)

/-- A level lists the undeclared reads and then every declared name. -/
theorem keys_level (hreads : (Table.keys reads).Nodup)
    (hdeclared : (Table.keys declared).Nodup) :
    Table.keys (level deep declared reads) =
      ((Table.keys reads).filter fun name => decide (name ∉ Table.keys declared)) ++
        Table.keys declared := by
  rw [level_eq_append hreads hdeclared, Table.keys, List.map_append, ← Table.keys,
    ← Table.keys, keys_undeclared]

theorem nodup_keys_level (deep : Bool) (declared : List (String × Slot))
    (reads : List (String × Access)) : (Table.keys (level deep declared reads)).Nodup :=
  Table.nodup_keys_ofEntries _

/-- A declared name has its own slot, whatever was read under it. -/
theorem get?_level_declared (hreads : (Table.keys reads).Nodup)
    (hdeclared : (Table.keys declared).Nodup) {name : String}
    (h : name ∈ Table.keys declared) :
    Table.get? (level deep declared reads) name = Table.get? declared name := by
  have hnone : Table.get? (undeclared deep declared reads) name = none := by
    rw [Table.get?_eq_none_iff, keys_undeclared, List.mem_filter, decide_eq_true_eq]
    exact fun hmem => hmem.2 h
  rw [level_eq_append hreads hdeclared, Table.get?_append, hnone, Option.none_or]

/-- A read that is not declared has the slot of the read. -/
theorem get?_level_read (hreads : (Table.keys reads).Nodup)
    (hdeclared : (Table.keys declared).Nodup) {name : String}
    (h : name ∉ Table.keys declared) :
    Table.get? (level deep declared reads) name =
      (Table.get? reads name).map (readSlot deep declared) := by
  rw [level_eq_append hreads hdeclared, Table.get?_append, get?_undeclared reads h,
    Table.get?_eq_none_iff.2 h, Option.or_none]

/-- The slots of a level with these reads. -/
structure Joins (deep : Bool) (declarations : List (String × Declaration))
    (reads : List (String × Access)) (slots : List (String × Slot)) : Prop where
  /-- The undeclared reads come first, in their order, and then every declared name. -/
  keys : Table.keys slots =
    ((Table.keys reads).filter fun name => decide (name ∉ Table.keys declarations)) ++
      Table.keys declarations
  once : (Table.keys slots).Nodup
  nested : ∀ name access, (name, access) ∈ reads → name ∉ Table.keys declarations →
    ((∃ inner, Table.get? slots name = some (.nested inner)) ↔ Expands deep access)
  leaf : ∀ name access, (name, access) ∈ reads → name ∉ Table.keys declarations →
    ¬ Expands deep access → Table.get? slots name = some (.leaf .any)
  /-- A declared name has the slot of its own declaration, whatever was read. -/
  declared : ∀ name slot, Contributes declarations name slot → Table.get? slots name = some slot

theorem joins_level (hreads : (Table.keys reads).Nodup)
    (hdeclarations : (Table.keys declarations).Nodup)
    (h : resolveAll declarations = .ok declared) :
    Joins deep declarations reads (level deep declared reads) := by
  have hkeys : Table.keys declared = Table.keys declarations := keys_of_resolveAll h
  have hdeclared : (Table.keys declared).Nodup := hkeys ▸ hdeclarations
  have hread (name : String) (access : Access) (hmem : (name, access) ∈ reads)
      (hname : name ∉ Table.keys declarations) :
      Table.get? (level deep declared reads) name = some (readSlot deep declared access) := by
    rw [← hkeys] at hname
    rw [get?_level_read hreads hdeclared hname, (Table.get?_eq_some_iff hreads).2 hmem,
      Option.map_some]
  refine ⟨?_, nodup_keys_level deep declared reads, ?_, ?_, ?_⟩
  · rw [keys_level hreads hdeclared, hkeys]
  · intro name access hmem hname
    rw [hread name access hmem hname]
    by_cases hexpands : Expands deep access
    · simp [readSlot_of_expands hexpands, hexpands]
    · simp [readSlot_of_not_expands hexpands, hexpands]
  · intro name access hmem hname hplain
    rw [hread name access hmem hname, readSlot_of_not_expands hplain]
  · intro name slot hslot
    rw [← mem_of_resolveAll_iff h] at hslot
    rw [get?_level_declared hreads hdeclared (List.mem_map_of_mem hslot),
      (Table.get?_eq_some_iff hdeclared).2 hslot]

/-! ## All levels -/

/-- The level of an expanded read stands under the names that lead to it. -/
theorem at?_level (hreads : Access.WellFormedTable reads)
    (hdeclared : (Table.keys declared).Nodup)
    (h : Expanded deep (Table.keys declared) reads names below) (keys : List String) :
    (Slot.nested (level deep declared reads)).at? (names ++ keys) =
      (Slot.nested (level deep declared below)).at? keys := by
  induction h with
  | root => rfl
  | @read reads below name access names hread hname hexpands _ ih =>
    have hget : Table.get? reads name = some access :=
      (Table.get?_eq_some_iff hreads.nodup).2 hread
    rw [List.cons_append, Slot.at?_nested_cons, get?_level_read hreads.nodup hdeclared hname,
      hget, Option.map_some, Option.bind_some, readSlot_of_expands hexpands,
      ih (hreads.children hread)]

/-- On the level of every expanded read, a declared name has its own slot. -/
theorem at?_level_contributes (hreads : Access.WellFormedTable reads)
    (hdeclarations : (Table.keys declarations).Nodup)
    (hdeclared : resolveAll declarations = .ok declared)
    (h : Expanded deep (Table.keys declarations) reads names below) {name : String} {slot : Slot}
    (hslot : Contributes declarations name slot) :
    (Slot.nested (level deep declared reads)).at? (names ++ [name]) = some slot := by
  have hnames : Table.keys declared = Table.keys declarations := keys_of_resolveAll hdeclared
  have hjoins : Joins deep declarations below (level deep declared below) :=
    joins_level (h.wellFormed hreads).nodup hdeclarations hdeclared
  rw [← hnames] at h
  rw [at?_level hreads (hnames ▸ hdeclarations) h, Slot.at?_nested_cons,
    hjoins.declared name slot hslot, Option.bind_some, Slot.at?_nil]

/-- What may stand in a shape, with the keys that lead to it. -/
inductive Inferred (deep : Bool) (declarations : List (String × Declaration))
    (reads : List (String × Access)) : List String → Slot → Prop
  | level {names : List String} {below : List (String × Access)} {slots : List (String × Slot)}
      (hlevel : Expanded deep (Table.keys declarations) reads names below)
      (hslots : Joins deep declarations below slots) :
      Inferred deep declarations reads names (.nested slots)
  /-- A read that is not declared and has no level of its own. -/
  | read {names : List String} {below : List (String × Access)} {name : String}
      {access : Access} (hlevel : Expanded deep (Table.keys declarations) reads names below)
      (hread : (name, access) ∈ below) (hname : name ∉ Table.keys declarations)
      (hplain : ¬ Expands deep access) :
      Inferred deep declarations reads (names ++ [name]) (.leaf .any)
  /-- A declared slot, or a part of it. -/
  | declared {names : List String} {below : List (String × Access)} {name : String}
      {slot part : Slot} {keys : List String}
      (hlevel : Expanded deep (Table.keys declarations) reads names below)
      (hslot : Contributes declarations name slot) (hpart : slot.at? keys = some part) :
      Inferred deep declarations reads (names ++ name :: keys) part

/-- What stands below an expanded read stands in the shape. -/
theorem Inferred.of_read {name : String} {access : Access} {keys : List String} {slot : Slot}
    (hread : (name, access) ∈ reads) (hname : name ∉ Table.keys declarations)
    (hexpands : Expands deep access)
    (h : Inferred deep declarations access.children keys slot) :
    Inferred deep declarations reads (name :: keys) slot := by
  cases h with
  | level hlevel hslots => exact .level (.read hread hname hexpands hlevel) hslots
  | read hlevel hread' hname' hplain =>
    exact .read (.read hread hname hexpands hlevel) hread' hname' hplain
  | declared hlevel hslot hpart =>
    exact .declared (.read hread hname hexpands hlevel) hslot hpart

/-- A shape holds nothing but its levels, the leaves of the other reads, and the
declared slots. -/
theorem inferred_of_at? (hreads : Access.WellFormedTable reads)
    (hdeclarations : (Table.keys declarations).Nodup)
    (hdeclared : resolveAll declarations = .ok declared) {keys : List String} {slot : Slot}
    (h : (Slot.nested (level deep declared reads)).at? keys = some slot) :
    Inferred deep declarations reads keys slot := by
  have hnames : Table.keys declared = Table.keys declarations := keys_of_resolveAll hdeclared
  have hnodup : (Table.keys declared).Nodup := hnames ▸ hdeclarations
  induction keys generalizing reads with
  | nil =>
    rw [Slot.at?_nil, Option.some.injEq] at h
    exact h ▸ .level (.root reads) (joins_level hreads.nodup hdeclarations hdeclared)
  | cons key keys ih =>
    rw [Slot.at?_nested_cons, Option.bind_eq_some_iff] at h
    obtain ⟨inner, hget, hinner⟩ := h
    by_cases hkey : key ∈ Table.keys declared
    · rw [get?_level_declared hreads.nodup hnodup hkey] at hget
      have hslot := (mem_of_resolveAll_iff hdeclared).1 (Table.mem_of_get? hget)
      exact .declared (.root reads) hslot hinner
    · rw [get?_level_read hreads.nodup hnodup hkey, Option.map_eq_some_iff] at hget
      obtain ⟨access, haccess, rfl⟩ := hget
      have hread : (key, access) ∈ reads := Table.mem_of_get? haccess
      rw [hnames] at hkey
      by_cases hexpands : Expands deep access
      · rw [readSlot_of_expands hexpands] at hinner
        exact .of_read hread hkey hexpands (ih (hreads.children hread) hinner)
      · rw [readSlot_of_not_expands hexpands, Slot.at?_leaf_eq_some_iff] at hinner
        obtain ⟨rfl, rfl⟩ := hinner
        exact .read (.root reads) hread hkey hexpands

/-- The leaves of a shape are the undeclared reads without a level and the leaves
of the declared slots. -/
theorem at?_level_eq_leaf_iff (hreads : Access.WellFormedTable reads)
    (hdeclarations : (Table.keys declarations).Nodup)
    (hdeclared : resolveAll declarations = .ok declared) {keys : List String} {tag : Tag} :
    (Slot.nested (level deep declared reads)).at? keys = some (.leaf tag) ↔
      Inferred deep declarations reads keys (.leaf tag) := by
  refine ⟨inferred_of_at? hreads hdeclarations hdeclared, ?_⟩
  have hnames : Table.keys declared = Table.keys declarations := keys_of_resolveAll hdeclared
  have hnodup : (Table.keys declared).Nodup := hnames ▸ hdeclarations
  intro h
  cases h with
  | read hlevel hread hname hplain =>
    have hbelow := (hlevel.wellFormed hreads).nodup
    rw [← hnames] at hlevel hname
    rw [at?_level hreads hnodup hlevel, Slot.at?_nested_cons,
      get?_level_read hbelow hnodup hname, (Table.get?_eq_some_iff hbelow).2 hread,
      Option.map_some, Option.bind_some, Slot.at?_nil, readSlot_of_not_expands hplain]
  | declared hlevel hslot hpart =>
    have hbelow := (hlevel.wellFormed hreads).nodup
    rw [← mem_of_resolveAll_iff hdeclared] at hslot
    rw [← hnames] at hlevel
    rw [at?_level hreads hnodup hlevel, Slot.at?_nested_cons,
      get?_level_declared hbelow hnodup (List.mem_map_of_mem hslot),
      (Table.get?_eq_some_iff hnodup).2 hslot, Option.bind_some, hpart]

end Inference

/-! ## The shape of a component -/

open Inference

/-- With reads or declarations there is a shape if all declarations resolve. -/
theorem infer_of_ne_nil {reads : Table Access} {declarations : Table Declaration}
    (hsome : reads ≠ [] ∨ declarations ≠ []) (deep : Bool) :
    infer deep reads declarations =
      (fun declared => some (level deep declared reads)) <$> resolveAll declarations := by
  have hempty : ¬ (reads.isEmpty && declarations.isEmpty) = true := by
    rw [Bool.and_eq_true, List.isEmpty_iff, List.isEmpty_iff, not_and_or]
    exact hsome
  rw [infer, if_neg hempty]
  rfl

/-- If all declarations resolve, inference from reads and declarations that are
not both missing gives a shape.  The level of every expanded read joins the
undeclared reads of the level with everything that is declared, and nothing
else stands in the shape. -/
theorem infer_levels (deep : Bool) {reads : Table Access} (hreads : Access.WellFormedTable reads)
    {declarations : Table Declaration} (hdeclarations : (Table.keys declarations).Nodup)
    (hresolve : ∀ entry ∈ declarations, ∃ resolved, entry.2.resolve entry.1 = .ok resolved)
    (hsome : reads ≠ [] ∨ declarations ≠ []) :
    ∃ shape, infer deep reads declarations = .ok (some shape) ∧
      (∀ names below, Expanded deep (Table.keys declarations) reads names below →
        ∃ slots, (Slot.nested shape).at? names = some (.nested slots) ∧
          Joins deep declarations below slots) ∧
      ∀ keys slot, (Slot.nested shape).at? keys = some slot →
        Inferred deep declarations reads keys slot := by
  obtain ⟨declared, hdeclared⟩ := exists_resolveAll_iff.2 hresolve
  refine ⟨level deep declared reads, ?_, ?_, ?_⟩
  · rw [infer_of_ne_nil hsome, hdeclared]
    rfl
  · intro names below hlevel
    have hnames : Table.keys declared = Table.keys declarations := keys_of_resolveAll hdeclared
    have hnodup : (Table.keys declared).Nodup := hnames ▸ hdeclarations
    have hbelow := (hlevel.wellFormed hreads).nodup
    refine ⟨level deep declared below, ?_, joins_level hbelow hdeclarations hdeclared⟩
    rw [← hnames] at hlevel
    have hat := at?_level hreads hnodup hlevel []
    rwa [List.append_nil, Slot.at?_nil] at hat
  · exact fun keys slot hat => inferred_of_at? hreads hdeclarations hdeclared hat

/-- A declared name has its slot on the level of a read as well, also where it
was read. -/
theorem infer_levels_shadowed_read :
    let reads : Table Access :=
      [("user", .into [("name", .plain), ("size", .into [("unit", .plain)])]), ("size", .plain)]
    let declarations : Table Declaration := [("size", .tag .numberRequired)]
    Access.WellFormedTable reads ∧ (Table.keys declarations).Nodup ∧
      (∀ entry ∈ declarations, ∃ resolved, entry.2.resolve entry.1 = .ok resolved) ∧
      (reads ≠ [] ∨ declarations ≠ []) ∧
      ∃ shape slots, infer true reads declarations = .ok (some shape) ∧
        (Slot.nested shape).at? ["user"] = some (.nested slots) ∧
        Table.keys slots = ["name", "size"] ∧
        Table.get? slots "size" = some (.leaf .numberRequired) := by
  intro reads declarations
  have hreads : Access.WellFormedTable reads := by simp [reads]
  have hdeclarations : (Table.keys declarations).Nodup := by simp [declarations]
  have hresolve : ∀ entry ∈ declarations,
      ∃ resolved, entry.2.resolve entry.1 = .ok resolved := by
    intro entry hentry
    rw [List.mem_singleton.1 hentry]
    exact ⟨.tag .numberRequired, rfl⟩
  have hsome : reads ≠ [] ∨ declarations ≠ [] := Or.inl (by simp [reads])
  obtain ⟨shape, hshape, hlevels, -⟩ := infer_levels true hreads hdeclarations hresolve hsome
  have huser : Expanded true (Table.keys declarations) reads ["user"]
      [("name", .plain), ("size", .into [("unit", .plain)])] :=
    .read List.mem_cons_self (by simp [declarations]) ⟨rfl, by simp [Access.children]⟩ (.root _)
  obtain ⟨slots, hslots, hjoins⟩ := hlevels _ _ huser
  refine ⟨hreads, hdeclarations, hresolve, hsome, shape, slots, hshape, hslots, hjoins.keys, ?_⟩
  exact hjoins.declared _ _ ⟨_, _, List.mem_cons_self, rfl, rfl⟩

end ComponentProps
