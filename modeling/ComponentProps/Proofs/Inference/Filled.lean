import ComponentProps.Proofs.Inference.Levels
import ComponentProps.Proofs.Shape.Filled

/-!
# Inferred shapes are filled

The declarations contribute filled slots, since a `one_of` without values and a
`shape` without fields are leaves, and a level that joins some reads with them is
never empty.  So no object in an inferred shape is empty, at any depth.

* `Entry.filled_slot`: what a declaration contributes.
* `Inference.level_eq_nil_iff`: when a level is empty.
* `Inference.filled_level`: the induction over the reads, and
  `Inference.filled_level_of_resolveAll`, for the declarations of a component.
* `infer_eq_none_iff`, `infer_filled`: when there is no shape, and that no object
  in a shape is empty.
-/

namespace ComponentProps

/-! ## Declarations -/

/-- What a declaration contributes to a level is filled. -/
theorem Entry.filled_slot (entry : Entry) : entry.slot.Filled := by
  cases entry with
  | tag known => exact Slot.filled_leaf known
  | oneOf choices =>
    by_cases hnone : choices = []
    · rw [hnone]
      exact Slot.filled_leaf .any
    rw [slot_oneOf_of_ne_nil hnone]
    refine Slot.filled_leaves ?_ ?_
    · rw [ne_eq, Table.ofEntries_eq_nil_iff, List.map_eq_nil_iff]
      exact hnone
    · intro entry hentry
      rcases Table.mem_of_mem_insertAll hentry with hentry | hentry
      · cases hentry
      · obtain ⟨choice, -, rfl⟩ := List.mem_map.1 hentry
        exact ⟨.any, rfl⟩
  | shape fields =>
    by_cases hnone : fields = []
    · rw [hnone]
      exact Slot.filled_leaf .any
    rw [slot_shape_of_ne_nil hnone]
    refine Slot.filled_leaves (by simpa using hnone) ?_
    intro entry hentry
    obtain ⟨field, -, rfl⟩ := List.mem_map.1 hentry
    exact ⟨field.2, rfl⟩
  | unknown reason => exact Slot.filled_leaf .any

/-! ## Levels -/

namespace Inference

variable {deep : Bool} {declarations : List (String × Declaration)}
  {declared : List (String × Slot)}

theorem filled_of_resolveAll (h : resolveAll declarations = .ok declared) :
    ∀ entry ∈ declared, entry.2.Filled := by
  intro (name, slot) hslot
  obtain ⟨_, entry, _, _, rfl⟩ := (mem_of_resolveAll_iff h).1 hslot
  exact entry.filled_slot

/-- A level is empty only if nothing is read and nothing declared: where nothing
is declared, no read is dropped. -/
theorem level_eq_nil_iff {reads : List (String × Access)} :
    level deep declared reads = [] ↔ reads = [] ∧ declared = [] := by
  rw [level, Table.ofEntries_eq_nil_iff, List.append_eq_nil_iff]
  refine and_congr_left ?_
  rintro rfl
  have hkeys : Table.keys (undeclared deep [] reads) = Table.keys reads := by
    simp [keys_undeclared]
  rw [← List.map_eq_nil_iff (f := Prod.fst), ← Table.keys, hkeys, Table.keys,
    List.map_eq_nil_iff]

/-- A level of something read or declared is filled if its reads are. -/
theorem filled_level_of_undeclared (hdeclared : ∀ entry ∈ declared, entry.2.Filled)
    {reads : List (String × Access)} (hsome : reads ≠ [] ∨ declared ≠ [])
    (hreads : ∀ entry ∈ undeclared deep declared reads, entry.2.Filled) :
    (Slot.nested (level deep declared reads)).Filled := by
  refine Slot.filled_nested_iff.2 ⟨?_, ?_⟩
  · rw [ne_eq, level_eq_nil_iff, not_and_or]
    exact hsome
  · intro entry hentry
    rcases mem_of_mem_level hentry with hentry | hentry
    · exact hreads entry hentry
    · exact hdeclared entry hentry

/-- A level of something read or declared is filled, at every depth. -/
theorem filled_level (hdeclared : ∀ entry ∈ declared, entry.2.Filled)
    {reads : List (String × Access)} (hsome : reads ≠ [] ∨ declared ≠ []) :
    (Slot.nested (level deep declared reads)).Filled := by
  refine filled_level_of_undeclared hdeclared hsome ?_
  refine undeclared_induction (Slot.filled_leaf .any) ?_ reads
  intro below hbelow hentries
  exact filled_level_of_undeclared hdeclared (Or.inl hbelow) hentries

/-- A level of something read or declared is filled, whatever the declarations
resolve to. -/
theorem filled_level_of_resolveAll {reads : List (String × Access)}
    (hsome : reads ≠ [] ∨ declarations ≠ []) (hdeclared : resolveAll declarations = .ok declared) :
    (Slot.nested (level deep declared reads)).Filled := by
  have hnone : declared = [] ↔ declarations = [] :=
    Table.eq_nil_iff_of_perm (.of_eq (keys_of_resolveAll hdeclared))
  exact filled_level (filled_of_resolveAll hdeclared) (hsome.imp_right (mt hnone.1))

end Inference

/-! ## The shape of a component -/

open Inference

/-- There is no shape only where nothing is read and nothing declared. -/
theorem infer_eq_none_iff {deep : Bool} {reads : Table Access}
    {declarations : Table Declaration} :
    infer deep reads declarations = .ok none ↔ reads = [] ∧ declarations = [] := by
  constructor
  · intro h
    by_contra hsome
    rw [infer_of_ne_nil (not_and_or.1 hsome), Except.map_eq_ok_iff] at h
    obtain ⟨_, _, hnone⟩ := h
    cases hnone
  · rintro ⟨rfl, rfl⟩
    rfl

/-- A shape that is inferred is a level of the resolved declarations. -/
theorem exists_level_of_infer {deep : Bool} {reads : Table Access}
    {declarations : Table Declaration} {shape : Shape}
    (h : infer deep reads declarations = .ok (some shape)) :
    (reads ≠ [] ∨ declarations ≠ []) ∧
      ∃ declared, resolveAll declarations = .ok declared ∧ shape = level deep declared reads := by
  have hsome : reads ≠ [] ∨ declarations ≠ [] := by
    rw [← not_and_or]
    intro hempty
    rw [infer_eq_none_iff.2 hempty] at h
    cases h
  rw [infer_of_ne_nil hsome, Except.map_eq_ok_iff] at h
  obtain ⟨declared, hdeclared, hshape⟩ := h
  exact ⟨hsome, declared, hdeclared, (Option.some.inj hshape).symm⟩

/-- If inference does not fail, it gives no shape exactly where reads and
declarations are each missing or empty.  In a shape that it gives, every object
has a key and a leaf below it, from the shape itself down to any depth. -/
theorem infer_filled {deep : Bool} {reads : Option (Table Access)}
    {declarations : Option (Table Declaration)} {result : Option Shape}
    (h : infer deep (reads.getD []) (declarations.getD []) = .ok result) :
    (result = none ↔
      (reads = none ∨ reads = some []) ∧ (declarations = none ∨ declarations = some [])) ∧
      ∀ shape, result = some shape → ∀ slots, (Slot.nested slots).Within (.nested shape) →
        slots ≠ [] ∧ 1 ≤ Shape.leafCount slots ∧
          ∃ tag, (Slot.leaf tag).Within (.nested slots) := by
  constructor
  · have hmissing {α : Type} (table : Option (Table α)) :
        table.getD [] = [] ↔ table = none ∨ table = some [] := by
      cases table <;> simp
    have hnone : infer deep (reads.getD []) (declarations.getD []) = .ok none ↔
        reads.getD [] = [] ∧ declarations.getD [] = [] := infer_eq_none_iff
    rw [← hmissing, ← hmissing, ← hnone, h, Except.ok.injEq]
  · rintro shape rfl slots hslots
    obtain ⟨hsome, declared, hdeclared, rfl⟩ := exists_level_of_infer h
    have hlevel : (Slot.nested (level deep declared (reads.getD []))).Filled :=
      filled_level_of_resolveAll hsome hdeclared
    obtain ⟨keys, tag, hleaf⟩ := (hlevel.of_within hslots).exists_leaf
    have htag := Slot.within_of_at? hleaf
    exact ⟨hlevel slots hslots, Slot.leafCount_pos_of_within htag, tag, htag⟩

/-- The level of a read whose own reads are all declared holds what is declared,
and a `one_of` without values is a leaf of it. -/
theorem infer_filled_shadowed_reads :
    let reads : Table Access := [("user", .into [("size", .plain)])]
    let declarations : Table Declaration := [("size", .call "one_of" [.choices []])]
    ∃ shape slots, infer true reads declarations = .ok (some shape) ∧
      (Slot.nested slots).Within (.nested shape) ∧ Table.keys slots = ["size"] ∧
      slots ≠ [] ∧ 1 ≤ Shape.leafCount slots ∧
        ∃ tag, (Slot.leaf tag).Within (.nested slots) := by
  intro reads declarations
  let slots : List (String × Slot) := [("size", .leaf .any)]
  have hshape : infer true ((some reads).getD []) ((some declarations).getD []) =
      .ok (some [("user", .nested slots), ("size", .leaf .any)]) := rfl
  have hslots : (Slot.nested slots).Within
      (.nested [("user", .nested slots), ("size", .leaf .any)]) :=
    .under List.mem_cons_self (.refl _)
  obtain ⟨_, hfilled⟩ := infer_filled hshape
  exact ⟨_, slots, hshape, hslots, rfl, hfilled _ rfl slots hslots⟩

end ComponentProps
