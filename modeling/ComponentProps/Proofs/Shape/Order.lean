import ComponentProps.Proofs.Shape.Sites
import Mathlib.Data.List.Perm.Subperm

/-!
# Shapes in another order

Two shapes are the same if they have the same keys on every level, in any order,
with the same slots.  So they have the same sites, in another order.

* `Shape.perm_keys_of_same`, `Shape.exists_of_same`: one level of a shape in
  another order.
* `Slot.perm_sites_of_same`: every level, by induction over the slot.  The sites of
  a level are gathered key by key (`Shape.sites_eq_flatMap`), so that the order of
  the keys is all that is left.
-/

namespace ComponentProps

variable {slots others : List (String × Slot)}

/-! ## One level -/

/-- Only a leaf with the tag is the same as a leaf. -/
theorem Slot.eq_of_leaf_same {tag : Tag} {other : Slot} (h : (Slot.leaf tag).same other = true) :
    other = .leaf tag := by
  cases other with
  | leaf tag' =>
    rw [Slot.same, beq_iff_eq] at h
    rw [h]
  | nested others => cases h

/-- Only an object is the same as an object. -/
theorem Slot.exists_of_nested_same {other : Slot} (h : (Slot.nested slots).same other = true) :
    ∃ others, other = .nested others ∧ Shape.same slots others = true := by
  cases other with
  | leaf tag => cases h
  | nested others => exact ⟨others, rfl, h⟩

/-- A key of a shape has the same slot in the other. -/
theorem Shape.exists_of_same (h : Shape.same slots others = true) {key : String} {slot : Slot}
    (hmem : (key, slot) ∈ slots) :
    ∃ other, (key, other) ∈ others ∧ slot.same other = true := by
  rw [Shape.same, Bool.and_eq_true, Shape.agrees_iff] at h
  obtain ⟨other, hother, hsame⟩ := h.2 _ hmem
  exact ⟨other, Table.mem_of_get? hother, hsame⟩

/-- The slots of a key in both shapes are the same. -/
theorem Shape.same_of_mem (hothers : Shape.WellFormed others)
    (h : Shape.same slots others = true) {key : String} {slot other : Slot}
    (hslot : (key, slot) ∈ slots) (hother : (key, other) ∈ others) :
    slot.same other = true := by
  have hnodup : (Table.keys others).Nodup := (Shape.wellFormed_iff.1 hothers).1
  obtain ⟨other', hother', hsame⟩ := Shape.exists_of_same h hslot
  have hget := (Table.get?_eq_some_iff hnodup).2 hother
  rw [(Table.get?_eq_some_iff hnodup).2 hother', Option.some.injEq] at hget
  rw [← hget]
  exact hsame

/-- The keys of a shape come up in the other, and there are no more of them. -/
theorem Shape.perm_keys_of_same (hslots : Shape.WellFormed slots)
    (h : Shape.same slots others = true) : (Table.keys slots).Perm (Table.keys others) := by
  have hsubset : Table.keys slots ⊆ Table.keys others := by
    intro key hkey
    obtain ⟨slot, hslot⟩ := Table.mem_keys_iff.1 hkey
    obtain ⟨other, hother, -⟩ := Shape.exists_of_same h hslot
    exact List.mem_map_of_mem hother
  have hlength : (Table.keys others).length ≤ (Table.keys slots).length := by
    rw [Shape.same, Bool.and_eq_true, beq_iff_eq] at h
    rw [Table.keys, Table.keys, List.length_map, List.length_map]
    exact Nat.le_of_eq h.1.symm
  have hnodup : (Table.keys slots).Nodup := (Shape.wellFormed_iff.1 hslots).1
  exact (List.subperm_of_subset hnodup hsubset).perm_of_length_le hlength

/-! ## Every level -/

/-- The sites under a key of a shape. -/
def Shape.sitesUnder (slots : List (String × Slot)) (key : String) : List Site :=
  ((Table.get? slots key).map fun slot => slot.sites.map (Site.below key)).getD []

theorem Shape.sitesUnder_of_mem (hslots : Shape.WellFormed slots) {key : String} {slot : Slot}
    (hmem : (key, slot) ∈ slots) :
    Shape.sitesUnder slots key = slot.sites.map (Site.below key) := by
  have hnodup : (Table.keys slots).Nodup := (Shape.wellFormed_iff.1 hslots).1
  rw [Shape.sitesUnder, (Table.get?_eq_some_iff hnodup).2 hmem]
  rfl

/-- The sites of a shape are gathered key by key. -/
theorem Shape.sites_eq_flatMap (hslots : Shape.WellFormed slots) :
    Shape.sites slots = (Table.keys slots).flatMap (Shape.sitesUnder slots) := by
  have hentries : Shape.sites slots =
      slots.flatMap fun entry => entry.2.sites.map (Site.below entry.1) := by
    clear hslots
    induction slots with
    | nil => rfl
    | cons entry rest ih => rw [List.flatMap_cons, ← ih, Shape.sites_cons]
  rw [hentries, Table.keys, List.flatMap_map]
  refine List.flatMap_congr ?_
  intro entry hentry
  exact (Shape.sitesUnder_of_mem hslots hentry).symm

/-- The same slots have the same sites, in another order. -/
theorem Slot.perm_sites_of_same {slot other : Slot} (hslot : slot.WellFormed)
    (hother : other.WellFormed) (h : slot.same other = true) :
    slot.sites.Perm other.sites := by
  induction slot generalizing other with
  | leaf tag => rw [Slot.eq_of_leaf_same h]
  | nested slots ih =>
    obtain ⟨others, rfl, hsame⟩ := Slot.exists_of_nested_same h
    rw [Slot.sites_nested, Slot.sites_nested, Shape.sites_eq_flatMap hslot,
      Shape.sites_eq_flatMap hother]
    refine .cons _ (List.Perm.flatMap (Shape.perm_keys_of_same hslot hsame) ?_)
    intro key hkey
    obtain ⟨inner, hinner⟩ := Table.mem_keys_iff.1 hkey
    obtain ⟨inner', hinner', hinnerSame⟩ := Shape.exists_of_same hsame hinner
    rw [Shape.sitesUnder_of_mem hslot hinner, Shape.sitesUnder_of_mem hother hinner']
    exact (ih _ hinner (hslot.of_mem hinner) (Shape.WellFormed.of_mem hother hinner')
      hinnerSame).map _

end ComponentProps
