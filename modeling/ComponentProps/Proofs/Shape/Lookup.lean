import ComponentProps.Proofs.Shape.Sites

/-!
# Slots by their keys

`Slot.at?` goes down a slot along a sequence of keys, as `Literal.at?` goes down
a literal.

* `Slot.at?_nested_cons`: one step.
* `Slot.leaf_mem_sites_iff`: the leaves that are found are those among the sites.
-/

namespace ComponentProps

namespace Slot

/-- The slot under a sequence of keys.  There is none below a leaf. -/
def at? : Slot → List String → Option Slot
  | slot, [] => some slot
  | .nested slots, key :: keys => (Table.get? slots key).bind (at? · keys)
  | .leaf _, _ :: _ => none

@[simp] theorem at?_nil (slot : Slot) : slot.at? [] = some slot := by
  cases slot <;> rfl

@[simp] theorem at?_leaf_cons (tag : Tag) (key : String) (keys : List String) :
    (leaf tag).at? (key :: keys) = none := rfl

theorem at?_nested_cons (slots : List (String × Slot)) (key : String) (keys : List String) :
    (nested slots).at? (key :: keys) = (Table.get? slots key).bind (at? · keys) := rfl

/-- Only a leaf can be found at the end of a leaf. -/
theorem at?_leaf_eq_some_iff {tag : Tag} {keys : List String} {slot : Slot} :
    (leaf tag).at? keys = some slot ↔ keys = [] ∧ slot = .leaf tag := by
  cases keys with
  | nil => simp [eq_comm]
  | cons key keys => simp

/-- The leaves that are found by their keys are those among the sites. -/
theorem leaf_mem_sites_iff {slot : Slot} (hslot : slot.WellFormed) {keys : List String}
    {tag : Tag} : Site.leaf keys tag ∈ slot.sites ↔ slot.at? keys = some (.leaf tag) := by
  induction keys generalizing slot with
  | nil =>
    rw [at?_nil, Option.some.injEq]
    cases slot with
    | leaf other =>
      rw [sites_leaf, List.mem_singleton, Site.leaf.injEq, Slot.leaf.injEq]
      exact ⟨fun h => h.2.symm, fun h => ⟨rfl, h.symm⟩⟩
    | nested slots =>
      refine iff_of_false ?_ (by simp)
      rw [sites_nested, List.mem_cons, not_or]
      refine ⟨by simp, ?_⟩
      rw [Shape.mem_sites_iff]
      rintro ⟨key, slot, inner, -, -, hsite⟩
      cases inner <;> cases hsite
  | cons key keys ih =>
    cases slot with
    | leaf other => simp
    | nested slots =>
      rw [wellFormed_nested_iff] at hslot
      have hkeys : (Table.keys slots).Nodup := (Shape.wellFormed_iff.1 hslot).1
      rw [at?_nested_cons, Option.bind_eq_some_iff, sites_nested, List.mem_cons,
        or_iff_right (by simp), Shape.mem_sites_iff]
      constructor
      · rintro ⟨other, inner, site, hmem, hsite, heq⟩
        cases site with
        | container others => cases heq
        | leaf others found =>
          cases heq
          exact ⟨inner, (Table.get?_eq_some_iff hkeys).2 hmem, (ih (hslot.of_mem hmem)).1 hsite⟩
      · rintro ⟨inner, hget, hleaf⟩
        have hmem : (key, inner) ∈ slots := Table.mem_of_get? hget
        exact ⟨key, inner, .leaf keys tag, hmem, (ih (hslot.of_mem hmem)).2 hleaf, rfl⟩

end Slot

/-- The leaves of a shape that are found by their keys are those among its sites. -/
theorem Shape.leaf_mem_sites_iff {slots : List (String × Slot)} (hslots : Shape.WellFormed slots)
    {keys : List String} {tag : Tag} :
    Site.leaf keys tag ∈ Shape.sites slots ↔ (Slot.nested slots).at? keys = some (.leaf tag) := by
  have hslot : (Slot.nested slots).WellFormed := hslots
  rw [← Slot.leaf_mem_sites_iff hslot, Slot.sites_nested, List.mem_cons, or_iff_right (by simp)]

end ComponentProps
