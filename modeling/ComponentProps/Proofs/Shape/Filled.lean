import ComponentProps.Proofs.Shape.Lookup
import Mathlib

/-!
# Filled shapes

A slot is filled if no object in it is empty.  A filled slot is determined by its
leaves, up to the order of the keys on each level: every object on the way to a
leaf has to be there, and no object is there without a leaf below it.

There are two groups.

* `Slot.Within` is occurrence at any depth, and `Slot.Filled` says that no object
  within a slot is empty.  `Slot.Filled.exists_leaf` finds a leaf in a filled
  slot, and `Slot.leafCount_pos_of_within` counts it.
* `Slot.SameLeaves` compares two slots by their leaves, and
  `Slot.same_of_sameLeaves` shows that filled slots with the same leaves are the
  same up to order.
-/

namespace ComponentProps

/-! ## Objects that are not empty -/

/-- A slot stands in another at some depth, or is that slot. -/
inductive Slot.Within : Slot → Slot → Prop
  | refl (slot : Slot) : Within slot slot
  | under {slots : List (String × Slot)} {key : String} {slot inner : Slot}
      (hmem : (key, slot) ∈ slots) (hinner : Within inner slot) :
      Within inner (.nested slots)

/-- No object in a slot is empty. -/
def Slot.Filled (slot : Slot) : Prop := ∀ slots, Within (.nested slots) slot → slots ≠ []

namespace Slot

theorem Within.trans {slot middle outer : Slot} (hinner : slot.Within middle)
    (houter : middle.Within outer) : slot.Within outer := by
  induction houter with
  | refl => exact hinner
  | under hmem _ ih => exact .under hmem (ih hinner)

/-- What stands in a filled slot is filled. -/
theorem Filled.of_within {slot inner : Slot} (h : slot.Filled) (hinner : inner.Within slot) :
    inner.Filled :=
  fun slots hslots => h slots (hslots.trans hinner)

theorem filled_leaf (tag : Tag) : (leaf tag).Filled := by
  intro slots h
  cases h

theorem filled_nested_iff {slots : List (String × Slot)} :
    (nested slots).Filled ↔ slots ≠ [] ∧ ∀ entry ∈ slots, entry.2.Filled := by
  constructor
  · intro h
    exact ⟨h slots (.refl _), fun entry hentry => h.of_within (.under hentry (.refl _))⟩
  · rintro ⟨hsome, hentries⟩ inner hinner
    cases hinner with
    | refl => exact hsome
    | under hmem hinner => exact hentries _ hmem inner hinner

/-- What is found under some keys stands in the slot. -/
theorem within_of_at? {slot part : Slot} {keys : List String} (h : slot.at? keys = some part) :
    part.Within slot := by
  induction keys generalizing slot with
  | nil =>
    rw [at?_nil, Option.some.injEq] at h
    exact h ▸ .refl slot
  | cons key keys ih =>
    cases slot with
    | leaf tag => cases h
    | nested slots =>
      rw [at?_nested_cons, Option.bind_eq_some_iff] at h
      obtain ⟨inner, hinner, hpart⟩ := h
      exact .under (Table.mem_of_get? hinner) (ih hpart)

/-- A filled slot has a leaf: the first key of every object leads to one. -/
theorem Filled.exists_leaf {slot : Slot} (h : slot.Filled) :
    ∃ keys tag, slot.at? keys = some (.leaf tag) := by
  induction slot with
  | leaf tag => exact ⟨[], tag, rfl⟩
  | nested slots ih =>
    obtain ⟨hsome, hslots⟩ := filled_nested_iff.1 h
    cases slots with
    | nil => exact absurd rfl hsome
    | cons entry rest =>
      obtain ⟨keys, tag, hleaf⟩ := ih entry List.mem_cons_self (hslots entry List.mem_cons_self)
      refine ⟨entry.1 :: keys, tag, ?_⟩
      rw [at?_nested_cons, Table.get?, if_pos rfl, Option.bind_some, hleaf]

theorem filled_leaves {entries : List (String × Slot)} (hsome : entries ≠ [])
    (hleaves : ∀ entry ∈ entries, ∃ tag, entry.2 = .leaf tag) : (nested entries).Filled := by
  refine filled_nested_iff.2 ⟨hsome, ?_⟩
  intro entry hentry
  obtain ⟨tag, htag⟩ := hleaves entry hentry
  rw [htag]
  exact filled_leaf tag

theorem leafCount_le_of_mem {slots : List (String × Slot)} {entry : String × Slot}
    (h : entry ∈ slots) : entry.2.leafCount ≤ Shape.leafCount slots := by
  induction slots with
  | nil => cases h
  | cons first rest ih =>
    rw [Shape.leafCount]
    rcases List.mem_cons.1 h with rfl | h
    · exact Nat.le_add_right _ _
    · have hrest := ih h
      omega

/-- A slot with a leaf in it counts at least one. -/
theorem leafCount_pos_of_within {tag : Tag} {slot : Slot} (h : (leaf tag).Within slot) :
    1 ≤ slot.leafCount := by
  generalize hleaf : leaf tag = inner at h
  induction h with
  | refl slot =>
    subst hleaf
    exact Nat.le_refl 1
  | under hmem _ ih =>
    rw [leafCount]
    exact Nat.le_trans (ih hleaf) (leafCount_le_of_mem hmem)

/-! ## Slots with the same leaves -/

/-- Two slots have the same leaves under the same keys. -/
def SameLeaves (slot other : Slot) : Prop :=
  ∀ keys tag, slot.at? keys = some (.leaf tag) ↔ other.at? keys = some (.leaf tag)

theorem SameLeaves.symm {slot other : Slot} (h : slot.SameLeaves other) :
    other.SameLeaves slot :=
  fun keys tag => (h keys tag).symm

variable {slots others : List (String × Slot)}

/-- A key of a filled object leads to a leaf, so it is a key of the other object. -/
theorem SameLeaves.mem_keys (h : (nested slots).SameLeaves (.nested others))
    (hfilled : (nested slots).Filled) {key : String} (hkey : key ∈ Table.keys slots) :
    key ∈ Table.keys others := by
  rw [← Table.contains_iff, Table.contains, Option.isSome_iff_exists] at hkey
  obtain ⟨slot, hslot⟩ := hkey
  obtain ⟨keys, tag, hleaf⟩ :=
    ((filled_nested_iff.1 hfilled).2 _ (Table.mem_of_get? hslot)).exists_leaf
  have hat : (nested slots).at? (key :: keys) = some (.leaf tag) := by
    rw [at?_nested_cons, hslot, Option.bind_some, hleaf]
  have hat' := (h (key :: keys) tag).1 hat
  rw [at?_nested_cons, Option.bind_eq_some_iff] at hat'
  obtain ⟨other, hother, -⟩ := hat'
  exact List.mem_map_of_mem (Table.mem_of_get? hother)

/-- Below a key of both objects, the leaves are the same again. -/
theorem SameLeaves.below (h : (nested slots).SameLeaves (.nested others)) {key : String}
    {slot other : Slot} (hslot : Table.get? slots key = some slot)
    (hother : Table.get? others key = some other) : slot.SameLeaves other := by
  intro keys tag
  have hat := h (key :: keys) tag
  rwa [at?_nested_cons, at?_nested_cons, hslot, hother, Option.bind_some, Option.bind_some] at hat

theorem SameLeaves.perm_keys (h : (nested slots).SameLeaves (.nested others))
    (hslots : Shape.WellFormed slots) (hothers : Shape.WellFormed others)
    (hfilled : (nested slots).Filled) (hfilled' : (nested others).Filled) :
    (Table.keys slots).Perm (Table.keys others) := by
  have hnodup : (Table.keys slots).Nodup := (Shape.wellFormed_iff.1 hslots).1
  have hnodup' : (Table.keys others).Nodup := (Shape.wellFormed_iff.1 hothers).1
  rw [List.perm_ext_iff_of_nodup hnodup hnodup']
  intro key
  exact ⟨h.mem_keys hfilled, h.symm.mem_keys hfilled'⟩

/-- Filled slots with the same leaves are the same up to the order of their keys. -/
theorem same_of_sameLeaves {slot other : Slot} (hslot : slot.WellFormed)
    (hother : other.WellFormed) (hfilled : slot.Filled) (hfilled' : other.Filled)
    (h : slot.SameLeaves other) : slot.same other = true := by
  induction slot generalizing other with
  | leaf tag =>
    have hleaf : other = .leaf tag := by
      simpa using (h [] tag).1 (at?_nil _)
    rw [hleaf, same, beq_self_eq_true]
  | nested slots ih =>
    cases other with
    | leaf tag =>
      have hleaf := (h [] tag).2 (at?_nil _)
      rw [at?_nil] at hleaf
      cases hleaf
    | nested others =>
      have hkeys := h.perm_keys hslot hother hfilled hfilled'
      have hlength : slots.length = others.length := by
        simpa [Table.keys] using hkeys.length_eq
      rw [same, hlength, beq_self_eq_true, Bool.true_and, Shape.agrees_iff]
      intro entry hinner
      obtain ⟨key, inner⟩ := entry
      have hnodup : (Table.keys slots).Nodup := (Shape.wellFormed_iff.1 hslot).1
      have hkey : key ∈ Table.keys others := hkeys.mem_iff.1 (List.mem_map_of_mem hinner)
      rw [← Table.contains_iff, Table.contains, Option.isSome_iff_exists] at hkey
      obtain ⟨inner', hinner'⟩ := hkey
      have hmem' : (key, inner') ∈ others := Table.mem_of_get? hinner'
      refine ⟨inner', hinner', ?_⟩
      exact ih (key, inner) hinner (hslot.of_mem hinner) (Shape.WellFormed.of_mem hother hmem')
        ((filled_nested_iff.1 hfilled).2 _ hinner) ((filled_nested_iff.1 hfilled').2 _ hmem')
        (h.below ((Table.get?_eq_some_iff hnodup).2 hinner) hinner')

end Slot

end ComponentProps
