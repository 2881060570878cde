import ComponentProps.Proofs.Binding.Filling

/-!
# What binding leaves alone

A successful run changes an object at no more places than its shape names.
`KeepsLevel` says what stays at one level: every property keeps its key and its
index, a property that is not the last one of a name in the shape keeps its
value, and the names that were missing come at the end.  `Slot.Changes` and
`Shape.Changes` say the same at every depth, together with what happens to the
values that do change: a leaf is replaced, and an object at a nested position
is still an object, with its properties changed in the same way.

* `keys_fill`, `getElem?_fill`: one level of a filled object.
* `Shape.changes_fill`: every level.
* `bind_frame`: what a successful run changes.
-/

namespace ComponentProps

open Binding Properties

/-! ## One level -/

/-- The keys of a shape that an object lacks, in the order of the shape. -/
def missingKeys (slots : List (String × Slot)) (properties : Properties) : List String :=
  (Table.keys slots).filter fun key => ! has properties key

/-- What binding the keys of a shape leaves alone in an object. -/
structure KeepsLevel (slots : List (String × Slot)) (before after : Properties) : Prop where
  /-- Every key stays at its index, and the missing ones are added at the end. -/
  keys : after.map Prod.fst =
    before.map Prod.fst ++ (missingKeys slots before).map PropertyKey.ofName
  /-- A property that is not the last one of its name, or whose name the shape
  does not list, is unchanged. -/
  untouched : ∀ index property, before[index]? = some property →
    position? before property.1.name ≠ some index ∨ property.1.name ∉ Table.keys slots →
      after[index]? = some property

mutual

/-- The change of a value by binding a slot into it. -/
def Slot.Changes (path : String) : Slot → Literal → Literal → Prop
  | .leaf tag, _, after => after = .placeholder ⟨PlaceholderKind.ofTag tag, path⟩
  | .nested slots, before, after =>
    ∃ old new, before = .object old ∧ after = .object new ∧
      KeepsLevel slots old new ∧ Shape.Changes path slots old new

/-- The changes of the values that count for the keys of a shape.  A property
that was there changes at its index, and one that was missing is added as a
fresh one and then bound. -/
def Shape.Changes (path : String) : List (String × Slot) → Properties → Properties → Prop
  | [], _, _ => True
  | (key, slot) :: rest, before, after =>
    (∀ index property, position? before key = some index → before[index]? = some property →
      ∃ value, after[index]? = some (property.1, value) ∧
        slot.Changes (child path key) property.2 value) ∧
    (position? before key = none →
      ∃ value, get? after key = some value ∧ slot.Changes (child path key) (fresh slot) value) ∧
    Shape.Changes path rest before after

end

theorem missingKeys_cons (key : String) (slot : Slot) (rest : List (String × Slot))
    (properties : Properties) :
    missingKeys ((key, slot) :: rest) properties =
      (if key ∈ names properties then [] else [key]) ++ missingKeys rest properties := by
  rw [missingKeys, missingKeys, Table.keys_cons, List.filter_cons]
  by_cases h : key ∈ names properties
  · rw [has_iff.2 h, if_pos h]; rfl
  · have hhas : has properties key = false := by
      rw [← Bool.not_eq_true, has_iff]; exact h
    rw [hhas, if_neg h]; rfl

/-- An update of one key makes no other key appear or disappear. -/
theorem missingKeys_put {slots : List (String × Slot)} {key : String}
    (h : key ∉ Table.keys slots) (properties : Properties) (value : Literal) :
    missingKeys slots (put properties key value) = missingKeys slots properties := by
  rw [missingKeys, missingKeys]
  refine List.filter_congr ?_
  intro other hmem
  have hne : key ≠ other := by
    intro heq
    rw [heq] at h
    exact h hmem
  have hhas : has (put properties key value) other = has properties other := by
    rw [Bool.eq_iff_iff, has_iff, has_iff, mem_names_put_of_ne hne]
  rw [hhas]

/-- A filled object has its keys where they were, and the missing ones at the end. -/
theorem keys_fill {slots : List (String × Slot)} (hslots : Shape.WellFormed slots)
    (path : String) (properties : Properties) :
    (Shape.fill path slots properties).map Prod.fst =
      properties.map Prod.fst ++ (missingKeys slots properties).map PropertyKey.ofName := by
  induction slots generalizing properties with
  | nil => rw [Shape.fill]; simp [missingKeys]
  | cons entry rest ih =>
    obtain ⟨key, slot⟩ := entry
    obtain ⟨hnew, -, hrest⟩ := hslots
    rw [Shape.fill, ih hrest, missingKeys_put hnew, keys_put, missingKeys_cons,
      List.map_append, List.append_assoc]
    split <;> rfl

/-- A filled object has a property as it was, unless the property is the last one
of a key of the shape. -/
theorem getElem?_fill {slots : List (String × Slot)} (hslots : Shape.WellFormed slots)
    (path : String) {properties : Properties} {index : Nat}
    {property : PropertyKey × Literal} (hproperty : properties[index]? = some property)
    (h : ∀ key ∈ Table.keys slots, position? properties key ≠ some index) :
    (Shape.fill path slots properties)[index]? = some property := by
  induction slots generalizing properties with
  | nil => rw [Shape.fill]; exact hproperty
  | cons entry rest ih =>
    obtain ⟨key, slot⟩ := entry
    obtain ⟨hnew, -, hrest⟩ := hslots
    rw [Table.keys_cons] at h
    have hkey : position? properties key ≠ some index := h key List.mem_cons_self
    rw [Shape.fill]
    refine ih hrest (getElem?_put_of_ne _ hproperty hkey) ?_
    intro other hmem
    have hne : key ≠ other := by
      intro heq
      rw [heq] at hnew
      exact hnew hmem
    rw [position?_put_of_ne hne]
    exact h other (List.mem_cons_of_mem _ hmem)

theorem keepsLevel_fill {slots : List (String × Slot)} (hslots : Shape.WellFormed slots)
    (path : String) (properties : Properties) :
    KeepsLevel slots properties (Shape.fill path slots properties) := by
  refine ⟨keys_fill hslots path properties, ?_⟩
  intro index property hproperty huntouched
  refine getElem?_fill hslots path hproperty ?_
  intro key hmem hposition
  obtain ⟨property', hproperty', hname⟩ := name_of_position? hposition
  have heq : property' = property := by
    rw [hproperty] at hproperty'
    exact (Option.some.inj hproperty').symm
  rw [heq] at hname
  rcases huntouched with hother | hunlisted
  · rw [hname] at hother
    exact hother hposition
  · rw [hname] at hunlisted
    exact hunlisted hmem

/-! ## Every level -/

/-- Filling does not move a name that was there. -/
theorem position?_fill_of_mem {slots : List (String × Slot)} {name : String}
    {properties : Properties} (h : name ∈ names properties) (path : String) :
    position? (Shape.fill path slots properties) name = position? properties name := by
  induction slots generalizing properties with
  | nil => rw [Shape.fill]
  | cons entry rest ih =>
    obtain ⟨key, slot⟩ := entry
    rw [Shape.fill, ih (mem_names_put_of_mem h key _), position?_put_of_mem h]

/-- The last property of a key of the shape is filled at its index. -/
theorem getElem?_fill_of_position? {slots : List (String × Slot)}
    (hslots : Shape.WellFormed slots) {key : String} {slot : Slot} (hmem : (key, slot) ∈ slots)
    (path : String) {properties : Properties} {index : Nat}
    {property : PropertyKey × Literal} (hposition : position? properties key = some index)
    (hproperty : properties[index]? = some property) :
    (Shape.fill path slots properties)[index]? =
      some (property.1, slot.fill (child path key) property.2) := by
  have hname : key ∈ names properties := by
    by_contra hnot
    rw [position?_eq_none_iff.2 hnot] at hposition
    cases hposition
  have hold : get? properties key = some property.2 := by
    rw [get?_eq_getElem?, hposition, Option.bind_some, hproperty]
    rfl
  have hvalue : (Shape.fill path slots properties)[index]?.map Prod.snd =
      some (slot.fill (child path key) property.2) := by
    have hget := get?_fill hslots hmem path properties
    rw [get?_eq_getElem?, position?_fill_of_mem hname, hposition, Option.bind_some, hold] at hget
    exact hget
  have hkey : (Shape.fill path slots properties)[index]?.map Prod.fst = some property.1 := by
    have hindex : index < (properties.map Prod.fst).length := by
      rw [List.length_map]
      exact (List.getElem?_eq_some_iff.1 hproperty).1
    rw [← List.getElem?_map, keys_fill hslots, List.getElem?_append_left hindex,
      List.getElem?_map, hproperty]
    rfl
  obtain ⟨filled, hfilled, hsnd⟩ := Option.map_eq_some_iff.1 hvalue
  rw [hfilled, Option.map_some, Option.some.injEq] at hkey
  rw [hfilled, ← hkey, ← hsnd]

mutual

theorem Slot.changes_fill :
    (slot : Slot) → slot.WellFormed → (path : String) → (value : Literal) →
      Fits value slot.sites → slot.Changes path value (slot.fill path value)
  | .leaf tag, _, path, value, _ => by rw [Slot.Changes, Slot.fill_leaf]
  | .nested slots, hslots, path, value, hfits => by
    obtain ⟨properties, rfl, hinner⟩ := fits_nested_iff.1 hfits
    rw [Slot.Changes, Slot.fill_nested_object]
    exact ⟨properties, _, rfl, rfl, keepsLevel_fill hslots path properties,
      Shape.changes_fill hslots hinner path slots fun _ hmem => hmem⟩

/-- Filling changes the values of some keys of a shape as binding does. -/
theorem Shape.changes_fill {slots : List (String × Slot)} (hslots : Shape.WellFormed slots)
    {properties : Properties} (hfits : Fits (.object properties) (Shape.sites slots))
    (path : String) :
    (keys : List (String × Slot)) → (∀ entry ∈ keys, entry ∈ slots) →
      Shape.Changes path keys properties (Shape.fill path slots properties)
  | [], _ => by rw [Shape.Changes]; trivial
  | (key, slot) :: rest, hkeys => by
    have hmem : (key, slot) ∈ slots := hkeys _ List.mem_cons_self
    have hslot : slot.WellFormed := Shape.WellFormed.of_mem hslots hmem
    have hvalue : Fits ((get? properties key).getD (fresh slot)) slot.sites :=
      fits_getD hfits hmem
    have hchanges := Slot.changes_fill slot hslot (child path key) _ hvalue
    rw [Shape.Changes]
    refine ⟨?_, ?_, ?_⟩
    · intro index property hposition hproperty
      have hold : get? properties key = some property.2 := by
        rw [get?_eq_getElem?, hposition, Option.bind_some, hproperty]
        rfl
      rw [hold] at hchanges
      exact ⟨_, getElem?_fill_of_position? hslots hmem path hposition hproperty, hchanges⟩
    · intro hposition
      have hmissing : get? properties key = none :=
        get?_eq_none_iff.2 (position?_eq_none_iff.1 hposition)
      have hget := get?_fill hslots hmem path properties
      rw [hmissing] at hchanges hget
      exact ⟨_, hget, hchanges⟩
    · exact Shape.changes_fill hslots hfits path rest fun entry hentry =>
        hkeys entry (List.mem_cons_of_mem _ hentry)

end

/-! ## The outcome of binding -/

/-- A successful run keeps, at the root and in every object at a nested position,
each property at its index and under its key, changes only the last property of
each name that the shape lists there, and adds the missing names at the end.
A leaf is replaced by its placeholder, and an object at a nested position stays
an object that is changed in the same way. -/
theorem bind_frame {shape : Shape} (hshape : Shape.WellFormed shape) (root : String)
    (target : Properties) (mint : Mint) (hfree : (shape.bind root target mint).obstacle = none) :
    KeepsLevel shape target (shape.bind root target mint).target ∧
      Shape.Changes root shape target (shape.bind root target mint).target := by
  have htarget : (shape.bind root target mint).target = Shape.fill root shape target :=
    bindSlots_target root shape target mint hfree
  have hfits : Fits (.object target) (Shape.sites shape) :=
    ((bindSlots_eq_none_iff hshape root target mint).1 hfree).objects
  rw [htarget]
  exact ⟨keepsLevel_fill hshape root target,
    Shape.changes_fill hshape hfits root shape fun _ hmem => hmem⟩

/-- The first of two properties of a name stays as it is, at the root and in the
object that is entered, and what the object lacks comes at the end. -/
theorem bind_frame_repeated_name :
    let shape : Shape := [("a", .nested [("x", .leaf .numberRequired)]), ("c", .leaf .any)]
    let inner : Properties := [(.identifier "x", .bool true), (.identifier "x", .null)]
    let target : Properties :=
      [(.identifier "a", .text "first"), (.quoted "a", .object inner), (.identifier "b", .list [])]
    let after := (shape.bind "props" target Mint.empty).target
    Shape.WellFormed shape ∧ (shape.bind "props" target Mint.empty).obstacle = none ∧
      after[0]? = some (.identifier "a", .text "first") ∧
      after.map Prod.fst =
        [.identifier "a", .quoted "a", .identifier "b", .identifier "c"] ∧
      ∃ bound, after[1]? = some (.quoted "a", .object bound) ∧
        bound[0]? = some (.identifier "x", .bool true) := by
  intro shape inner target after
  have hshape : Shape.WellFormed shape := by simp [shape]
  have hfree : (shape.bind "props" target Mint.empty).obstacle = none := by decide
  obtain ⟨hlevel, hchanges⟩ := bind_frame hshape "props" target Mint.empty hfree
  refine ⟨hshape, hfree, ?_, hlevel.keys, ?_⟩
  · exact hlevel.untouched 0 _ rfl (Or.inl (by decide))
  · unfold shape Shape.Changes at hchanges
    obtain ⟨value, hvalue, hentered⟩ := hchanges.1 1 _ (by decide) rfl
    unfold Slot.Changes at hentered
    obtain ⟨old, bound, hold, rfl, hinner, -⟩ := hentered
    cases hold
    exact ⟨bound, hvalue, hinner.untouched 0 _ rfl (Or.inl (by decide))⟩

end ComponentProps
