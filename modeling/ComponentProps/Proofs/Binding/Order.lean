import ComponentProps.Proofs.Binding.Frame
import ComponentProps.Proofs.Literal.Order
import ComponentProps.Proofs.Shape.Order

/-!
# Binding in another order

Two shapes that are equal but for the order of their keys are bound in different
orders.  Both runs meet an obstacle or neither does, since nothing that decides about
it looks at the order of the sites.  Which obstacle comes first may differ.  Without
one, the runs put the same placeholders in the same places, and only the order in
which they add what is missing differs.

* `Unobstructed.perm`: whether sites are in the way does not depend on their order.
* `Shape.rearranged_fill`: one level of a literal that is filled in two orders, and
  `Slot.rearranged_fill`: every level, by induction over the slot.
* `bind_reordered`: the outcomes of two such runs.
-/

namespace ComponentProps

open Binding Properties

/-! ## Obstacles -/

/-- The order of the sites does not matter for whether any of them is in the way. -/
theorem Unobstructed.perm {root : String} {target : Literal} {taken : List String}
    {sites others : List Site} (h : Unobstructed root target taken sites)
    (hsites : sites.Perm others) : Unobstructed root target taken others := by
  have hpaths : (leafPaths root sites).Perm (leafPaths root others) :=
    hsites.filterMap (Site.leafPath? root)
  refine ⟨?_, hpaths.nodup_iff.1 h.distinct, ?_⟩
  · intro keys hmem
    exact h.objects keys (hsites.mem_iff.2 hmem)
  · intro path hmem
    exact h.unused path (hpaths.mem_iff.2 hmem)

/-! ## One level of a filled literal -/

/-- The properties that filling adds to an object. -/
def Shape.addedBy (path : String) (slots : List (String × Slot)) (before : Properties) :
    Properties :=
  (Shape.fill path slots before).drop before.length

section Level

variable {slots others : List (String × Slot)} {before : Properties}

theorem fill_eq_append (path : String) (slots : List (String × Slot)) (before : Properties) :
    Shape.fill path slots before =
      (Shape.fill path slots before).take before.length ++ Shape.addedBy path slots before :=
  (List.take_append_drop _ _).symm

/-- In front of the added properties stand those that were there, under the same
keys. -/
theorem keys_take_fill (hslots : Shape.WellFormed slots) (path : String) (before : Properties) :
    ((Shape.fill path slots before).take before.length).map Prod.fst = before.map Prod.fst := by
  rw [List.map_take, keys_fill hslots, ← List.length_map (f := Prod.fst), List.take_left]

theorem keys_addedBy (hslots : Shape.WellFormed slots) (path : String) (before : Properties) :
    (Shape.addedBy path slots before).map Prod.fst =
      (missingKeys slots before).map PropertyKey.ofName := by
  rw [Shape.addedBy, List.map_drop, keys_fill hslots, ← List.length_map (f := Prod.fst),
    List.drop_left]

/-- The names of the added properties are the keys that were missing. -/
theorem names_addedBy (hslots : Shape.WellFormed slots) (path : String) (before : Properties) :
    names (Shape.addedBy path slots before) = missingKeys slots before := by
  have hnames := congrArg (List.map PropertyKey.name) (keys_addedBy hslots path before)
  rw [List.map_map, List.map_map] at hnames
  refine hnames.trans (List.map_id'' ?_ _)
  exact PropertyKey.name_ofName

theorem mem_missingKeys_iff {key : String} :
    key ∈ missingKeys slots before ↔ key ∈ Table.keys slots ∧ key ∉ names before := by
  rw [missingKeys, List.mem_filter, Bool.not_eq_true', ← Bool.not_eq_true, has_iff]

theorem nodup_names_addedBy (hslots : Shape.WellFormed slots) (path : String)
    (before : Properties) : (names (Shape.addedBy path slots before)).Nodup := by
  rw [names_addedBy hslots]
  exact (Shape.wellFormed_iff.1 hslots).1.filter _

/-- An added property is a fresh one that has been filled with the slot of its key. -/
theorem exists_of_mem_addedBy (hslots : Shape.WellFormed slots) {path : String}
    {property : PropertyKey × Literal} (hmem : property ∈ Shape.addedBy path slots before) :
    ∃ slot, (property.1.name, slot) ∈ slots ∧ get? before property.1.name = none ∧
      property.2 = slot.fill (child path property.1.name) (fresh slot) := by
  have hname : property.1.name ∈ names (Shape.addedBy path slots before) :=
    List.mem_map_of_mem hmem
  have hadded : get? (Shape.fill path slots before) property.1.name = some property.2 := by
    rw [fill_eq_append, get?_append, if_pos hname]
    exact get?_of_mem (nodup_names_addedBy hslots path before) hmem
  rw [names_addedBy hslots, mem_missingKeys_iff] at hname
  obtain ⟨slot, hslot⟩ := Table.mem_keys_iff.1 hname.1
  have hmissing : get? before property.1.name = none := get?_eq_none_iff.2 hname.2
  rw [get?_fill hslots hslot, hmissing, Option.getD_none, Option.some.injEq] at hadded
  exact ⟨slot, hslot, hmissing, hadded.symm⟩

/-- A property that was there is filled with the slot of its name, if it is the last
one of a key of the shape. -/
theorem getElem?_fill_last (hslots : Shape.WellFormed slots) (path : String) {index : Nat}
    {old : PropertyKey × Literal} (hold : before[index]? = some old)
    (hposition : position? before old.1.name = some index)
    (hkey : old.1.name ∈ Table.keys slots) :
    ∃ slot, (old.1.name, slot) ∈ slots ∧ get? before old.1.name = some old.2 ∧
      (Shape.fill path slots before)[index]? =
        some (old.1, slot.fill (child path old.1.name) old.2) := by
  obtain ⟨slot, hslot⟩ := Table.mem_keys_iff.1 hkey
  refine ⟨slot, hslot, ?_, getElem?_fill_of_position? hslots hslot path hposition hold⟩
  rw [get?_eq_getElem?, hposition, Option.bind_some, hold]
  rfl

/-- The same slots start from the same fresh value. -/
theorem fresh_eq_of_same {slot other : Slot} (h : slot.same other = true) :
    fresh slot = fresh other := by
  cases slot with
  | leaf tag => rw [Slot.eq_of_leaf_same h]
  | nested slots =>
    obtain ⟨others, rfl, -⟩ := Slot.exists_of_nested_same h
    rfl

/-- Two orders of filling one level, from what they make of the value of each key. -/
theorem Shape.rearranged_fill (hslots : Shape.WellFormed slots)
    (hothers : Shape.WellFormed others) (hsame : Shape.same slots others = true) (path : String)
    (hbound : ∀ key slot other, (key, slot) ∈ slots → (key, other) ∈ others →
      let value := (get? before key).getD (fresh slot)
      Literal.Rearranged value (slot.fill (child path key) value)
        (other.fill (child path key) value)) :
    Literal.Rearranged (.object before) (.object (Shape.fill path slots before))
      (.object (Shape.fill path others before)) := by
  have hkeys := Shape.perm_keys_of_same hslots hsame
  rw [fill_eq_append path slots, fill_eq_append path others]
  refine .object (keys_take_fill hslots path before) (keys_take_fill hothers path before)
    ?_ ?_ ?_ (nodup_names_addedBy hslots path before) ?_
  · intro index old new new' hold hnew hnew'
    have hindex : index < before.length := (List.getElem?_eq_some_iff.1 hold).1
    rw [List.getElem?_take_of_lt hindex] at hnew hnew'
    by_cases hlast : position? before old.1.name = some index ∧ old.1.name ∈ Table.keys slots
    · obtain ⟨hposition, hkey⟩ := hlast
      obtain ⟨slot, hslot, hvalue, hfill⟩ := getElem?_fill_last hslots path hold hposition hkey
      obtain ⟨other, hother, -, hfill'⟩ :=
        getElem?_fill_last hothers path hold hposition (hkeys.mem_iff.1 hkey)
      cases hnew.symm.trans hfill
      cases hnew'.symm.trans hfill'
      have hrearranged := hbound _ slot other hslot hother
      rwa [hvalue] at hrearranged
    · rw [not_and_or] at hlast
      have hkept := (keepsLevel_fill hslots path before).untouched index old hold hlast
      have hkept' := (keepsLevel_fill hothers path before).untouched index old hold
        (hlast.imp_right (mt hkeys.mem_iff.2))
      cases hnew.symm.trans hkept
      cases hnew'.symm.trans hkept'
      exact .same _ _
  · rw [keys_addedBy hslots, keys_addedBy hothers]
    exact (hkeys.filter _).map _
  · intro name hname
    rw [names_addedBy hslots] at hname
    exact (mem_missingKeys_iff.1 hname).2
  · intro key new new' hnew hnew'
    obtain ⟨slot, hslot, hmissing, hvalue⟩ := exists_of_mem_addedBy hslots hnew
    obtain ⟨other, hother, -, hvalue'⟩ := exists_of_mem_addedBy hothers hnew'
    have hinner : slot.same other = true := Shape.same_of_mem hothers hsame hslot hother
    dsimp only at hslot hother hmissing hvalue hvalue'
    rw [← fresh_eq_of_same hinner] at hvalue'
    rw [hvalue, hvalue']
    cases slot with
    | leaf tag =>
      -- the fresh value of a leaf is no object, but nothing of it is left
      rw [Slot.eq_of_leaf_same hinner]
      exact .same _ _
    | nested inner =>
      have hrearranged := hbound _ (.nested inner) other hslot hother
      rwa [hmissing] at hrearranged

end Level

/-! ## Every level -/

/-- The same slots are filled into a value in the same places, whatever their order. -/
theorem Slot.rearranged_fill {slot other : Slot} (hslot : slot.WellFormed)
    (hother : other.WellFormed) (hsame : slot.same other = true) (path : String)
    {value : Literal} (hfits : Fits value slot.sites) :
    Literal.Rearranged value (slot.fill path value) (other.fill path value) := by
  induction slot generalizing other path value with
  | leaf tag =>
    rw [Slot.eq_of_leaf_same hsame]
    exact .same _ _
  | nested slots ih =>
    obtain ⟨others, rfl, hslots⟩ := Slot.exists_of_nested_same hsame
    obtain ⟨before, rfl, hinner⟩ := fits_nested_iff.1 hfits
    rw [Slot.fill_nested_object, Slot.fill_nested_object]
    refine Shape.rearranged_fill hslot hother hslots path ?_
    intro key slot other' hmem hmem'
    exact ih (key, slot) hmem (hslot.of_mem hmem) (Shape.WellFormed.of_mem hother hmem')
      (Shape.same_of_mem hother hslots hmem hmem') (child path key) (fits_getD hinner hmem)

/-! ## The outcome of binding -/

/-- Two shapes that are equal but for the order of their keys, bound into one literal:
both runs meet an obstacle, or neither does.  Without one, they return the same names
in some order, and their literals differ at most in the order of the properties that
have been added, at any depth.  So under every sequence of keys both literals hold
nothing, or values that differ at most in the order of the properties that have been
added to what was there. -/
theorem bind_reordered {shape other : Shape} (hshape : Shape.WellFormed shape)
    (hother : Shape.WellFormed other) (hsame : shape.same other = true) (root : String)
    (target : Properties) (mint : Mint) :
    let bound := shape.bind root target mint
    let bound' := other.bind root target mint
    (bound.obstacle = none ↔ bound'.obstacle = none) ∧
      (bound.obstacle = none →
        bound.names.Perm bound'.names ∧
        Literal.Rearranged (.object target) (.object bound.target) (.object bound'.target) ∧
        ∀ keys,
          Option.Rel (Literal.Rearranged (((Literal.object target).at? keys).getD (.object [])))
            ((Literal.object bound.target).at? keys)
            ((Literal.object bound'.target).at? keys)) := by
  intro bound bound'
  have hslot : (Slot.nested shape).WellFormed := hshape
  have hslot' : (Slot.nested other).WellFormed := hother
  have hslots : (Slot.nested shape).same (.nested other) = true := hsame
  have hperm := Slot.perm_sites_of_same hslot hslot' hslots
  have hsites : (Shape.sites shape).Perm (Shape.sites other) := hperm.cons_inv
  have hfree : bound.obstacle = none ↔
      Unobstructed root (.object target) mint.names (Shape.sites shape) :=
    bindSlots_eq_none_iff hshape root target mint
  have hfree' : bound'.obstacle = none ↔
      Unobstructed root (.object target) mint.names (Shape.sites other) :=
    bindSlots_eq_none_iff hother root target mint
  have hiff : bound.obstacle = none ↔ bound'.obstacle = none := by
    rw [hfree, hfree']
    exact ⟨fun h => h.perm hsites, fun h => h.perm hsites.symm⟩
  refine ⟨hiff, ?_⟩
  intro hnone
  have hnames : bound.names = leafPaths root (Shape.sites shape) :=
    bindSlots_names root shape target mint hnone
  have hnames' : bound'.names = leafPaths root (Shape.sites other) :=
    bindSlots_names root other target mint (hiff.1 hnone)
  have htarget : bound.target = Shape.fill root shape target :=
    bindSlots_target root shape target mint hnone
  have htarget' : bound'.target = Shape.fill root other target :=
    bindSlots_target root other target mint (hiff.1 hnone)
  have hfits : Fits (.object target) (Slot.nested shape).sites :=
    fits_nested_iff.2 ⟨target, rfl, (hfree.1 hnone).objects⟩
  have hrearranged := Slot.rearranged_fill hslot hslot' hslots root hfits
  rw [Slot.fill_nested_object, Slot.fill_nested_object, ← htarget, ← htarget'] at hrearranged
  refine ⟨?_, hrearranged, fun keys => hrearranged.at? keys⟩
  rw [hnames, hnames']
  exact hsites.filterMap (Site.leafPath? root)

/-- An object that was there gets what it lacks in either order, behind what it has,
and so does an object that is added. -/
theorem bind_reordered_added_object :
    let shape : Shape :=
      [("a", .nested [("x", .leaf .any), ("y", .leaf .boolRequired)]),
        ("b", .nested [("u", .leaf .any), ("v", .leaf .any)])]
    let other : Shape :=
      [("b", .nested [("v", .leaf .any), ("u", .leaf .any)]),
        ("a", .nested [("y", .leaf .boolRequired), ("x", .leaf .any)])]
    let target : Properties :=
      [(.identifier "a", .null), (.quoted "a", .object [(.identifier "y", .bool true)])]
    let bound := shape.bind "props" target Mint.empty
    let bound' := other.bind "props" target Mint.empty
    Shape.WellFormed shape ∧ Shape.WellFormed other ∧ shape.same other = true ∧
      bound.obstacle = none ∧ bound'.obstacle = none ∧
      bound.names = ["props.a.x", "props.a.y", "props.b.u", "props.b.v"] ∧
      bound'.names = ["props.b.v", "props.b.u", "props.a.y", "props.a.x"] ∧
      bound.names.Perm bound'.names ∧
      Literal.Rearranged (.object target) (.object bound.target) (.object bound'.target) := by
  intro shape other target bound bound'
  have hshape : Shape.WellFormed shape := by simp [shape]
  have hother : Shape.WellFormed other := by simp [other]
  have hsame : shape.same other = true := by decide
  have hfree : bound.obstacle = none := by decide
  obtain ⟨hiff, houtcome⟩ := bind_reordered hshape hother hsame "props" target Mint.empty
  obtain ⟨hnames, hrearranged, -⟩ := houtcome hfree
  exact ⟨hshape, hother, hsame, hfree, hiff.1 hfree, rfl, rfl, hnames, hrearranged⟩

/-- The order is seen inside an object that was there before, and not only inside
those that are added: here no object is added at all. -/
theorem bind_reordered_entered_object :
    let shape : Shape := [("a", .nested [("x", .leaf .any), ("y", .leaf .any)])]
    let other : Shape := [("a", .nested [("y", .leaf .any), ("x", .leaf .any)])]
    let target : Properties := [(.identifier "a", .object [])]
    let x : PropertyKey × Literal := (.identifier "x", .placeholder ⟨.unknown, "props.a.x"⟩)
    let y : PropertyKey × Literal := (.identifier "y", .placeholder ⟨.unknown, "props.a.y"⟩)
    let bound := shape.bind "props" target Mint.empty
    let bound' := other.bind "props" target Mint.empty
    shape.same other = true ∧ bound.obstacle = none ∧ bound'.obstacle = none ∧
      (Literal.object target).at? ["a"] = some (.object []) ∧
      (Literal.object bound.target).at? ["a"] = some (.object [x, y]) ∧
      (Literal.object bound'.target).at? ["a"] = some (.object [y, x]) ∧
      Literal.object [x, y] ≠ .object [y, x] := by
  intro shape other target x y bound bound'
  have hsame : shape.same other = true := by decide
  refine ⟨hsame, by decide, by decide, rfl, rfl, rfl, ?_⟩
  intro heq
  simp [x, y] at heq

end ComponentProps
