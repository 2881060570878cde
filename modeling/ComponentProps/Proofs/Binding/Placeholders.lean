import ComponentProps.Proofs.Binding.Filling
import ComponentProps.Proofs.Literal.Placeholders

/-!
# The placeholders that binding leaves

Every leaf of a shape puts one placeholder into the literal, and none of them
is lost to a later step.  So the placeholders of a bound literal are, with
their occurrences, those of the leaves (`sitePlaceholders`), if the literal had
none before.

* `Shape.placeholders_fill`: the placeholders of a filled object.
* `Shape.at?_fill_iff`: where nested lookups find them.
* `bind_placeholders`: both for a run without an obstacle.
* `keys_eq_of_dottedPath_eq`: leaves with distinct paths are distinct.
-/

namespace ComponentProps

open Binding Properties

/-! ## The placeholders of sites -/

/-- The placeholder that a site gets; none for a nested position. -/
def Site.placeholder? (root : String) : Site → Option Placeholder
  | .container _ => none
  | .leaf keys tag => some ⟨PlaceholderKind.ofTag tag, dottedPath root keys⟩

/-- The placeholders of the leaves among some sites, in order. -/
def sitePlaceholders (root : String) (sites : List Site) : List Placeholder :=
  sites.filterMap (Site.placeholder? root)

theorem sitePlaceholders_append (root : String) (sites others : List Site) :
    sitePlaceholders root (sites ++ others) =
      sitePlaceholders root sites ++ sitePlaceholders root others :=
  List.filterMap_append

/-- Going down by a key is the same as moving the root. -/
theorem sitePlaceholders_below (root key : String) (sites : List Site) :
    sitePlaceholders root (sites.map (Site.below key)) =
      sitePlaceholders (child root key) sites := by
  rw [sitePlaceholders, sitePlaceholders, List.filterMap_map]
  refine List.filterMap_congr ?_
  intro site _
  cases site <;> rfl

theorem mem_sitePlaceholders_iff {root : String} {sites : List Site} {found : Placeholder} :
    found ∈ sitePlaceholders root sites ↔
      ∃ keys tag, Site.leaf keys tag ∈ sites ∧
        found = ⟨PlaceholderKind.ofTag tag, dottedPath root keys⟩ := by
  rw [sitePlaceholders, List.mem_filterMap]
  constructor
  · rintro ⟨site, hmem, hfound⟩
    cases site with
    | container keys => cases hfound
    | leaf keys tag => exact ⟨keys, tag, hmem, (Option.some.inj hfound).symm⟩
  · rintro ⟨keys, tag, hmem, rfl⟩
    exact ⟨.leaf keys tag, hmem, rfl⟩

/-- The names of the placeholders are the paths of the leaves. -/
theorem map_name_sitePlaceholders (root : String) (sites : List Site) :
    (sitePlaceholders root sites).map Placeholder.name = leafPaths root sites := by
  rw [sitePlaceholders, leafPaths, List.map_filterMap]
  refine List.filterMap_congr ?_
  intro site _
  cases site <;> rfl

/-- Leaves with distinct paths are distinct. -/
theorem keys_eq_of_dottedPath_eq {root : String} {sites : List Site}
    (h : (leafPaths root sites).Nodup) {keys keys' : List String} {tag tag' : Tag}
    (hmem : Site.leaf keys tag ∈ sites) (hmem' : Site.leaf keys' tag' ∈ sites)
    (heq : dottedPath root keys = dottedPath root keys') : keys = keys' := by
  induction sites with
  | nil => cases hmem
  | cons site rest ih =>
    cases site with
    | container _ =>
      exact ih h (List.mem_of_ne_of_mem (by simp) hmem) (List.mem_of_ne_of_mem (by simp) hmem')
    | leaf first _ =>
      rw [leafPaths_leaf_cons, List.nodup_cons] at h
      have hnew {others : List String} {other : Tag} (hother : Site.leaf others other ∈ rest) :
          dottedPath root first ≠ dottedPath root others := by
        intro hpath
        exact h.1 (mem_leafPaths_iff.2 ⟨others, other, hother, hpath.symm⟩)
      rcases List.mem_cons.1 hmem with hfirst | hlater <;>
        rcases List.mem_cons.1 hmem' with hfirst' | hlater'
      · cases hfirst
        cases hfirst'
        rfl
      · cases hfirst
        exact absurd heq (hnew hlater')
      · cases hfirst'
        exact absurd heq.symm (hnew hlater)
      · exact ih h.2 hlater hlater'

/-! ## Filled literals -/

@[simp] theorem placeholders_fresh (slot : Slot) : (fresh slot).placeholders = [] := by
  cases slot with
  | leaf tag => exact Literal.placeholders_null
  | nested slots => rw [fresh, Literal.placeholders_object, placeholders_nil]

/-- The value that is bound for a key has no placeholders if the one that was
there has none. -/
theorem placeholders_getD_fresh {properties : Properties} {key : String}
    (h : ∀ old, get? properties key = some old → old.placeholders = []) (slot : Slot) :
    ((get? properties key).getD (fresh slot)).placeholders = [] := by
  cases hget : get? properties key with
  | none => exact placeholders_fresh slot
  | some old => exact h old hget

mutual

theorem Slot.placeholders_fill :
    (slot : Slot) → slot.WellFormed → (path : String) → (value : Literal) →
      Fits value slot.sites → value.placeholders = [] →
        (slot.fill path value).placeholders.Perm (sitePlaceholders path slot.sites)
  | .leaf tag, _, path, value, _, _ => by
    rw [Slot.fill_leaf, Literal.placeholders_placeholder]
    exact List.Perm.refl _
  | .nested slots, hslots, path, value, hfits, hclean => by
    obtain ⟨properties, rfl, hinner⟩ := fits_nested_iff.1 hfits
    rw [Literal.placeholders_object] at hclean
    rw [Slot.fill_nested_object, Literal.placeholders_object]
    have hfill := Shape.placeholders_fill slots hslots path properties hinner
      fun key _ old hold => placeholders_eq_nil_of_get? hclean hold
    rwa [hclean, List.nil_append] at hfill

/-- A filled object has the placeholders of the leaves beside those that it had,
if there were none in the values that are bound. -/
theorem Shape.placeholders_fill :
    (slots : List (String × Slot)) → Shape.WellFormed slots → (path : String) →
      (properties : Properties) → Fits (.object properties) (Shape.sites slots) →
      (∀ key ∈ Table.keys slots, ∀ old, get? properties key = some old →
        old.placeholders = []) →
        (placeholders (Shape.fill path slots properties)).Perm
          (placeholders properties ++ sitePlaceholders path (Shape.sites slots))
  | [], _, path, properties, _, _ => by
    rw [Shape.fill, Shape.sites_nil, sitePlaceholders, List.filterMap_nil, List.append_nil]
  | (key, slot) :: rest, hslots, path, properties, hfits, hclean => by
    have hold : ∀ old, get? properties key = some old → old.placeholders = [] :=
      hclean key List.mem_cons_self
    have hslot := Slot.placeholders_fill slot hslots.2.1 (child path key) _
      (fits_getD hfits List.mem_cons_self) (placeholders_getD_fresh hold slot)
    rw [Shape.fill, Shape.sites_cons, sitePlaceholders_append, sitePlaceholders_below,
      ← List.append_assoc]
    generalize slot.fill (child path key) ((get? properties key).getD (fresh slot)) = filled
      at hslot ⊢
    -- the values of the other keys are still those of the original object
    have hothers : ∀ other ∈ Table.keys rest, ∀ old,
        get? (put properties key filled) other = some old → old.placeholders = [] := by
      intro other hother old hget
      have hne : key ≠ other := fun heq => hslots.1 (heq ▸ hother)
      rw [get?_put_of_ne hne] at hget
      exact hclean other (List.mem_cons_of_mem _ hother) old hget
    have hrest := Shape.placeholders_fill rest hslots.2.2 path _
      (hfits.of_cons.put hslots.1 filled) hothers
    have hput : (placeholders (put properties key filled)).Perm
        (placeholders properties ++ sitePlaceholders (child path key) slot.sites) :=
      (placeholders_put_of_nil hold filled).trans (hslot.append_left _)
    exact hrest.trans (hput.append_right _)

end

/-- Nested lookups in a filled object find exactly the placeholders of the
leaves, if there were none before. -/
theorem Shape.at?_fill_iff {slots : List (String × Slot)} (hslots : Shape.WellFormed slots)
    (path : String) {properties : Properties} (hclean : placeholders properties = [])
    (hfits : Fits (.object properties) (Shape.sites slots)) {keys : List String}
    {found : Placeholder} :
    (Literal.object (Shape.fill path slots properties)).at? keys = some (.placeholder found) ↔
      ∃ tag, Site.leaf keys tag ∈ Shape.sites slots ∧
        found = ⟨PlaceholderKind.ofTag tag, dottedPath path keys⟩ := by
  constructor
  · intro h
    induction keys generalizing slots path properties with
    | nil =>
      rw [Literal.at?_nil] at h
      cases h
    | cons key keys ih =>
      rw [Literal.at?_object_cons, Option.bind_eq_some_iff] at h
      obtain ⟨value, hget, hvalue⟩ := h
      by_cases hkey : key ∈ Table.keys slots
      · obtain ⟨⟨first, slot⟩, hmem, rfl⟩ := List.mem_map.1 hkey
        rw [get?_fill hslots hmem, Option.some.injEq] at hget
        subst hget
        cases slot with
        | leaf tag =>
          rw [Slot.fill_leaf] at hvalue
          cases keys with
          | nil =>
            rw [Literal.at?_nil] at hvalue
            cases hvalue
            exact ⟨tag, Shape.mem_sites_iff.2 ⟨_, _, .leaf [] tag, hmem, by simp, rfl⟩, rfl⟩
          | cons _ _ => cases hvalue
        | nested inner =>
          obtain ⟨old, hold, hinner⟩ := fits_nested_iff.1 (fits_getD hfits hmem)
          have holdClean : placeholders old = [] := by
            rw [← Literal.placeholders_object, ← hold]
            exact placeholders_getD_fresh (fun _ => placeholders_eq_nil_of_get? hclean) _
          rw [hold, Slot.fill_nested_object] at hvalue
          obtain ⟨tag, htag, hfound⟩ :=
            ih (hslots.of_mem hmem) (child path first) holdClean hinner hvalue
          refine ⟨tag, Shape.mem_sites_iff.2 ⟨_, _, .leaf keys tag, hmem, ?_, rfl⟩, hfound⟩
          exact List.mem_cons_of_mem _ htag
      · rw [get?_fill_of_not_mem hkey] at hget
        have hvalueClean := placeholders_eq_nil_of_get? hclean hget
        exact absurd hvalue (Literal.at?_ne_placeholder hvalueClean keys found)
  · rintro ⟨tag, hmem, rfl⟩
    exact Shape.at?_fill slots hslots path properties hfits hmem

/-! ## The outcome of binding -/

/-- A run without an obstacle leaves the placeholders of the leaves of the shape,
each at the keys of its leaf, in a literal that had none. -/
theorem bind_placeholders {shape : Shape} (hshape : Shape.WellFormed shape) (root : String)
    {target : Properties} (hclean : placeholders target = []) (mint : Mint)
    (hfree : (shape.bind root target mint).obstacle = none) :
    (placeholders (shape.bind root target mint).target).Perm
        (sitePlaceholders root (Shape.sites shape)) ∧
      ∀ keys found,
        (Literal.object (shape.bind root target mint).target).at? keys =
            some (.placeholder found) ↔
          ∃ tag, Site.leaf keys tag ∈ Shape.sites shape ∧
            found = ⟨PlaceholderKind.ofTag tag, dottedPath root keys⟩ := by
  have htarget : (shape.bind root target mint).target = Shape.fill root shape target :=
    bindSlots_target root shape target mint hfree
  have hfits : Fits (.object target) (Shape.sites shape) :=
    ((bindSlots_eq_none_iff hshape root target mint).1 hfree).objects
  have hfill := Shape.placeholders_fill shape hshape root target hfits
    fun key _ old hold => placeholders_eq_nil_of_get? hclean hold
  rw [hclean, List.nil_append] at hfill
  rw [htarget]
  exact ⟨hfill, fun keys found => Shape.at?_fill_iff hshape root hclean hfits⟩

end ComponentProps
