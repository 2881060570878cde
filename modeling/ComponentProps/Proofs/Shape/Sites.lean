import ComponentProps.Proofs.Literal.Properties
import ComponentProps.Proofs.Shape.WellFormed
import Mathlib.Data.List.Nodup

/-!
# The sites of a shape

A site of a shape is a place that binding visits: a nested position, which is
entered, or a leaf, which gets a placeholder.  `Shape.sites` lists the sites
depth first, each level in the order of its keys, and a nested position before
what it contains.

* `Slot.sites`, `Shape.sites`: the sites of a slot and of a shape, with the keys
  that lead to them.
* `Shape.nodup_keys_sites`: no two sites have the same keys.
* `dottedPath`: the path that names a site, `root.k1.….kn`.
* `leafPaths`: the dotted paths of the leaves, in the order of the sites.
* `Fits`: a literal holds objects at the nested positions of a shape, as far as
  it holds anything there.
* `mem_leafPaths_iff`, `length_leafPaths`: the leaves that have a path, and how
  many there are.
-/

namespace ComponentProps

/-! ## Sites -/

/-- A place that binding visits, by the keys that lead to it. -/
inductive Site where
  /-- A nested position. -/
  | container (keys : List String)
  | leaf (keys : List String) (tag : Tag)
deriving DecidableEq, Repr

namespace Site

/-- The keys that lead to a site. -/
def keys : Site → List String
  | .container keys => keys
  | .leaf keys _ => keys

/-- The same site, seen from one level further up. -/
def below (key : String) : Site → Site
  | .container keys => .container (key :: keys)
  | .leaf keys tag => .leaf (key :: keys) tag

@[simp] theorem keys_below (key : String) (site : Site) :
    (site.below key).keys = key :: site.keys := by
  cases site <;> rfl

end Site

mutual

/-- The sites of a slot, depth first. -/
def Slot.sites : Slot → List Site
  | .leaf tag => [.leaf [] tag]
  | .nested slots => .container [] :: Shape.sites slots

/-- The sites of a shape, depth first and in the order of its keys. -/
def Shape.sites : List (String × Slot) → List Site
  | [] => []
  | (key, slot) :: rest => slot.sites.map (Site.below key) ++ Shape.sites rest

end

@[simp] theorem Slot.sites_leaf (tag : Tag) : (Slot.leaf tag).sites = [.leaf [] tag] := rfl

@[simp] theorem Slot.sites_nested (slots : List (String × Slot)) :
    (Slot.nested slots).sites = .container [] :: Shape.sites slots := rfl

@[simp] theorem Shape.sites_nil : Shape.sites [] = [] := rfl

@[simp] theorem Shape.sites_cons (key : String) (slot : Slot) (rest : List (String × Slot)) :
    Shape.sites ((key, slot) :: rest) = slot.sites.map (Site.below key) ++ Shape.sites rest :=
  rfl

/-- The sites of a shape are those of the slots of its keys. -/
theorem Shape.mem_sites_iff {slots : List (String × Slot)} {site : Site} :
    site ∈ Shape.sites slots ↔
      ∃ key slot inner, (key, slot) ∈ slots ∧ inner ∈ slot.sites ∧ site = inner.below key := by
  induction slots with
  | nil => simp
  | cons entry rest ih =>
    obtain ⟨first, slot⟩ := entry
    rw [Shape.sites_cons, List.mem_append, List.mem_map, ih]
    constructor
    · rintro (⟨inner, hinner, rfl⟩ | ⟨key, slot', inner, hmem, hinner, rfl⟩)
      · exact ⟨first, slot, inner, List.mem_cons_self, hinner, rfl⟩
      · exact ⟨key, slot', inner, List.mem_cons_of_mem _ hmem, hinner, rfl⟩
    · rintro ⟨key, slot', inner, hmem, hinner, rfl⟩
      rcases List.mem_cons.1 hmem with heq | hmem
      · cases heq; exact Or.inl ⟨inner, hinner, rfl⟩
      · exact Or.inr ⟨key, slot', inner, hmem, hinner, rfl⟩

mutual

theorem Slot.nodup_keys_sites :
    (slot : Slot) → slot.WellFormed → (slot.sites.map Site.keys).Nodup
  | .leaf _, _ => List.nodup_singleton _
  | .nested slots, hslots => by
    rw [Slot.sites_nested, List.map_cons, List.nodup_cons]
    refine ⟨?_, Shape.nodup_keys_sites slots hslots⟩
    intro hmem
    obtain ⟨site, hsite, hkeys⟩ := List.mem_map.1 hmem
    obtain ⟨key, slot, inner, -, -, rfl⟩ := Shape.mem_sites_iff.1 hsite
    rw [Site.keys_below] at hkeys
    cases hkeys

/-- Different keys lead to the different sites of a shape. -/
theorem Shape.nodup_keys_sites :
    (slots : List (String × Slot)) → Shape.WellFormed slots →
      ((Shape.sites slots).map Site.keys).Nodup
  | [], _ => List.nodup_nil
  | (key, slot) :: rest, hslots => by
    obtain ⟨hnew, hslot, hrest⟩ := hslots
    have hbelow : (slot.sites.map (Site.below key)).map Site.keys =
        (slot.sites.map Site.keys).map (key :: ·) := by
      simp only [List.map_map, Function.comp_def, Site.keys_below]
    rw [Shape.sites_cons, List.map_append, hbelow, List.nodup_append]
    refine ⟨?_, Shape.nodup_keys_sites rest hrest, ?_⟩
    · exact (Slot.nodup_keys_sites slot hslot).map List.cons_injective
    · intro keys hmem others hmem' heq
      obtain ⟨below, -, rfl⟩ := List.mem_map.1 hmem
      obtain ⟨site, hsite, rfl⟩ := List.mem_map.1 hmem'
      obtain ⟨other, otherSlot, inner, hother, -, rfl⟩ := Shape.mem_sites_iff.1 hsite
      rw [Site.keys_below, List.cons.injEq] at heq
      exact hnew (heq.1 ▸ List.mem_map_of_mem hother)

end

/-! ## Paths -/

/-- The path of a sequence of keys, joined to the root by dots. -/
def dottedPath (root : String) (keys : List String) : String :=
  String.intercalate "." (root :: keys)

@[simp] theorem dottedPath_nil (root : String) : dottedPath root [] = root := rfl

/-- The path that a site takes for a placeholder; none for a nested position. -/
def Site.leafPath? (root : String) : Site → Option String
  | .container _ => none
  | .leaf keys _ => some (dottedPath root keys)

/-- The dotted paths of the leaves among some sites, in order. -/
def leafPaths (root : String) (sites : List Site) : List String :=
  sites.filterMap (Site.leafPath? root)

@[simp] theorem leafPaths_nil (root : String) : leafPaths root [] = [] := rfl

@[simp] theorem leafPaths_container_cons (root : String) (keys : List String)
    (sites : List Site) : leafPaths root (.container keys :: sites) = leafPaths root sites := rfl

@[simp] theorem leafPaths_leaf_cons (root : String) (keys : List String) (tag : Tag)
    (sites : List Site) :
    leafPaths root (.leaf keys tag :: sites) = dottedPath root keys :: leafPaths root sites := rfl

theorem leafPaths_append (root : String) (sites others : List Site) :
    leafPaths root (sites ++ others) = leafPaths root sites ++ leafPaths root others :=
  List.filterMap_append

/-- Going down by a key is the same as moving the root. -/
theorem leafPaths_below (root key : String) (sites : List Site) :
    leafPaths root (sites.map (Site.below key)) = leafPaths (root ++ "." ++ key) sites := by
  induction sites with
  | nil => rfl
  | cons site rest ih =>
    cases site with
    | container keys => exact ih
    | leaf keys tag =>
      rw [List.map_cons, Site.below, leafPaths_leaf_cons, leafPaths_leaf_cons, ih]
      rfl

theorem mem_leafPaths_iff {root path : String} {sites : List Site} :
    path ∈ leafPaths root sites ↔
      ∃ keys tag, Site.leaf keys tag ∈ sites ∧ dottedPath root keys = path := by
  rw [leafPaths, List.mem_filterMap]
  constructor
  · rintro ⟨site, hmem, hpath⟩
    cases site with
    | container keys => cases hpath
    | leaf keys tag => exact ⟨keys, tag, hmem, Option.some.inj hpath⟩
  · rintro ⟨keys, tag, hmem, rfl⟩
    exact ⟨.leaf keys tag, hmem, rfl⟩

mutual

theorem Slot.length_leafPaths (root : String) :
    (slot : Slot) → (leafPaths root slot.sites).length = slot.leafCount
  | .leaf _ => rfl
  | .nested slots => Shape.length_leafPaths root slots

/-- A shape has one path for each of its leaves. -/
theorem Shape.length_leafPaths (root : String) :
    (slots : List (String × Slot)) →
      (leafPaths root (Shape.sites slots)).length = Shape.leafCount slots
  | [] => rfl
  | (key, slot) :: rest => by
    rw [Shape.sites_cons, leafPaths_append, List.length_append, leafPaths_below,
      Slot.length_leafPaths, Shape.length_leafPaths root rest, Shape.leafCount]

end

/-! ## Objects at nested positions -/

/-- A literal holds an object at each nested position among some sites, unless
the position or one above it is missing. -/
def Fits (target : Literal) (sites : List Site) : Prop :=
  ∀ keys, Site.container keys ∈ sites →
    ∀ value, target.at? keys = some value → ∃ properties, value = .object properties

theorem fits_nil (target : Literal) : Fits target [] := by
  intro keys hmem
  cases hmem

theorem fits_container_iff {target : Literal} {keys : List String} {sites : List Site} :
    Fits target (.container keys :: sites) ↔
      (∀ value, target.at? keys = some value → ∃ properties, value = .object properties) ∧
        Fits target sites := by
  constructor
  · intro h
    exact ⟨h keys List.mem_cons_self, fun keys' hmem => h keys' (List.mem_cons_of_mem _ hmem)⟩
  · rintro ⟨hkeys, hrest⟩ keys' hmem
    rcases List.mem_cons.1 hmem with heq | hmem
    · cases heq; exact hkeys
    · exact hrest keys' hmem

theorem fits_leaf_iff {target : Literal} {keys : List String} {tag : Tag} {sites : List Site} :
    Fits target (.leaf keys tag :: sites) ↔ Fits target sites := by
  constructor
  · exact fun h keys' hmem => h keys' (List.mem_cons_of_mem _ hmem)
  · intro h keys' hmem
    rcases List.mem_cons.1 hmem with heq | hmem
    · cases heq
    · exact h keys' hmem

/-- At a nested position there has to be an object, which holds the next ones. -/
theorem fits_nested_iff {target : Literal} {slots : List (String × Slot)} :
    Fits target (Slot.nested slots).sites ↔
      ∃ properties, target = .object properties ∧
        Fits (.object properties) (Shape.sites slots) := by
  rw [Slot.sites_nested, fits_container_iff]
  constructor
  · rintro ⟨hkeys, hrest⟩
    obtain ⟨properties, rfl⟩ := hkeys target (Literal.at?_nil target)
    exact ⟨properties, rfl, hrest⟩
  · rintro ⟨properties, rfl, hrest⟩
    refine ⟨?_, hrest⟩
    intro value hvalue
    exact ⟨properties, (Option.some.inj hvalue).symm⟩

/-- What counts for a key of a shape fits the slot of the key. -/
theorem Fits.of_key {properties : Properties} {slots : List (String × Slot)} {key : String}
    {slot : Slot} {value : Literal} (h : Fits (.object properties) (Shape.sites slots))
    (hslot : (key, slot) ∈ slots) (hvalue : properties.get? key = some value) :
    Fits value slot.sites := by
  intro keys hmem value' hvalue'
  have hsite : Site.container (key :: keys) ∈ Shape.sites slots := by
    rw [Shape.mem_sites_iff]
    exact ⟨key, slot, .container keys, hslot, hmem, rfl⟩
  refine h (key :: keys) hsite value' ?_
  rw [Literal.at?_object_cons, hvalue]
  exact hvalue'

/-- An object fits a shape if what counts for each key fits the slot of the key. -/
theorem fits_of_keys {properties : Properties} {slots : List (String × Slot)}
    (h : ∀ key slot value, (key, slot) ∈ slots → properties.get? key = some value →
      Fits value slot.sites) : Fits (.object properties) (Shape.sites slots) := by
  intro keys hmem value hvalue
  obtain ⟨key, slot, inner, hslot, hinner, hsite⟩ := Shape.mem_sites_iff.1 hmem
  cases inner with
  | leaf below tag => cases hsite
  | container below =>
    cases hsite
    rw [Literal.at?_object_cons, Option.bind_eq_some_iff] at hvalue
    obtain ⟨first, hfirst, hvalue⟩ := hvalue
    exact h key slot first hslot hfirst below hinner value hvalue

theorem Fits.of_cons {target : Literal} {key : String} {slot : Slot}
    {rest : List (String × Slot)} (h : Fits target (Shape.sites ((key, slot) :: rest))) :
    Fits target (Shape.sites rest) := by
  intro keys hmem
  exact h keys (List.mem_append_right _ hmem)

/-- An update of one key does not change the values at the sites under the others. -/
theorem Shape.at?_put {slots : List (String × Slot)} {key : String}
    (hkey : key ∉ Table.keys slots) {site : Site} (hmem : site ∈ Shape.sites slots)
    (properties : Properties) (value : Literal) :
    (Literal.object (properties.put key value)).at? site.keys =
      (Literal.object properties).at? site.keys := by
  obtain ⟨other, slot, inner, hslot, -, rfl⟩ := Shape.mem_sites_iff.1 hmem
  have hne : key ≠ other := by
    intro heq
    rw [heq] at hkey
    exact hkey (List.mem_map_of_mem hslot)
  rw [Site.keys_below, Literal.at?_object_cons, Literal.at?_object_cons,
    Properties.get?_put_of_ne hne]

/-- An update of one key fits the others as before. -/
theorem Fits.put {slots : List (String × Slot)} {key : String} {properties : Properties}
    (h : Fits (.object properties) (Shape.sites slots)) (hkey : key ∉ Table.keys slots)
    (value : Literal) : Fits (.object (properties.put key value)) (Shape.sites slots) := by
  intro keys hmem value' hvalue'
  have hkept := Shape.at?_put hkey hmem properties value
  exact h keys hmem value' (hkept.symm.trans hvalue')

/-- Nothing is met in an empty object. -/
theorem Shape.at?_empty {slots : List (String × Slot)} {site : Site}
    (h : site ∈ Shape.sites slots) : (Literal.object []).at? site.keys = none := by
  obtain ⟨key, slot, inner, -, -, rfl⟩ := Shape.mem_sites_iff.1 h
  rw [Site.keys_below]
  rfl

/-- An empty object fits every shape. -/
theorem fits_empty (slots : List (String × Slot)) : Fits (.object []) (Shape.sites slots) := by
  intro keys hmem value hvalue
  have hnone := (Shape.at?_empty hmem).symm.trans hvalue
  cases hnone

end ComponentProps
