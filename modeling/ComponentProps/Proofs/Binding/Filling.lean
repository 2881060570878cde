import ComponentProps.Proofs.Binding.Obstacle

/-!
# What binding leaves behind

A run of binding that meets no obstacle leaves a literal that depends on the
shape, the root and the literal alone.  `Slot.fill` and `Shape.fill` give this
literal, with no mint and no failure: they put a placeholder at every leaf.
What holds of a bound literal is proved of a filled one.

* `bindSlots_target`: a run without an obstacle fills the literal.
* `get?_fill`, `get?_fill_of_not_mem`: a name of the filled literal has the
  filled value of its slot, or the value that it had.
* `Shape.at?_fill`: every leaf of the shape has its placeholder.
* `bind_places`: the names that a successful run returns, and what the bound
  literal holds at each leaf.
-/

namespace ComponentProps

open Binding Properties

mutual

/-- A value with a placeholder at every leaf of a slot. -/
def Slot.fill (path : String) : Slot → Literal → Literal
  | .leaf tag, _ => .placeholder ⟨PlaceholderKind.ofTag tag, path⟩
  | .nested slots, .object properties => .object (Shape.fill path slots properties)
  | .nested _, value => value

/-- The properties of an object with a placeholder at every leaf of a shape. -/
def Shape.fill (path : String) : List (String × Slot) → Properties → Properties
  | [], properties => properties
  | (key, slot) :: rest, properties =>
    Shape.fill path rest
      (put properties key
        (slot.fill (child path key) ((get? properties key).getD (fresh slot))))

end

@[simp] theorem Slot.fill_leaf (path : String) (tag : Tag) (value : Literal) :
    (Slot.leaf tag).fill path value = .placeholder ⟨PlaceholderKind.ofTag tag, path⟩ := by
  rw [Slot.fill]

@[simp] theorem Slot.fill_nested_object (path : String) (slots : List (String × Slot))
    (properties : Properties) :
    (Slot.nested slots).fill path (.object properties) =
      .object (Shape.fill path slots properties) := by
  rw [Slot.fill]

namespace Binding

mutual

theorem bindSlot_target (path : String) :
    (slot : Slot) → (value : Literal) → (mint : Mint) →
      (bindSlot path slot value mint).obstacle = none →
        (bindSlot path slot value mint).target = slot.fill path value
  | .leaf tag, value, mint, hfree => by
    by_cases h : path ∈ mint.names
    · rw [bindSlot_leaf_of_mem h] at hfree
      cases hfree
    · rw [bindSlot_leaf_of_not_mem h, Slot.fill_leaf]
  | .nested slots, value, mint, hfree => by
    by_cases h : ∃ properties, value = .object properties
    · obtain ⟨properties, rfl⟩ := h
      rw [bindSlot_nested_object] at hfree ⊢
      rw [Slot.fill_nested_object, ← bindSlots_target path slots properties mint hfree]
    · rw [bindSlot_nested_of_ne (not_exists.1 h)] at hfree
      cases hfree

/-- A run without an obstacle fills the literal. -/
theorem bindSlots_target (path : String) :
    (slots : List (String × Slot)) → (properties : Properties) → (mint : Mint) →
      (bindSlots path slots properties mint).obstacle = none →
        (bindSlots path slots properties mint).target = Shape.fill path slots properties
  | [], properties, mint, _ => by rw [bindSlots, Shape.fill]
  | (key, slot) :: rest, properties, mint, hfree => by
    obtain ⟨hkey, hrest⟩ := bindSlots_cons_eq_none_iff.1 hfree
    have htarget := bindSlot_target (child path key) slot
      ((get? properties key).getD (fresh slot)) mint hkey
    rw [← bindKey] at htarget
    rw [bindSlots_cons_of_none hkey, Shape.fill, ← htarget]
    exact bindSlots_target path rest _ _ hrest

end

end Binding

/-! ## Lookups in a filled literal -/

/-- Filling does not touch a name that is no key of the shape. -/
theorem get?_fill_of_not_mem {slots : List (String × Slot)} {name : String}
    (h : name ∉ Table.keys slots) (path : String) (properties : Properties) :
    get? (Shape.fill path slots properties) name = get? properties name := by
  induction slots generalizing properties with
  | nil => rw [Shape.fill]
  | cons entry rest ih =>
    obtain ⟨key, slot⟩ := entry
    rw [Table.keys_cons, List.mem_cons, not_or] at h
    rw [Shape.fill, ih h.2, get?_put_of_ne (Ne.symm h.1)]

/-- A key of the shape has the filled value of its slot. -/
theorem get?_fill {slots : List (String × Slot)} (hslots : Shape.WellFormed slots)
    {key : String} {slot : Slot} (hmem : (key, slot) ∈ slots) (path : String)
    (properties : Properties) :
    get? (Shape.fill path slots properties) key =
      some (slot.fill (child path key) ((get? properties key).getD (fresh slot))) := by
  induction slots generalizing properties with
  | nil => cases hmem
  | cons entry rest ih =>
    obtain ⟨first, firstSlot⟩ := entry
    obtain ⟨hnew, -, hrest⟩ := hslots
    rw [Shape.fill]
    rcases List.mem_cons.1 hmem with heq | hmem
    · cases heq
      rw [get?_fill_of_not_mem hnew, get?_put_self]
    · have hne : first ≠ key := by
        intro heq
        rw [heq] at hnew
        exact hnew (List.mem_map_of_mem hmem)
      rw [ih hrest hmem, get?_put_of_ne hne]

/-- The value that is bound for a key fits its slot. -/
theorem fits_getD {properties : Properties} {slots : List (String × Slot)} {key : String}
    {slot : Slot} (h : Fits (.object properties) (Shape.sites slots))
    (hslot : (key, slot) ∈ slots) :
    Fits ((get? properties key).getD (fresh slot)) slot.sites := by
  cases hvalue : get? properties key with
  | some value => exact h.of_key hslot hvalue
  | none =>
    cases slot with
    | leaf tag => exact fits_leaf_iff.2 (fits_nil _)
    | nested inner => exact fits_nested_iff.2 ⟨[], rfl, fits_empty inner⟩

mutual

theorem Slot.at?_fill {keys : List String} {tag : Tag} :
    (slot : Slot) → slot.WellFormed → (path : String) → (value : Literal) →
      Fits value slot.sites → Site.leaf keys tag ∈ slot.sites →
        (slot.fill path value).at? keys =
          some (.placeholder ⟨PlaceholderKind.ofTag tag, dottedPath path keys⟩)
  | .leaf tag', _, path, value, _, hmem => by
    rw [Slot.sites_leaf, List.mem_singleton] at hmem
    cases hmem
    rw [Slot.fill_leaf, Literal.at?_nil, dottedPath_nil]
  | .nested slots, hslots, path, value, hfits, hmem => by
    obtain ⟨properties, rfl, hinner⟩ := fits_nested_iff.1 hfits
    rw [Slot.fill_nested_object]
    rcases List.mem_cons.1 hmem with heq | hmem
    · cases heq
    · exact Shape.at?_fill slots hslots path properties hinner hmem

/-- Every leaf of the shape has its placeholder. -/
theorem Shape.at?_fill {keys : List String} {tag : Tag} :
    (slots : List (String × Slot)) → Shape.WellFormed slots → (path : String) →
      (properties : Properties) → Fits (.object properties) (Shape.sites slots) →
      Site.leaf keys tag ∈ Shape.sites slots →
        (Literal.object (Shape.fill path slots properties)).at? keys =
          some (.placeholder ⟨PlaceholderKind.ofTag tag, dottedPath path keys⟩)
  | [], _, _, _, _, hmem => by cases hmem
  | (key, slot) :: rest, hslots, path, properties, hfits, hmem => by
    rw [Shape.sites_cons, List.mem_append, List.mem_map] at hmem
    rcases hmem with ⟨inner, hinner, hsite⟩ | hmem
    · cases inner with
      | container keys' => cases hsite
      | leaf keys' tag' =>
        cases hsite
        rw [Literal.at?_object_cons, get?_fill hslots List.mem_cons_self, Option.bind_some]
        exact Slot.at?_fill slot hslots.2.1 (child path key) _
          (fits_getD hfits List.mem_cons_self) hinner
    · have hrest : Fits (.object properties) (Shape.sites rest) := hfits.of_cons
      rw [Shape.fill]
      exact Shape.at?_fill rest hslots.2.2 path _ (hrest.put hslots.1 _) hmem

end

/-! ## The outcome of binding -/

/-- The tags that certainly give a property a value of a type, and the kinds of
the placeholders for them. -/
def PlaceholderKind.required : List (Tag × PlaceholderKind) :=
  [(.arrayRequired, .array), (.objectRequired, .object), (.numberRequired, .number),
    (.stringRequired, .string), (.funcRequired, .function), (.boolRequired, .boolean)]

theorem PlaceholderKind.ofTag_eq_lookup (tag : Tag) :
    ofTag tag = (required.lookup tag).getD .unknown := by
  cases tag <;> rfl

/-- A successful run returns one name for each leaf, its dotted path, in the order
of the sites and whatever the literal is.  At each leaf the bound literal holds
the placeholder of that name, of the kind that a required tag has or else of
the unknown kind. -/
theorem bind_places {shape : Shape} (hshape : Shape.WellFormed shape) (root : String)
    (target : Properties) (mint : Mint) (hfree : (shape.bind root target mint).obstacle = none) :
    (shape.bind root target mint).names = leafPaths root (Shape.sites shape) ∧
    (shape.bind root target mint).names.length = Shape.leafCount shape ∧
    ∀ keys tag, Site.leaf keys tag ∈ Shape.sites shape →
      (Literal.object (shape.bind root target mint).target).at? keys =
        some (.placeholder
          ⟨(PlaceholderKind.required.lookup tag).getD .unknown, dottedPath root keys⟩) := by
  have hnames : (shape.bind root target mint).names = leafPaths root (Shape.sites shape) :=
    bindSlots_names root shape target mint hfree
  have htarget : (shape.bind root target mint).target = Shape.fill root shape target :=
    bindSlots_target root shape target mint hfree
  have hfits : Fits (.object target) (Shape.sites shape) :=
    ((bindSlots_eq_none_iff hshape root target mint).1 hfree).objects
  refine ⟨hnames, ?_, ?_⟩
  · rw [hnames, Shape.length_leafPaths]
  · intro keys tag hmem
    rw [htarget, Shape.at?_fill shape hshape root target hfits hmem,
      PlaceholderKind.ofTag_eq_lookup]

/-- Of two properties called `a` the last one is entered, and what it lacks is
defined in it. -/
theorem bind_places_repeated_name :
    let shape : Shape := [("a", .nested [("x", .leaf .stringRequired)]), ("b", .leaf .node)]
    let target : Properties := [(.identifier "a", .null), (.quoted "a", .object [])]
    Shape.WellFormed shape ∧ (shape.bind "props" target Mint.empty).obstacle = none ∧
      (shape.bind "props" target Mint.empty).names = ["props.a.x", "props.b"] ∧
      (Literal.object (shape.bind "props" target Mint.empty).target).at? ["a", "x"] =
        some (.placeholder ⟨.string, "props.a.x"⟩) := by
  intro shape target
  have hshape : Shape.WellFormed shape := by simp [shape]
  have hfree : (shape.bind "props" target Mint.empty).obstacle = none := by decide
  obtain ⟨hnames, -, hplaces⟩ := bind_places hshape "props" target Mint.empty hfree
  exact ⟨hshape, hfree, hnames, hplaces ["a", "x"] .stringRequired (by decide)⟩

end ComponentProps
