import ComponentProps.Binding
import ComponentProps.Proofs.Shape.Sites

/-!
# One step of binding

Binding goes through the keys of a level one by one.  The first lemmas say what
one key does: its slot is bound into the value that counts for the key, or into
a fresh one, and the result is put back (`bindSlots_cons_of_none`,
`bindSlots_cons_of_some`).  The others say what a whole run does to the mint and
which names it returns.

* `bindSlots_mint`: the mint has issued exactly the names that are returned.
* `bindSlots_names`: a run that meets no obstacle returns the dotted paths of
  the leaves, in the order of the sites.
* `bindSlots_rootedAt`: an obstacle is reported at a dotted path from the root.
-/

namespace ComponentProps

/-- An obstacle at a dotted path from a root. -/
inductive BindError.RootedAt (root : String) : BindError → Prop
  | notAnObject (keys : List String) (found : Kind) :
      RootedAt root (.notAnObject (dottedPath root keys) found)
  | duplicateName (keys : List String) : RootedAt root (.duplicateName (dottedPath root keys))

namespace Binding

open Properties

/-! ## One key -/

/-- Going down by a key is the same as moving the root. -/
theorem leafPaths_child (path key : String) (sites : List Site) :
    leafPaths path (sites.map (Site.below key)) = leafPaths (child path key) sites :=
  leafPaths_below path key sites

/-- A path below a property is a path below the object. -/
theorem rootedAt_of_child {path key : String} {error : BindError}
    (h : error.RootedAt (child path key)) : error.RootedAt path := by
  cases h with
  | notAnObject keys found => exact .notAnObject (key :: keys) found
  | duplicateName keys => exact .duplicateName (key :: keys)

/-- Defining a property does not change the value that is bound for it. -/
theorem get?_define (key : String) (slot : Slot) (properties : Properties) :
    (get? (define key slot properties) key).getD (fresh slot) =
      (get? properties key).getD (fresh slot) := by
  rw [define]
  split
  · rfl
  next hmissing =>
    rw [has_iff] at hmissing
    have hput : add properties key (fresh slot) = put properties key (fresh slot) := by
      rw [put_of_not_mem hmissing, add]
    rw [hput, get?_put_self, get?_eq_none_iff.2 hmissing]
    rfl

/-- Defining a property and replacing its value is an update. -/
theorem replaceLast_define (key : String) (slot : Slot) (properties : Properties)
    (value : Literal) :
    replaceLast (define key slot properties) key value = put properties key value := by
  rw [define, put]
  split
  · rfl
  · exact replaceLast_add properties key (fresh slot) value

/-- The binding of the slot of one key, into the value that counts for the key. -/
def bindKey (path key : String) (slot : Slot) (properties : Properties) (mint : Mint) :
    Bound Literal :=
  bindSlot (child path key) slot ((get? properties key).getD (fresh slot)) mint

/-- An obstacle under a key is the last thing that happens. -/
theorem bindSlots_cons_of_some {path key : String} {slot : Slot} {rest : List (String × Slot)}
    {properties : Properties} {mint : Mint} {obstacle : BindError}
    (h : (bindKey path key slot properties mint).obstacle = some obstacle) :
    bindSlots path ((key, slot) :: rest) properties mint =
      ⟨put properties key (bindKey path key slot properties mint).target,
        (bindKey path key slot properties mint).mint,
        (bindKey path key slot properties mint).names, some obstacle⟩ := by
  rw [bindKey] at h ⊢
  rw [bindSlots, get?_define]
  simp only [replaceLast_define, h]

/-- Without an obstacle under a key, binding goes on with the updated object. -/
theorem bindSlots_cons_of_none {path key : String} {slot : Slot} {rest : List (String × Slot)}
    {properties : Properties} {mint : Mint}
    (h : (bindKey path key slot properties mint).obstacle = none) :
    let bound := bindKey path key slot properties mint
    let others := bindSlots path rest (put properties key bound.target) bound.mint
    bindSlots path ((key, slot) :: rest) properties mint =
      ⟨others.target, others.mint, bound.names ++ others.names, others.obstacle⟩ := by
  rw [bindKey] at h ⊢
  rw [bindSlots, get?_define]
  simp only [replaceLast_define, h]

/-- Binding a level is without an obstacle if each of its steps is. -/
theorem bindSlots_cons_eq_none_iff {path key : String} {slot : Slot}
    {rest : List (String × Slot)} {properties : Properties} {mint : Mint} :
    (bindSlots path ((key, slot) :: rest) properties mint).obstacle = none ↔
      (bindKey path key slot properties mint).obstacle = none ∧
        (bindSlots path rest
          (put properties key (bindKey path key slot properties mint).target)
          (bindKey path key slot properties mint).mint).obstacle = none := by
  cases h : (bindKey path key slot properties mint).obstacle with
  | none => simp [bindSlots_cons_of_none h]
  | some obstacle => simp [bindSlots_cons_of_some h]

/-! ## One slot -/

/-- A name that is taken is an obstacle. -/
theorem bindSlot_leaf_of_mem {path : String} {mint : Mint} (h : path ∈ mint.names) (tag : Tag)
    (value : Literal) :
    bindSlot path (.leaf tag) value mint = ⟨value, mint, [], some (.duplicateName path)⟩ := by
  rw [bindSlot, Mint.issue, if_pos h]

/-- A new name gives a placeholder. -/
theorem bindSlot_leaf_of_not_mem {path : String} {mint : Mint} (h : path ∉ mint.names)
    (tag : Tag) (value : Literal) :
    bindSlot path (.leaf tag) value mint =
      ⟨.placeholder ⟨PlaceholderKind.ofTag tag, path⟩, ⟨path :: mint.names⟩, [path], none⟩ := by
  rw [bindSlot, Mint.issue, if_neg h]

/-- An object is entered. -/
theorem bindSlot_nested_object (path : String) (slots : List (String × Slot))
    (properties : Properties) (mint : Mint) :
    let bound := bindSlots path slots properties mint
    bindSlot path (.nested slots) (.object properties) mint =
      ⟨.object bound.target, bound.mint, bound.names, bound.obstacle⟩ := by
  rw [bindSlot]

/-- Any other value at a nested position is an obstacle. -/
theorem bindSlot_nested_of_ne {value : Literal} (h : ∀ properties, value ≠ .object properties)
    (path : String) (slots : List (String × Slot)) (mint : Mint) :
    bindSlot path (.nested slots) value mint =
      ⟨value, mint, [], some (.notAnObject path value.kind)⟩ := by
  rw [bindSlot]
  exact h

/-! ## A whole run -/

mutual

/-- The mint has issued exactly the names that are returned. -/
theorem bindSlot_mint (path : String) :
    (slot : Slot) → (value : Literal) → (mint : Mint) →
      (bindSlot path slot value mint).mint.names =
        (bindSlot path slot value mint).names.reverse ++ mint.names
  | .leaf tag, value, mint => by
    by_cases h : path ∈ mint.names
    · rw [bindSlot_leaf_of_mem h]; rfl
    · rw [bindSlot_leaf_of_not_mem h]; rfl
  | .nested slots, value, mint => by
    by_cases h : ∃ properties, value = .object properties
    · obtain ⟨properties, rfl⟩ := h
      rw [bindSlot_nested_object]
      exact bindSlots_mint path slots properties mint
    · rw [bindSlot_nested_of_ne (not_exists.1 h)]; rfl

/-- The mint has issued exactly the names that are returned. -/
theorem bindSlots_mint (path : String) :
    (slots : List (String × Slot)) → (properties : Properties) → (mint : Mint) →
      (bindSlots path slots properties mint).mint.names =
        (bindSlots path slots properties mint).names.reverse ++ mint.names
  | [], properties, mint => rfl
  | (key, slot) :: rest, properties, mint => by
    have hkey := bindSlot_mint (child path key) slot
      ((get? properties key).getD (fresh slot)) mint
    rw [← bindKey] at hkey
    cases h : (bindKey path key slot properties mint).obstacle with
    | some obstacle => rw [bindSlots_cons_of_some h]; exact hkey
    | none =>
      rw [bindSlots_cons_of_none h, bindSlots_mint path rest, hkey, List.reverse_append,
        List.append_assoc]

end

mutual

theorem bindSlot_names (path : String) :
    (slot : Slot) → (value : Literal) → (mint : Mint) →
      (bindSlot path slot value mint).obstacle = none →
        (bindSlot path slot value mint).names = leafPaths path slot.sites
  | .leaf tag, value, mint, hfree => by
    by_cases h : path ∈ mint.names
    · rw [bindSlot_leaf_of_mem h] at hfree
      cases hfree
    · rw [bindSlot_leaf_of_not_mem h]; rfl
  | .nested slots, value, mint, hfree => by
    by_cases h : ∃ properties, value = .object properties
    · obtain ⟨properties, rfl⟩ := h
      rw [bindSlot_nested_object] at hfree ⊢
      exact bindSlots_names path slots properties mint hfree
    · rw [bindSlot_nested_of_ne (not_exists.1 h)] at hfree
      cases hfree

/-- A run without an obstacle returns the dotted paths of the leaves, in the
order of the sites. -/
theorem bindSlots_names (path : String) :
    (slots : List (String × Slot)) → (properties : Properties) → (mint : Mint) →
      (bindSlots path slots properties mint).obstacle = none →
        (bindSlots path slots properties mint).names = leafPaths path (Shape.sites slots)
  | [], properties, mint, _ => rfl
  | (key, slot) :: rest, properties, mint, hfree => by
    obtain ⟨hkey, hrest⟩ := bindSlots_cons_eq_none_iff.1 hfree
    have hnames := bindSlot_names (child path key) slot
      ((get? properties key).getD (fresh slot)) mint hkey
    rw [← bindKey] at hnames
    rw [bindSlots_cons_of_none hkey, Shape.sites_cons, leafPaths_append, leafPaths_child,
      bindSlots_names path rest _ _ hrest, hnames]

end

mutual

theorem bindSlot_rootedAt (path : String) {error : BindError} :
    (slot : Slot) → (value : Literal) → (mint : Mint) →
      (bindSlot path slot value mint).obstacle = some error → error.RootedAt path
  | .leaf tag, value, mint, hstop => by
    by_cases h : path ∈ mint.names
    · rw [bindSlot_leaf_of_mem h] at hstop
      cases hstop
      exact .duplicateName []
    · rw [bindSlot_leaf_of_not_mem h] at hstop
      cases hstop
  | .nested slots, value, mint, hstop => by
    by_cases h : ∃ properties, value = .object properties
    · obtain ⟨properties, rfl⟩ := h
      rw [bindSlot_nested_object] at hstop
      exact bindSlots_rootedAt path slots properties mint hstop
    · rw [bindSlot_nested_of_ne (not_exists.1 h)] at hstop
      cases hstop
      exact .notAnObject [] _

/-- An obstacle is reported at a dotted path from the root. -/
theorem bindSlots_rootedAt (path : String) {error : BindError} :
    (slots : List (String × Slot)) → (properties : Properties) → (mint : Mint) →
      (bindSlots path slots properties mint).obstacle = some error → error.RootedAt path
  | [], _, _, hstop => by cases hstop
  | (key, slot) :: rest, properties, mint, hstop => by
    cases h : (bindKey path key slot properties mint).obstacle with
    | some obstacle =>
      rw [bindSlots_cons_of_some h] at hstop
      cases hstop
      exact rootedAt_of_child (bindSlot_rootedAt (child path key) slot _ mint h)
    | none =>
      rw [bindSlots_cons_of_none h] at hstop
      exact bindSlots_rootedAt path rest _ _ hstop

end

end Binding

end ComponentProps
