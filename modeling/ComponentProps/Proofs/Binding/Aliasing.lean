import ComponentProps.Proofs.Binding.Placeholders
import ComponentProps.Text.Split

/-!
# Leaves with the same path

The keys that lead to a leaf are joined by dots to give its path, so a key with a dot in
it can make the paths of two leaves the same.  This is the only way in which binding
with a new mint comes upon a name that is taken.

* `obstacle_cases`: what stops binding with a new mint is a value that is no object, or a
  path that two leaves have.  `obstacle_eq_none_iff` says when nothing does.
* `dottedPath_inj`: without a dot in a key, the path tells the keys, even if some of them
  are empty, and whatever the root is.
* `Shape.Undotted`: no key of a shape has a dot in it, on any level.
* `bind_undotted`: such a shape is never stopped by a name.
-/

namespace ComponentProps

open Binding

/-! ## Two leaves -/

/-- Binding with a mint that has issued nothing stops at a value that is no object where
the shape is nested, or at a name that two leaves of the shape have as their path. -/
theorem Binding.obstacle_cases {slots : List (String × Slot)} (hslots : Shape.WellFormed slots)
    {root : String} {properties : Properties} {error : BindError}
    (h : (bindSlots root slots properties Mint.empty).obstacle = some error) :
    (¬ Fits (.object properties) (Shape.sites slots) ∧
      ∃ path found, error = .notAnObject path found) ∨
    ∃ keys tag others other, keys ≠ others ∧
      Site.leaf keys tag ∈ Shape.sites slots ∧ Site.leaf others other ∈ Shape.sites slots ∧
      dottedPath root keys = dottedPath root others ∧
      error = .duplicateName (dottedPath root keys) := by
  rw [bindSlots_obstacle root slots hslots, firstObstacle?_eq_some_iff] at h
  obtain ⟨before, site, after, hsites, -, hstops⟩ := h
  cases hstops with
  | @notAnObject keys value hvalue hobject =>
    refine Or.inl ⟨?_, _, _, rfl⟩
    intro hfits
    obtain ⟨inner, hinner⟩ := hfits keys (by simp [hsites]) value hvalue
    exact hobject inner hinner
  | @duplicateName keys tag htaken =>
    have hbefore : dottedPath root keys ∈ leafPaths root before := by
      simpa [Mint.empty] using htaken
    obtain ⟨others, other, hother, hpath⟩ := mem_leafPaths_iff.1 hbefore
    have hdistinct := Shape.nodup_keys_sites slots hslots
    rw [hsites, List.map_append, List.nodup_append] at hdistinct
    have hne : others ≠ keys :=
      hdistinct.2.2 others (List.mem_map_of_mem hother) keys (by simp [Site.keys])
    rw [hsites]
    exact Or.inr ⟨keys, tag, others, other, hne.symm, by simp, List.mem_append_left _ hother,
      hpath.symm, rfl⟩

/-- Binding with a mint that has issued nothing succeeds exactly if there are objects where
the shape is nested, as far as there is anything, and no two leaves have the same path. -/
theorem Binding.obstacle_eq_none_iff {slots : List (String × Slot)}
    (hslots : Shape.WellFormed slots) {root : String} {properties : Properties} :
    (bindSlots root slots properties Mint.empty).obstacle = none ↔
      Fits (.object properties) (Shape.sites slots) ∧
      ∀ keys tag others other,
        Site.leaf keys tag ∈ Shape.sites slots → Site.leaf others other ∈ Shape.sites slots →
          dottedPath root keys = dottedPath root others → keys = others := by
  constructor
  · intro hfree
    have hclear := (bindSlots_eq_none_iff hslots root properties Mint.empty).1 hfree
    refine ⟨hclear.objects, ?_⟩
    intro keys tag others other hleaf hleaf' hpath
    exact keys_eq_of_dottedPath_eq hclear.distinct hleaf hleaf' hpath
  · intro h
    obtain ⟨hfits, hpaths⟩ := h
    cases hstop : (bindSlots root slots properties Mint.empty).obstacle with
    | none => rfl
    | some error =>
      rcases obstacle_cases hslots hstop with
        ⟨hobject, -⟩ | ⟨keys, tag, others, other, hne, hleaf, hleaf', hpath, -⟩
      · exact absurd hfits hobject
      · exact absurd (hpaths keys tag others other hleaf hleaf' hpath) hne

/-! ## Keys without dots -/

theorem dottedPath_of_ne_nil {keys : List String} (h : keys ≠ []) (root : String) :
    dottedPath root keys = root ++ "." ++ String.intercalate "." keys :=
  String.intercalate_cons_of_ne_nil h

/-- A path of one key or more is longer than its root. -/
theorem dottedPath_ne_root {keys : List String} (h : keys ≠ []) (root : String) :
    dottedPath root keys ≠ root := by
  intro heq
  have hlength := congrArg String.length heq
  rw [dottedPath_of_ne_nil h, String.length_append, String.length_append] at hlength
  have hdot : ".".length = 1 := rfl
  omega

/-- Without a dot in a key, the path tells the keys. -/
theorem dottedPath_inj {root : String} {keys others : List String}
    (hkeys : ∀ key ∈ keys, '.' ∉ key.toList) (hothers : ∀ key ∈ others, '.' ∉ key.toList)
    (h : dottedPath root keys = dottedPath root others) : keys = others := by
  by_cases hnil : keys = []
  · by_cases hnil' : others = []
    · rw [hnil, hnil']
    · rw [hnil, dottedPath_nil] at h
      exact absurd h.symm (dottedPath_ne_root hnil' root)
  · by_cases hnil' : others = []
    · rw [hnil', dottedPath_nil] at h
      exact absurd h (dottedPath_ne_root hnil root)
    · rw [dottedPath_of_ne_nil hnil, dottedPath_of_ne_nil hnil', String.append_right_inj] at h
      calc keys = Text.split '.' (String.intercalate "." keys) :=
            (Text.split_intercalate hnil hkeys).symm
        _ = Text.split '.' (String.intercalate "." others) := by rw [h]
        _ = others := Text.split_intercalate hnil' hothers

mutual

/-- No key of a slot has a dot in it, on any level. -/
def Slot.Undotted : Slot → Prop
  | .leaf _ => True
  | .nested slots => Shape.Undotted slots

/-- No key of a shape has a dot in it, on any level. -/
def Shape.Undotted : List (String × Slot) → Prop
  | [] => True
  | (key, slot) :: rest => '.' ∉ key.toList ∧ slot.Undotted ∧ Shape.Undotted rest

end

@[simp] theorem Slot.undotted_leaf (tag : Tag) : (Slot.leaf tag).Undotted := trivial

@[simp] theorem Slot.undotted_nested_iff (slots : List (String × Slot)) :
    (Slot.nested slots).Undotted ↔ Shape.Undotted slots := Iff.rfl

@[simp] theorem Shape.undotted_nil : Shape.Undotted [] := trivial

@[simp] theorem Shape.undotted_cons_iff (key : String) (slot : Slot)
    (rest : List (String × Slot)) :
    Shape.Undotted ((key, slot) :: rest) ↔
      '.' ∉ key.toList ∧ slot.Undotted ∧ Shape.Undotted rest := Iff.rfl

theorem Shape.Undotted.of_mem {slots : List (String × Slot)} (h : Shape.Undotted slots)
    {entry : String × Slot} (hmem : entry ∈ slots) :
    '.' ∉ entry.1.toList ∧ entry.2.Undotted := by
  induction slots with
  | nil => cases hmem
  | cons first rest ih =>
    obtain ⟨hkey, hslot, hrest⟩ := h
    rcases List.mem_cons.1 hmem with rfl | hmem
    · exact ⟨hkey, hslot⟩
    · exact ih hrest hmem

/-- The keys that lead to a site of such a slot have no dot in them. -/
theorem Slot.Undotted.not_mem {slot : Slot} (h : slot.Undotted) {site : Site}
    (hsite : site ∈ slot.sites) : ∀ key ∈ site.keys, '.' ∉ key.toList := by
  induction slot generalizing site with
  | leaf tag =>
    cases List.mem_singleton.1 hsite
    simp [Site.keys]
  | nested slots ih =>
    rcases List.mem_cons.1 hsite with rfl | hsite
    · simp [Site.keys]
    · obtain ⟨key, slot, inner, hmem, hinner, rfl⟩ := Shape.mem_sites_iff.1 hsite
      obtain ⟨hkey, hslot⟩ := Shape.Undotted.of_mem h hmem
      rw [Site.keys_below, List.forall_mem_cons]
      exact ⟨hkey, ih (key, slot) hmem hslot hinner⟩

/-! ## The outcome of binding -/

/-- If no key of a shape has a dot in it, no name stops the shape from being bound with a
new mint, at any root and into any literal.  So the literal alone decides: the shape is
bound exactly if the literal holds objects at its nested positions, as far as it holds
anything there. -/
theorem bind_undotted {shape : Shape} (hshape : Shape.WellFormed shape)
    (hundotted : Shape.Undotted shape) (root : String) (target : Properties) :
    (∀ name, (shape.bind root target Mint.empty).obstacle ≠ some (.duplicateName name)) ∧
      ((shape.bind root target Mint.empty).obstacle = none ↔
        Fits (.object target) (Shape.sites shape)) := by
  have hpaths : ∀ keys tag others other,
      Site.leaf keys tag ∈ Shape.sites shape → Site.leaf others other ∈ Shape.sites shape →
        dottedPath root keys = dottedPath root others → keys = others := by
    intro keys tag others other hleaf hleaf' hpath
    have hslot : (Slot.nested shape).Undotted := hundotted
    have hkeys := hslot.not_mem (List.mem_cons_of_mem _ hleaf)
    have hothers := hslot.not_mem (List.mem_cons_of_mem _ hleaf')
    exact dottedPath_inj hkeys hothers hpath
  refine ⟨?_, (obstacle_eq_none_iff hshape).trans (and_iff_left hpaths)⟩
  intro name hstop
  rcases obstacle_cases hshape hstop with
    ⟨-, path, found, herror⟩ | ⟨keys, tag, others, other, hne, hleaf, hleaf', hpath, -⟩
  · cases herror
  · exact hne (hpaths keys tag others other hleaf hleaf' hpath)

/-- Empty keys give paths with several dots in a row, which are different as long as
their numbers are. -/
theorem bind_undotted_empty_keys :
    let shape : Shape :=
      [("", .nested [("", .leaf .any), ("a", .leaf .any)]), ("a", .nested [("", .leaf .any)])]
    let bound := shape.bind "p." [(.quoted "", .object [])] Mint.empty
    Shape.WellFormed shape ∧ Shape.Undotted shape ∧ bound.names = ["p...", "p...a", "p..a."] ∧
      ∀ name, bound.obstacle ≠ some (.duplicateName name) := by
  intro shape bound
  have hshape : Shape.WellFormed shape := by simp [shape]
  have hundotted : Shape.Undotted shape := by simp [shape]
  exact ⟨hshape, hundotted, rfl, (bind_undotted hshape hundotted "p." _).1⟩

end ComponentProps
