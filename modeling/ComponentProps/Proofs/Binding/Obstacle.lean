import ComponentProps.Proofs.Binding.Step

/-!
# The first obstacle

Whether binding succeeds can be read off the literal as it was before, although
the walk changes the literal and the mint while it decides.  A site is in the
way of binding if it is nested and holds a value that is no object, or if it is
a leaf and its path has been issued (`Site.Stops`).  `Unobstructed` says of a
list of sites that none is in the way of those before it.

* `firstObstacle?` runs over the sites with the original literal and the names
  that are taken.
* `bindSlots_obstacle` is the simulation: the walk finds this obstacle.  A step
  binds one key, and by `get?_put_of_ne` the later sites still find the values
  of the original literal.
* `firstObstacle?_eq_none_iff` and `firstObstacle?_eq_some_iff` read the run over
  the sites.
* `bind_obstacle` says when binding succeeds and what stops it otherwise.
-/

namespace ComponentProps

/-- A site is in the way of binding, in a literal and with some names taken. -/
inductive Site.Stops (root : String) (target : Literal) (taken : List String) :
    Site → BindError → Prop
  /-- A nested position holds a value that is no object. -/
  | notAnObject {keys : List String} {value : Literal} (hvalue : target.at? keys = some value)
      (hobject : ∀ properties, value ≠ .object properties) :
      Stops root target taken (.container keys) (.notAnObject (dottedPath root keys) value.kind)
  /-- The path of a leaf has been issued. -/
  | duplicateName {keys : List String} {tag : Tag} (htaken : dottedPath root keys ∈ taken) :
      Stops root target taken (.leaf keys tag) (.duplicateName (dottedPath root keys))

/-- No site of a list is in the way of binding the list. -/
structure Unobstructed (root : String) (target : Literal) (taken : List String)
    (sites : List Site) : Prop where
  /-- A nested position holds an object, unless it or a position above it is
  missing. -/
  objects : Fits target sites
  /-- No two leaves have the same path. -/
  distinct : (leafPaths root sites).Nodup
  /-- No path is taken. -/
  unused : ∀ path ∈ leafPaths root sites, path ∉ taken

namespace Binding

open Properties

variable {root : String} {lookup : List String → Option Literal} {taken : List String}
  {sites : List Site}

/-! ## A run over the sites -/

/-- The obstacle at a site, if there is one. -/
def obstacle? (root : String) (lookup : List String → Option Literal) (taken : List String) :
    Site → Option BindError
  | .container keys =>
    match lookup keys with
    | none => none
    | some (.object _) => none
    | some value => some (.notAnObject (dottedPath root keys) value.kind)
  | .leaf keys _ =>
    if dottedPath root keys ∈ taken then some (.duplicateName (dottedPath root keys)) else none

/-- The first obstacle at some sites, each of which takes its path. -/
def firstObstacle? (root : String) (lookup : List String → Option Literal) :
    List String → List Site → Option BindError
  | _, [] => none
  | taken, site :: rest =>
    (obstacle? root lookup taken site).or
      (firstObstacle? root lookup ((site.leafPath? root).toList ++ taken) rest)

theorem firstObstacle?_append (root : String) (lookup : List String → Option Literal)
    (taken : List String) (sites others : List Site) :
    firstObstacle? root lookup taken (sites ++ others) =
      (firstObstacle? root lookup taken sites).or
        (firstObstacle? root lookup ((leafPaths root sites).reverse ++ taken) others) := by
  induction sites generalizing taken with
  | nil => rfl
  | cons site rest ih =>
    rw [List.cons_append, firstObstacle?, firstObstacle?, ih, Option.or_assoc]
    cases site with
    | container keys => rfl
    | leaf keys tag => simp [Site.leafPath?]

/-- Going down by a key is the same as moving the root. -/
theorem firstObstacle?_below (root key : String) (lookup : List String → Option Literal)
    (taken : List String) (sites : List Site) :
    firstObstacle? root lookup taken (sites.map (Site.below key)) =
      firstObstacle? (child root key) (fun keys => lookup (key :: keys)) taken sites := by
  induction sites generalizing taken with
  | nil => rfl
  | cons site rest ih =>
    rw [List.map_cons, firstObstacle?, firstObstacle?, ih]
    cases site <;> rfl

/-- Only the values at nested positions matter. -/
theorem firstObstacle?_congr {lookup' : List String → Option Literal}
    (h : ∀ keys, Site.container keys ∈ sites → lookup keys = lookup' keys)
    (taken : List String) :
    firstObstacle? root lookup taken sites = firstObstacle? root lookup' taken sites := by
  induction sites generalizing taken with
  | nil => rfl
  | cons site rest ih =>
    have hrest := ih fun keys hmem => h keys (List.mem_cons_of_mem _ hmem)
    rw [firstObstacle?, firstObstacle?, hrest]
    cases site with
    | container keys => rw [obstacle?, obstacle?, h keys List.mem_cons_self]
    | leaf keys tag => rfl

/-- A missing property is bound as if it had been there, with nothing in it. -/
theorem firstObstacle?_fresh (slot : Slot) (taken : List String) :
    firstObstacle? root (fun _ => none) taken slot.sites =
      firstObstacle? root (fresh slot).at? taken slot.sites := by
  cases slot with
  | leaf tag =>
    refine firstObstacle?_congr ?_ taken
    simp
  | nested slots =>
    rw [Slot.sites_nested, firstObstacle?, firstObstacle?]
    refine congrArg _ (firstObstacle?_congr ?_ _)
    intro keys hmem
    exact (Shape.at?_empty hmem).symm

/-! ## The simulation -/

/-- Under a key, the run looks at the value that is bound for the key. -/
theorem firstObstacle?_key (path key : String) (slot : Slot) (properties : Properties)
    (taken : List String) :
    firstObstacle? path (Literal.object properties).at? taken
        (slot.sites.map (Site.below key)) =
      firstObstacle? (child path key) ((get? properties key).getD (fresh slot)).at? taken
        slot.sites := by
  rw [firstObstacle?_below]
  simp only [Literal.at?_object_cons]
  cases get? properties key with
  | none => exact firstObstacle?_fresh slot taken
  | some value => rfl

/-- An update of one key is not seen by the run over the others. -/
theorem firstObstacle?_put {slots : List (String × Slot)} {key : String}
    (h : key ∉ Table.keys slots) (path : String) (properties : Properties) (value : Literal)
    (taken : List String) :
    firstObstacle? path (Literal.object (put properties key value)).at? taken
        (Shape.sites slots) =
      firstObstacle? path (Literal.object properties).at? taken (Shape.sites slots) := by
  refine firstObstacle?_congr ?_ taken
  intro keys hmem
  exact Shape.at?_put h hmem properties value

mutual

theorem bindSlot_obstacle (path : String) :
    (slot : Slot) → slot.WellFormed → (value : Literal) → (mint : Mint) →
      (bindSlot path slot value mint).obstacle =
        firstObstacle? path value.at? mint.names slot.sites
  | .leaf tag, _, value, mint => by
    rw [Slot.sites_leaf, firstObstacle?, firstObstacle?, obstacle?, dottedPath_nil,
      Option.or_none]
    by_cases h : path ∈ mint.names
    · rw [bindSlot_leaf_of_mem h, if_pos h]
    · rw [bindSlot_leaf_of_not_mem h, if_neg h]
  | .nested slots, hslots, value, mint => by
    rw [Slot.sites_nested, firstObstacle?, obstacle?, Literal.at?_nil]
    by_cases h : ∃ properties, value = .object properties
    · obtain ⟨properties, rfl⟩ := h
      rw [bindSlot_nested_object]
      exact bindSlots_obstacle path slots hslots properties mint
    · rw [bindSlot_nested_of_ne (not_exists.1 h)]
      cases value with
      | object properties => exact absurd ⟨properties, rfl⟩ h
      | _ => rfl

/-- The walk finds the first obstacle of the sites in the literal as it was. -/
theorem bindSlots_obstacle (path : String) :
    (slots : List (String × Slot)) → Shape.WellFormed slots → (properties : Properties) →
      (mint : Mint) →
      (bindSlots path slots properties mint).obstacle =
        firstObstacle? path (Literal.object properties).at? mint.names (Shape.sites slots)
  | [], _, properties, mint => rfl
  | (key, slot) :: rest, hslots, properties, mint => by
    obtain ⟨hnew, hslot, hrest⟩ := hslots
    have hkey := bindSlot_obstacle (child path key) slot hslot
      ((get? properties key).getD (fresh slot)) mint
    rw [← bindKey] at hkey
    rw [Shape.sites_cons, firstObstacle?_append, firstObstacle?_key, ← hkey]
    cases h : (bindKey path key slot properties mint).obstacle with
    | some obstacle => rw [bindSlots_cons_of_some h]; rfl
    | none =>
      have hmint := bindSlot_mint (child path key) slot
        ((get? properties key).getD (fresh slot)) mint
      rw [bindSlot_names _ _ _ _ h, ← leafPaths_child, ← bindKey] at hmint
      rw [bindSlots_cons_of_none h, bindSlots_obstacle path rest hrest, hmint,
        firstObstacle?_put hnew]
      rfl

end

/-! ## What the run over the sites finds -/

variable {target : Literal}

theorem obstacle?_eq_some_iff {site : Site} {error : BindError} :
    obstacle? root target.at? taken site = some error ↔ site.Stops root target taken error := by
  cases site with
  | container keys =>
    rw [obstacle?]
    constructor
    · intro h
      split at h
      · cases h
      · cases h
      next value hobject hvalue =>
        cases h
        exact .notAnObject hvalue fun properties heq => hobject properties heq
    · rintro ⟨hvalue, hobject⟩
      rw [hvalue]
      split
      next hnone => cases hnone
      next properties hsome => exact absurd (Option.some.inj hsome) (hobject properties)
      next value _ hsome => cases hsome; rfl
  | leaf keys tag =>
    rw [obstacle?]
    constructor
    · intro h
      split at h
      next htaken => cases h; exact .duplicateName htaken
      · cases h
    · intro h
      cases h with
      | duplicateName htaken => rw [if_pos htaken]

theorem unobstructed_nil : Unobstructed root target taken [] :=
  ⟨fits_nil target, by simp, by simp⟩

theorem unobstructed_container_iff {keys : List String} :
    Unobstructed root target taken (.container keys :: sites) ↔
      (∀ value, target.at? keys = some value → ∃ properties, value = .object properties) ∧
        Unobstructed root target taken sites := by
  constructor
  · rintro ⟨hobjects, hdistinct, hunused⟩
    rw [fits_container_iff] at hobjects
    exact ⟨hobjects.1, hobjects.2, hdistinct, hunused⟩
  · rintro ⟨hkeys, hobjects, hdistinct, hunused⟩
    exact ⟨fits_container_iff.2 ⟨hkeys, hobjects⟩, hdistinct, hunused⟩

theorem unobstructed_leaf_iff {keys : List String} {tag : Tag} :
    Unobstructed root target taken (.leaf keys tag :: sites) ↔
      dottedPath root keys ∉ taken ∧
        Unobstructed root target (dottedPath root keys :: taken) sites := by
  constructor
  · rintro ⟨hobjects, hdistinct, hunused⟩
    rw [leafPaths_leaf_cons] at hdistinct hunused
    rw [List.nodup_cons] at hdistinct
    refine ⟨hunused _ List.mem_cons_self, fits_leaf_iff.1 hobjects, hdistinct.2, ?_⟩
    intro path hmem
    rw [List.mem_cons, not_or]
    refine ⟨?_, hunused path (List.mem_cons_of_mem _ hmem)⟩
    rintro rfl
    exact hdistinct.1 hmem
  · rintro ⟨hnew, hobjects, hdistinct, hunused⟩
    refine ⟨fits_leaf_iff.2 hobjects, ?_, ?_⟩
    · rw [leafPaths_leaf_cons, List.nodup_cons]
      refine ⟨?_, hdistinct⟩
      intro hmem
      exact hunused _ hmem List.mem_cons_self
    · intro path hmem
      rw [leafPaths_leaf_cons, List.mem_cons] at hmem
      rcases hmem with rfl | hmem
      · exact hnew
      · exact fun htaken => hunused path hmem (List.mem_cons_of_mem _ htaken)

/-- There is no first obstacle exactly when nothing is in the way. -/
theorem firstObstacle?_eq_none_iff :
    firstObstacle? root target.at? taken sites = none ↔
      Unobstructed root target taken sites := by
  induction sites generalizing taken with
  | nil => exact iff_of_true rfl unobstructed_nil
  | cons site rest ih =>
    rw [firstObstacle?, Option.or_eq_none_iff, ih]
    have hsite : obstacle? root target.at? taken site = none ↔
        ∀ error, ¬ site.Stops root target taken error := by
      rw [Option.eq_none_iff_forall_ne_some]
      exact forall_congr' fun error => not_congr obstacle?_eq_some_iff
    rw [hsite]
    cases site with
    | container keys =>
      rw [unobstructed_container_iff]
      refine and_congr_left fun _ => ?_
      constructor
      · intro h value hvalue
        by_contra hobject
        exact h _ (.notAnObject hvalue (not_exists.1 hobject))
      · rintro h error ⟨hvalue, hobject⟩
        obtain ⟨properties, heq⟩ := h _ hvalue
        exact hobject properties heq
    | leaf keys tag =>
      rw [unobstructed_leaf_iff]
      refine and_congr_left fun _ => ?_
      constructor
      · exact fun h htaken => h _ (.duplicateName htaken)
      · intro h error hstops
        cases hstops with
        | duplicateName htaken => exact h htaken

/-- The first obstacle is at a site with nothing in the way before it. -/
theorem firstObstacle?_eq_some_iff {error : BindError} :
    firstObstacle? root target.at? taken sites = some error ↔
      ∃ before site after, sites = before ++ site :: after ∧
        Unobstructed root target taken before ∧
        site.Stops root target ((leafPaths root before).reverse ++ taken) error := by
  constructor
  · intro h
    induction sites generalizing taken with
    | nil => cases h
    | cons site rest ih =>
      rw [firstObstacle?] at h
      cases hsite : obstacle? root target.at? taken site with
      | some error' =>
        rw [hsite] at h
        cases h
        exact ⟨[], site, rest, rfl, unobstructed_nil, obstacle?_eq_some_iff.1 hsite⟩
      | none =>
        rw [hsite, Option.none_or] at h
        obtain ⟨before, site', after, rfl, hbefore, hstops⟩ := ih h
        refine ⟨site :: before, site', after, rfl, ?_, ?_⟩
        · rw [← firstObstacle?_eq_none_iff] at hbefore ⊢
          rw [firstObstacle?, hsite, hbefore]
          rfl
        · cases site with
          | container keys => exact hstops
          | leaf keys tag => simpa [Site.leafPath?] using hstops
  · rintro ⟨before, site, after, rfl, hbefore, hstops⟩
    rw [firstObstacle?_append, firstObstacle?_eq_none_iff.2 hbefore, Option.none_or,
      firstObstacle?, obstacle?_eq_some_iff.2 hstops]
    rfl

/-- A run meets no obstacle exactly when nothing is in the way. -/
theorem bindSlots_eq_none_iff {slots : List (String × Slot)} (hslots : Shape.WellFormed slots)
    (path : String) (properties : Properties) (mint : Mint) :
    (bindSlots path slots properties mint).obstacle = none ↔
      Unobstructed path (.object properties) mint.names (Shape.sites slots) := by
  rw [bindSlots_obstacle path slots hslots, firstObstacle?_eq_none_iff]

/-- The order in which names were taken does not matter. -/
theorem stops_congr {site : Site} {error : BindError} {others : List String}
    (h : ∀ path, path ∈ taken ↔ path ∈ others) :
    site.Stops root target taken error ↔ site.Stops root target others error := by
  constructor
  · intro hstops
    cases hstops with
    | notAnObject hvalue hobject => exact .notAnObject hvalue hobject
    | duplicateName htaken => exact .duplicateName ((h _).1 htaken)
  · intro hstops
    cases hstops with
    | notAnObject hvalue hobject => exact .notAnObject hvalue hobject
    | duplicateName htaken => exact .duplicateName ((h _).2 htaken)

end Binding

/-! ## The outcome of binding -/

open Binding in
/-- Binding succeeds exactly when every nested position holds an object or is
missing, and the paths of the leaves are distinct and new.  Otherwise it stops
at the first site, in depth-first order, that is in the way of those before it. -/
theorem bind_obstacle {shape : Shape} (hshape : Shape.WellFormed shape) (root : String)
    (target : Properties) (mint : Mint) :
    ((shape.bind root target mint).obstacle = none ↔
      Unobstructed root (.object target) mint.names (Shape.sites shape)) ∧
    ∀ error, (shape.bind root target mint).obstacle = some error ↔
      ∃ before site after, Shape.sites shape = before ++ site :: after ∧
        Unobstructed root (.object target) mint.names before ∧
        site.Stops root (.object target) (leafPaths root before ++ mint.names) error := by
  refine ⟨bindSlots_eq_none_iff hshape root target mint, ?_⟩
  intro error
  have hwalk : (shape.bind root target mint).obstacle =
      firstObstacle? root (Literal.object target).at? mint.names (Shape.sites shape) :=
    bindSlots_obstacle root shape hshape target mint
  have htaken (before : List Site) (path : String) :
      path ∈ (leafPaths root before).reverse ++ mint.names ↔
        path ∈ leafPaths root before ++ mint.names := by
    rw [List.mem_append, List.mem_append, List.mem_reverse]
  rw [hwalk, firstObstacle?_eq_some_iff]
  simp only [stops_congr (htaken _)]

/-- A key with a dot in it names a leaf that another key leads to as well. -/
theorem bind_obstacle_dotted_key :
    Shape.WellFormed [("a", .nested [("b", .leaf .any)]), ("a.b", .leaf .any)] ∧
      (Shape.bind [("a", .nested [("b", .leaf .any)]), ("a.b", .leaf .any)] "props"
        [(.identifier "a", .object [])] Mint.empty).obstacle =
          some (.duplicateName "props.a.b") := by
  have hshape :
      Shape.WellFormed [("a", .nested [("b", .leaf .any)]), ("a.b", .leaf .any)] := by
    simp
  refine ⟨hshape, ((bind_obstacle hshape "props" _ Mint.empty).2 _).2 ?_⟩
  refine ⟨[.container ["a"], .leaf ["a", "b"] .any], .leaf ["a.b"] .any, [], rfl, ?_, ?_⟩
  · refine ⟨?_, by decide, by decide⟩
    intro keys hmem value hvalue
    simp only [List.mem_cons, Site.container.injEq, reduceCtorEq, List.not_mem_nil,
      or_false] at hmem
    subst hmem
    exact ⟨[], (Option.some.inj hvalue).symm⟩
  · exact .duplicateName (by decide)

end ComponentProps
