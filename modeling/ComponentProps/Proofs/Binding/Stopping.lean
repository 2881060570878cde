import ComponentProps.Proofs.Binding.Frame

/-!
# What stopped binding leaves behind

Binding that meets an obstacle keeps what it has done until then.  At the level
of the obstacle, and at each level above it, the keys of the shape fall into
three parts: those that are visited before, which are bound as by a successful
run; the one that leads to the obstacle; and those behind it, which are not
visited at all.

* `Shape.ChangesUpTo`: the changes of an object by binding that stops at a site.
* `Stopped`: what is bound and what is left alone when binding stops.
* `bindSlots_of_some`: one level of a run that stops, with the keys that it has
  visited.
* `stopped_of_obstacle`: every level, by induction over the shape.
* `bind_stopped`: what a run that stops leaves behind.
-/

namespace ComponentProps

open Binding Properties

/-! ## Changes up to an obstacle -/

/-- The changes of an object by binding a shape into it until a site stops it.  The
keys in `visited` are bound, and what is behind the key of the site is not
reached. -/
inductive Shape.ChangesUpTo :
    String → Site → List (String × Slot) → Properties → Properties → Prop
  /-- A value that is no object stays as it is. -/
  | notAnObject {path key : String} {visited rest inner : List (String × Slot)}
      {before after : Properties} {value : Literal}
      (hlevel : KeepsLevel (visited ++ [(key, .nested inner)]) before after)
      (hvisited : Shape.Changes path visited before after)
      (hbefore : get? before key = some value) (hafter : get? after key = some value) :
      ChangesUpTo path (.container [key]) (visited ++ (key, .nested inner) :: rest) before after
  /-- The value at a leaf stays as it is, and is null if there was none. -/
  | duplicateName {path key : String} {visited rest : List (String × Slot)} {tag : Tag}
      {before after : Properties}
      (hlevel : KeepsLevel (visited ++ [(key, .leaf tag)]) before after)
      (hvisited : Shape.Changes path visited before after)
      (hafter : get? after key = some ((get? before key).getD .null)) :
      ChangesUpTo path (.leaf [key] tag) (visited ++ (key, .leaf tag) :: rest) before after
  /-- An object above the site is changed up to it; it is a new one if there was
  none. -/
  | inside {path key : String} {visited rest inner : List (String × Slot)} {site : Site}
      {before after old new : Properties}
      (hlevel : KeepsLevel (visited ++ [(key, .nested inner)]) before after)
      (hvisited : Shape.Changes path visited before after)
      (hbefore : (get? before key).getD (.object []) = .object old)
      (hafter : get? after key = some (.object new))
      (hinner : ChangesUpTo (child path key) site inner old new) :
      ChangesUpTo path (site.below key) (visited ++ (key, .nested inner) :: rest) before after

/-- What binding leaves behind that stops at a site: `before` are the sites in
front of it. -/
structure Stopped (path : String) (slots : List (String × Slot)) (target : Properties)
    (taken : List String) (error : BindError) (bound : Bound Properties) (before : List Site)
    (site : Site) : Prop where
  /-- The sites of the shape, as far as they are visited. -/
  sites : ∃ after, Shape.sites slots = before ++ site :: after
  /-- None of the sites before is in the way. -/
  free : Unobstructed path (.object target) taken before
  /-- The site is. -/
  stops : site.Stops path (.object target) ((leafPaths path before).reverse ++ taken) error
  /-- The names that are issued are the paths of the leaves before. -/
  names : bound.names = leafPaths path before
  /-- The leaves before have their placeholders. -/
  places : ∀ keys tag, Site.leaf keys tag ∈ before →
    (Literal.object bound.target).at? keys =
      some (.placeholder ⟨PlaceholderKind.ofTag tag, dottedPath path keys⟩)
  /-- Nothing else changes. -/
  changes : Shape.ChangesUpTo path site slots target bound.target

/-! ## One level -/

/-- The parts of a well-formed shape around one of its keys. -/
theorem Shape.WellFormed.of_append {visited rest : List (String × Slot)} {key : String}
    {slot : Slot} (h : Shape.WellFormed (visited ++ (key, slot) :: rest)) :
    Shape.WellFormed visited ∧ key ∉ Table.keys visited ∧ slot.WellFormed := by
  induction visited with
  | nil => exact ⟨trivial, by simp, h.2.1⟩
  | cons entry visited ih =>
    obtain ⟨other, otherSlot⟩ := entry
    rw [List.cons_append, Shape.wellFormed_cons_iff] at h
    obtain ⟨hnew, hother, hmore⟩ := h
    obtain ⟨hvisited, hkey, hslot⟩ := ih hmore
    have hne : other ∉ Table.keys visited ∧ key ≠ other := by
      rw [Table.keys, List.map_append, List.mem_append, not_or] at hnew
      exact ⟨hnew.1, fun heq => hnew.2 (by simp [heq])⟩
    refine ⟨⟨hne.1, hother, hvisited⟩, ?_, hslot⟩
    rw [Table.keys_cons, List.mem_cons, not_or]
    exact ⟨hne.2, hkey⟩

/-- The keys before the one with the obstacle are bound without any. -/
theorem Binding.bindSlots_of_some {path : String} {slots : List (String × Slot)}
    {properties : Properties} {mint : Mint} {error : BindError}
    (h : (bindSlots path slots properties mint).obstacle = some error) :
    ∃ visited key slot rest, slots = visited ++ (key, slot) :: rest ∧
      (bindSlots path visited properties mint).obstacle = none ∧
      ∃ bound, bound = bindKey path key slot (Shape.fill path visited properties)
          (bindSlots path visited properties mint).mint ∧
        bound.obstacle = some error ∧
        (bindSlots path slots properties mint).target =
          put (Shape.fill path visited properties) key bound.target ∧
        (bindSlots path slots properties mint).names =
          leafPaths path (Shape.sites visited) ++ bound.names := by
  induction slots generalizing properties mint with
  | nil => cases h
  | cons entry rest ih =>
    obtain ⟨key, slot⟩ := entry
    cases hkey : (bindKey path key slot properties mint).obstacle with
    | some found =>
      rw [bindSlots_cons_of_some hkey] at h ⊢
      refine ⟨[], key, slot, rest, rfl, rfl, bindKey path key slot properties mint, ?_, ?_, ?_, ?_⟩
      · rw [Shape.fill, bindSlots]
      · rw [hkey]; exact h
      · rw [Shape.fill]
      · rfl
    | none =>
      have htarget := bindSlot_target (child path key) slot
        ((get? properties key).getD (fresh slot)) mint hkey
      have hnames := bindSlot_names (child path key) slot
        ((get? properties key).getD (fresh slot)) mint hkey
      rw [← bindKey] at htarget hnames
      rw [bindSlots_cons_of_none hkey] at h ⊢
      obtain ⟨visited, other, otherSlot, others, rfl, hfree, bound, hbound, herror, hput,
        hissued⟩ := ih h
      refine ⟨(key, slot) :: visited, other, otherSlot, others, rfl, ?_, bound, ?_, herror, ?_, ?_⟩
      · exact bindSlots_cons_eq_none_iff.2 ⟨hkey, hfree⟩
      · rw [hbound, bindSlots_cons_of_none hkey, Shape.fill, ← htarget]
      · rw [Shape.fill, ← htarget]
        exact hput
      · rw [Shape.sites_cons, leafPaths_append, leafPaths_child, ← hnames, List.append_assoc,
          ← hissued]

/-- An update of another key keeps the changes of the keys of a shape. -/
theorem Shape.Changes.put {path key : String} {slots : List (String × Slot)}
    {before after : Properties} (h : Shape.Changes path slots before after)
    (hkey : key ∉ Table.keys slots) (value : Literal) :
    Shape.Changes path slots before (put after key value) := by
  induction slots with
  | nil => rw [Shape.Changes]; trivial
  | cons entry rest ih =>
    obtain ⟨other, slot⟩ := entry
    rw [Table.keys_cons, List.mem_cons, not_or] at hkey
    rw [Shape.Changes] at h ⊢
    obtain ⟨hpresent, hmissing, hrest⟩ := h
    refine ⟨?_, ?_, ih hrest hkey.2⟩
    · intro index property hposition hproperty
      obtain ⟨changed, hchanged, hslot⟩ := hpresent index property hposition hproperty
      refine ⟨changed, getElem?_put_of_ne value hchanged ?_, hslot⟩
      intro hsame
      obtain ⟨named, hnamed, hname⟩ := name_of_position? hposition
      obtain ⟨named', hnamed', hname'⟩ := name_of_position? hsame
      rw [hproperty] at hnamed
      rw [hchanged] at hnamed'
      cases hnamed
      cases hnamed'
      exact hkey.1 (hname'.symm.trans hname)
    · intro hposition
      obtain ⟨changed, hchanged, hslot⟩ := hmissing hposition
      exact ⟨changed, by rw [get?_put_of_ne hkey.1, hchanged], hslot⟩

/-- One level of a run that stops under a key, whatever it leaves there. -/
theorem keepsLevel_put_fill {key : String} {visited : List (String × Slot)}
    (hvisited : Shape.WellFormed visited) (hkey : key ∉ Table.keys visited) (slot : Slot)
    (path : String) (properties : Properties) (value : Literal) :
    KeepsLevel (visited ++ [(key, slot)]) properties
      (put (Shape.fill path visited properties) key value) := by
  have hlevel := keepsLevel_fill hvisited path properties
  constructor
  · have hmem : key ∈ names (Shape.fill path visited properties) ↔ key ∈ names properties := by
      rw [← not_iff_not, ← get?_eq_none_iff, ← get?_eq_none_iff,
        get?_fill_of_not_mem hkey]
    have hmissing : missingKeys (visited ++ [(key, slot)]) properties =
        missingKeys visited properties ++ if key ∈ names properties then [] else [key] := by
      have hlast := missingKeys_cons key slot [] properties
      rw [missingKeys, missingKeys, Table.keys, List.map_append, List.filter_append]
      rw [missingKeys, Table.keys] at hlast
      rw [hlast]
      simp [missingKeys, Table.keys]
    rw [keys_put, hlevel.keys, hmissing, List.map_append, List.append_assoc]
    simp only [hmem]
    split <;> rfl
  · intro index property hproperty huntouched
    have hname : property.1.name ∈ names properties :=
      List.mem_map_of_mem (List.mem_of_getElem? hproperty)
    have hkept : (Shape.fill path visited properties)[index]? = some property := by
      refine hlevel.untouched index property hproperty (huntouched.imp_right ?_)
      intro hunlisted hlisted
      exact hunlisted (by rw [Table.keys, List.map_append]; exact List.mem_append_left _ hlisted)
    refine getElem?_put_of_ne value hkept ?_
    intro hposition
    obtain ⟨named, hnamed, hnamekey⟩ := name_of_position? hposition
    rw [hkept] at hnamed
    cases hnamed
    rw [hnamekey] at hname huntouched
    rw [position?_fill_of_mem hname] at hposition
    rcases huntouched with hother | hunlisted
    · exact hother hposition
    · exact hunlisted (by simp [Table.keys])

/-! ## Sites below a key -/

/-- What is met below a key is met in its object, which may be a new one. -/
theorem Shape.at?_below {properties old : Properties} {key : String}
    (hold : (get? properties key).getD (.object []) = .object old)
    {inner : List (String × Slot)} {site : Site} (h : site ∈ Shape.sites inner) :
    (Literal.object properties).at? (key :: site.keys) = (Literal.object old).at? site.keys := by
  rw [Literal.at?_object_cons]
  cases hvalue : get? properties key with
  | some value =>
    rw [hvalue] at hold
    rw [Option.bind_some]
    exact congrArg (Literal.at? · site.keys) hold
  | none =>
    rw [hvalue] at hold
    cases hold
    rw [Shape.at?_empty h]
    rfl

/-- The obstacles below a key are those in its object. -/
theorem Site.stops_below_iff {properties old : Properties} {path key : String}
    {taken : List String} {error : BindError}
    (hold : (get? properties key).getD (.object []) = .object old)
    {inner : List (String × Slot)} {site : Site} (h : site ∈ Shape.sites inner) :
    (site.below key).Stops path (.object properties) taken error ↔
      site.Stops (child path key) (.object old) taken error := by
  rw [← obstacle?_eq_some_iff, ← obstacle?_eq_some_iff]
  cases site with
  | container keys =>
    have hat := Shape.at?_below hold h
    rw [Site.below, obstacle?, obstacle?]
    dsimp only [Site.keys] at hat
    rw [hat]
    rfl
  | leaf keys tag => rfl

/-- An object below a key that the sites before leave free is left free, too. -/
theorem unobstructed_below {properties old : Properties} {path key : String}
    {taken : List String} (hold : (get? properties key).getD (.object []) = .object old)
    {inner : List (String × Slot)} {sites : List Site}
    (hsites : ∀ site ∈ sites, site ∈ Shape.sites inner)
    (h : Unobstructed (child path key) (.object old) taken sites) :
    Unobstructed path (.object properties) taken
      ((Site.container [] :: sites).map (Site.below key)) := by
  rw [← firstObstacle?_eq_none_iff] at h ⊢
  rw [List.map_cons, firstObstacle?]
  have hkey : obstacle? path (Literal.object properties).at? taken
      ((Site.container []).below key) = none := by
    rw [Site.below, obstacle?, Literal.at?_object_cons]
    cases hvalue : get? properties key with
    | none => rfl
    | some value =>
      rw [hvalue] at hold
      cases hold
      rfl
  rw [hkey, firstObstacle?_below]
  refine Eq.trans (firstObstacle?_congr ?_ taken) h
  intro keys hmem
  exact Shape.at?_below hold (hsites _ hmem)

/-- Sites behind others are free if they are after the paths of those are taken. -/
theorem unobstructed_append_iff {path : String} {target : Literal} {taken : List String}
    {sites others : List Site} :
    Unobstructed path target taken (sites ++ others) ↔
      Unobstructed path target taken sites ∧
        Unobstructed path target ((leafPaths path sites).reverse ++ taken) others := by
  rw [← firstObstacle?_eq_none_iff, ← firstObstacle?_eq_none_iff, ← firstObstacle?_eq_none_iff,
    firstObstacle?_append, Option.or_eq_none_iff]

theorem Shape.sites_append (slots others : List (String × Slot)) :
    Shape.sites (slots ++ others) = Shape.sites slots ++ Shape.sites others := by
  induction slots with
  | nil => rfl
  | cons entry rest ih =>
    rw [List.cons_append, Shape.sites_cons, Shape.sites_cons, ih, List.append_assoc]

/-! ## Every level -/

section Level

variable {path key : String} {slot : Slot} {visited rest : List (String × Slot)}
  {properties : Properties} {taken : List String} {error : BindError}

/-- What a run leaves behind that stops under a key, from what it leaves behind in
the value of the key. -/
theorem Stopped.of_key (before : List Site) (site : Site) {value : Literal}
    {bound : Bound Properties} (hslots : Shape.WellFormed (visited ++ (key, slot) :: rest))
    (hvisited : Unobstructed path (.object properties) taken (Shape.sites visited))
    (hsites : ∃ after, slot.sites = before ++ site :: after)
    (hfree : Unobstructed path (.object properties)
      ((leafPaths path (Shape.sites visited)).reverse ++ taken) (before.map (Site.below key)))
    (hstops : (site.below key).Stops path (.object properties)
      ((leafPaths (child path key) before).reverse ++
        ((leafPaths path (Shape.sites visited)).reverse ++ taken)) error)
    (htarget : bound.target = put (Shape.fill path visited properties) key value)
    (hnames : bound.names =
      leafPaths path (Shape.sites visited) ++ leafPaths (child path key) before)
    (hplaces : ∀ keys tag, Site.leaf keys tag ∈ before →
      value.at? keys =
        some (.placeholder ⟨PlaceholderKind.ofTag tag, dottedPath (child path key) keys⟩))
    (hchanges : Shape.ChangesUpTo path (site.below key) (visited ++ (key, slot) :: rest)
      properties bound.target) :
    Stopped path (visited ++ (key, slot) :: rest) properties taken error bound
      (Shape.sites visited ++ before.map (Site.below key)) (site.below key) := by
  obtain ⟨hwellFormed, hkey, -⟩ := hslots.of_append
  have hpaths : leafPaths path (Shape.sites visited ++ before.map (Site.below key)) =
      leafPaths path (Shape.sites visited) ++ leafPaths (child path key) before := by
    rw [leafPaths_append, leafPaths_child]
  refine ⟨?_, ?_, ?_, ?_, ?_, hchanges⟩
  · obtain ⟨after, hafter⟩ := hsites
    refine ⟨after.map (Site.below key) ++ Shape.sites rest, ?_⟩
    rw [Shape.sites_append, Shape.sites_cons, hafter, List.map_append, List.map_cons]
    simp only [List.append_assoc, List.cons_append]
  · exact unobstructed_append_iff.2 ⟨hvisited, hfree⟩
  · rw [hpaths, List.reverse_append, List.append_assoc]
    exact hstops
  · rw [hpaths, hnames]
  · intro keys tag hmem
    rw [htarget]
    rcases List.mem_append.1 hmem with hmem | hmem
    · have hput := Shape.at?_put hkey hmem (Shape.fill path visited properties) value
      exact hput.trans (Shape.at?_fill visited hwellFormed path properties hvisited.objects hmem)
    · obtain ⟨inner, hinner, hsite⟩ := List.mem_map.1 hmem
      cases inner with
      | container keys' => cases hsite
      | leaf keys' tag' =>
        cases hsite
        rw [Literal.at?_object_cons, get?_put_self, Option.bind_some]
        exact hplaces keys' tag hinner

/-- The keys before the one that leads to the obstacle are bound. -/
theorem Shape.changes_put_fill (hslots : Shape.WellFormed (visited ++ (key, slot) :: rest))
    (hvisited : Unobstructed path (.object properties) taken (Shape.sites visited))
    (value : Literal) :
    Shape.Changes path visited properties
      (put (Shape.fill path visited properties) key value) := by
  obtain ⟨hwellFormed, hkey, -⟩ := hslots.of_append
  have hfill := Shape.changes_fill hwellFormed hvisited.objects path visited fun _ hmem => hmem
  exact hfill.put hkey value

/-- What stops binding into an object stops it one level further up. -/
theorem Stopped.below {inner : List (String × Slot)} {old : Properties} {before : List Site}
    {site : Site} {inside bound : Bound Properties}
    (hinner : Stopped (child path key) inner old
      ((leafPaths path (Shape.sites visited)).reverse ++ taken) error inside before site)
    (hslots : Shape.WellFormed (visited ++ (key, .nested inner) :: rest))
    (hvisited : Unobstructed path (.object properties) taken (Shape.sites visited))
    (hold : (get? properties key).getD (.object []) = .object old)
    (htarget : bound.target =
      put (Shape.fill path visited properties) key (.object inside.target))
    (hnames : bound.names = leafPaths path (Shape.sites visited) ++ inside.names) :
    Stopped path (visited ++ (key, .nested inner) :: rest) properties taken error bound
      (Shape.sites visited ++ (Site.container [] :: before).map (Site.below key))
      (site.below key) := by
  obtain ⟨hwellFormed, hkey, -⟩ := hslots.of_append
  obtain ⟨after, hafter⟩ := hinner.sites
  have hbefore : ∀ other ∈ before, other ∈ Shape.sites inner := by
    intro other hother
    rw [hafter]
    exact List.mem_append_left _ hother
  have hsite : site ∈ Shape.sites inner := by
    rw [hafter]
    simp
  refine Stopped.of_key (.container [] :: before) site hslots hvisited ⟨after, ?_⟩
    (unobstructed_below hold hbefore hinner.free)
    ((Site.stops_below_iff hold hsite).2 hinner.stops) htarget ?_ ?_ ?_
  · rw [Slot.sites_nested, hafter]
    rfl
  · rw [hnames, leafPaths_container_cons, ← hinner.names]
  · intro keys tag hleaf
    rcases List.mem_cons.1 hleaf with hcontainer | hleaf
    · cases hcontainer
    · exact hinner.places keys tag hleaf
  · rw [htarget]
    exact .inside (keepsLevel_put_fill hwellFormed hkey _ path properties _)
      (Shape.changes_put_fill hslots hvisited _) hold (get?_put_self _ _ _) hinner.changes

end Level

namespace Binding

/-- The induction is over the shape: what stops a nested object is, one level
further down, what stops binding into it. -/
theorem stopped_of_obstacle (slot : Slot) :
    ∀ slots, slot = .nested slots → Shape.WellFormed slots → ∀ path properties mint error,
      (bindSlots path slots properties mint).obstacle = some error →
        ∃ before site, Stopped path slots properties mint.names error
          (bindSlots path slots properties mint) before site := by
  induction slot with
  | leaf tag =>
    intro slots hslots
    cases hslots
  | nested slots ih =>
    intro slots' heq hslots path properties mint error hstop
    cases heq
    obtain ⟨visited, key, slot, rest, rfl, hfree, bound, hbound, herror, htarget, hnames⟩ :=
      bindSlots_of_some hstop
    obtain ⟨hvisited, hkey, hslot⟩ := hslots.of_append
    have hunobstructed := (bindSlots_eq_none_iff hvisited path properties mint).1 hfree
    have hmint : (bindSlots path visited properties mint).mint.names =
        (leafPaths path (Shape.sites visited)).reverse ++ mint.names := by
      rw [bindSlots_mint, bindSlots_names path visited properties mint hfree]
    have hlevel (value : Literal) :=
      keepsLevel_put_fill hvisited hkey slot path properties value
    have hchanges (value : Literal) := Shape.changes_put_fill hslots hunobstructed value
    rw [bindKey, get?_fill_of_not_mem hkey] at hbound
    have hmem : (key, slot) ∈ visited ++ (key, slot) :: rest := by simp
    cases slot with
    | leaf tag =>
      by_cases htaken : child path key ∈ (bindSlots path visited properties mint).mint.names
      · rw [bindSlot_leaf_of_mem htaken] at hbound
        rw [hbound] at herror htarget hnames
        cases herror
        rw [hmint] at htaken
        refine ⟨_, _, Stopped.of_key [] (.leaf [] tag) hslots hunobstructed ⟨[], rfl⟩
          unobstructed_nil (.duplicateName htaken) htarget hnames ?_ ?_⟩
        · intro keys tag' hleaf
          cases hleaf
        · rw [htarget]
          exact .duplicateName (hlevel _) (hchanges _) (get?_put_self _ _ _)
      · rw [bindSlot_leaf_of_not_mem htaken] at hbound
        rw [hbound] at herror
        cases herror
    | nested inner =>
      by_cases hobject : ∃ old, (get? properties key).getD (.object []) = .object old
      · obtain ⟨old, hold⟩ := hobject
        have hold' : (get? properties key).getD (fresh (.nested inner)) = .object old := hold
        rw [hold', bindSlot_nested_object] at hbound
        rw [hbound] at herror htarget hnames
        obtain ⟨before, site, hinner⟩ :=
          ih _ hmem inner rfl hslot (child path key) old _ error herror
        rw [hmint] at hinner
        exact ⟨_, _, hinner.below hslots hunobstructed hold htarget hnames⟩
      · obtain ⟨value, hvalue⟩ : ∃ value, get? properties key = some value := by
          cases hvalue : get? properties key with
          | some value => exact ⟨value, rfl⟩
          | none => exact absurd ⟨[], by rw [hvalue]; rfl⟩ hobject
        rw [hvalue, Option.getD_some] at hobject hbound
        rw [bindSlot_nested_of_ne (not_exists.1 hobject)] at hbound
        rw [hbound] at herror htarget hnames
        cases herror
        have hat : (Literal.object properties).at? [key] = some value := by
          rw [Literal.at?_object_cons, hvalue, Option.bind_some, Literal.at?_nil]
        refine ⟨_, _, Stopped.of_key [] (.container []) hslots hunobstructed ⟨_, rfl⟩
          unobstructed_nil (.notAnObject hat (not_exists.1 hobject)) htarget hnames ?_ ?_⟩
        · intro keys tag hleaf
          cases hleaf
        · rw [htarget]
          exact .notAnObject (hlevel _) (hchanges _) hvalue (get?_put_self _ _ _)

end Binding

/-! ## The outcome of binding -/

/-- A run that stops has issued the paths of the leaves in front of the first
obstacle, in their order, and has put a placeholder at each of them.  At every
level that it has reached, it has added the keys of the shape that were missing, as
far as it has visited them.  The value at the obstacle stays as it was, or is null
where a leaf was missing, and everything else is unchanged. -/
theorem bind_stopped {shape : Shape} (hshape : Shape.WellFormed shape) (root : String)
    (target : Properties) (mint : Mint) {error : BindError}
    (hstop : (shape.bind root target mint).obstacle = some error) :
    ∃ before site,
      Stopped root shape target mint.names error (shape.bind root target mint) before site ∧
        (shape.bind root target mint).mint.names =
          (leafPaths root before).reverse ++ mint.names := by
  obtain ⟨before, site, hstopped⟩ :=
    stopped_of_obstacle (.nested shape) shape rfl hshape root target mint error hstop
  refine ⟨before, site, hstopped, ?_⟩
  rw [← hstopped.names]
  exact bindSlots_mint root shape target mint

/-- The second of two leaves with the same path is defined as null before it stops
the run, and the key behind it is not reached. -/
theorem bind_stopped_missing_leaf :
    let shape : Shape :=
      [("a", .nested [("b", .leaf .any)]), ("a.b", .leaf .any), ("c", .leaf .any)]
    let target : Properties := [(.identifier "a", .object [(.identifier "x", .bool true)])]
    let bound := shape.bind "props" target Mint.empty
    Shape.WellFormed shape ∧ bound.obstacle = some (.duplicateName "props.a.b") ∧
      bound.target =
        [(.identifier "a", .object [(.identifier "x", .bool true),
          (.identifier "b", .placeholder ⟨.unknown, "props.a.b"⟩)]),
          (.quoted "a.b", .null)] ∧
      ∃ before site,
        Stopped "props" shape target [] (.duplicateName "props.a.b") bound before site ∧
          bound.mint.names = (leafPaths "props" before).reverse ++ [] := by
  intro shape target bound
  have hshape : Shape.WellFormed shape := by simp [shape]
  have hstop : bound.obstacle = some (.duplicateName "props.a.b") := by decide
  exact ⟨hshape, hstop, rfl, bind_stopped hshape "props" target Mint.empty hstop⟩

end ComponentProps
