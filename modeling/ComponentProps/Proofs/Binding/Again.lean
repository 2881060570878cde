import ComponentProps.Proofs.Binding.Stopping

/-!
# Binding a second time

A literal that has been bound holds a placeholder at every leaf of the shape and an object
at every nested position.  Binding the same shape into it once more finds all of them
where it looks for them, and puts the same placeholders into the same places.  Whether it
is allowed to is for the mint to say: a new one issues the names again, and the one that
has issued them refuses the first of them, before anything else happens.

* `Settled`: every key of a shape has a value in which nothing is left to fill.
  `fill_of_settled` says that filling leaves such an object as it is, and
  `bindSlots_target_of_settled` that binding does, whether or not it stops.
* `settled_fill`: a filled object is settled, since filling a value twice is the same as
  filling it once (`Slot.fill_fill`).  `Shape.fits_fill`: it has objects where it had them
  before.
* `bindSlots_of_none`, `bindSlots_of_taken`: all that comes of a run that meets no obstacle,
  and of a run into a settled object when the path of every leaf is taken.
* `bind_again`: what the second run comes to with either mint.
-/

namespace ComponentProps

open Binding Properties

/-! ## Settled objects -/

/-- Every key of a shape has a value in an object, and filling the value with the slot of
the key does not change it. -/
def Settled (path : String) (slots : List (String × Slot)) (properties : Properties) : Prop :=
  ∀ key slot, (key, slot) ∈ slots →
    ∃ value, get? properties key = some value ∧ slot.fill (child path key) value = value

theorem Settled.of_cons {path key : String} {slot : Slot} {rest : List (String × Slot)}
    {properties : Properties} (h : Settled path ((key, slot) :: rest) properties) :
    Settled path rest properties :=
  fun other otherSlot hmem => h other otherSlot (List.mem_cons_of_mem _ hmem)

/-- Filling leaves a settled object as it is. -/
theorem fill_of_settled {path : String} {slots : List (String × Slot)} {properties : Properties}
    (h : Settled path slots properties) : Shape.fill path slots properties = properties := by
  induction slots with
  | nil => rw [Shape.fill]
  | cons entry rest ih =>
    obtain ⟨key, slot⟩ := entry
    obtain ⟨value, hvalue, hfill⟩ := h key slot List.mem_cons_self
    rw [Shape.fill, hvalue, Option.getD_some, hfill, put_of_get? hvalue, ih h.of_cons]

/-- An object that filling leaves as it is is settled. -/
theorem settled_of_fill_eq {path : String} {slots : List (String × Slot)}
    (hslots : Shape.WellFormed slots) {properties : Properties}
    (h : Shape.fill path slots properties = properties) : Settled path slots properties := by
  intro key slot hmem
  have hget := get?_fill hslots hmem path properties
  rw [h] at hget
  refine ⟨_, hget, ?_⟩
  rw [hget, Option.getD_some] at hget
  exact (Option.some.inj hget).symm

/-- Filling a value twice is the same as filling it once. -/
theorem Slot.fill_fill {slot : Slot} (hslot : slot.WellFormed) (path : String)
    (value : Literal) : slot.fill path (slot.fill path value) = slot.fill path value := by
  induction slot generalizing path value with
  | leaf tag => rw [Slot.fill_leaf, Slot.fill_leaf]
  | nested slots ih =>
    cases value with
    | object properties =>
      rw [Slot.fill_nested_object, Slot.fill_nested_object]
      refine congrArg Literal.object (fill_of_settled ?_)
      intro key inner hmem
      exact ⟨_, get?_fill hslot hmem path properties,
        ih (key, inner) hmem (hslot.of_mem hmem) (child path key) _⟩
    | _ => simp only [Slot.fill]

/-- A filled object is settled. -/
theorem settled_fill {slots : List (String × Slot)} (hslots : Shape.WellFormed slots)
    (path : String) (properties : Properties) :
    Settled path slots (Shape.fill path slots properties) := by
  intro key slot hmem
  exact ⟨_, get?_fill hslots hmem path properties,
    Slot.fill_fill (hslots.of_mem hmem) (child path key) _⟩

/-- A filled value has objects where the value had them. -/
theorem Slot.fits_fill {slot : Slot} (hslot : slot.WellFormed) {value : Literal}
    (h : Fits value slot.sites) (path : String) : Fits (slot.fill path value) slot.sites := by
  induction slot generalizing path value with
  | leaf tag => exact fits_leaf_iff.2 (fits_nil _)
  | nested slots ih =>
    obtain ⟨properties, rfl, hinner⟩ := fits_nested_iff.1 h
    rw [Slot.fill_nested_object]
    refine fits_nested_iff.2 ⟨_, rfl, fits_of_keys ?_⟩
    intro key inner filled hmem hfilled
    rw [get?_fill hslot hmem] at hfilled
    cases hfilled
    exact ih (key, inner) hmem (hslot.of_mem hmem) (fits_getD hinner hmem) (child path key)

/-- A filled object has objects where it had them before. -/
theorem Shape.fits_fill {slots : List (String × Slot)} (hslots : Shape.WellFormed slots)
    {properties : Properties} (h : Fits (.object properties) (Shape.sites slots))
    (path : String) :
    Fits (.object (Shape.fill path slots properties)) (Shape.sites slots) := by
  have hslot : (Slot.nested slots).WellFormed := hslots
  have hfits := Slot.fits_fill hslot (fits_nested_iff.2 ⟨properties, rfl, h⟩) path
  rw [Slot.fill_nested_object] at hfits
  obtain ⟨filled, hfilled, hinner⟩ := fits_nested_iff.1 hfits
  cases hfilled
  exact hinner

/-! ## Binding into settled objects -/

namespace Binding

mutual

theorem bindSlot_target_of_fill_eq (path : String) :
    (slot : Slot) → slot.WellFormed → (value : Literal) → (mint : Mint) →
      slot.fill path value = value → (bindSlot path slot value mint).target = value
  | .leaf tag, _, value, mint, hfill => by
    by_cases h : path ∈ mint.names
    · rw [bindSlot_leaf_of_mem h]
    · rw [bindSlot_leaf_of_not_mem h, ← hfill, Slot.fill_leaf]
  | .nested slots, hslots, value, mint, hfill => by
    by_cases h : ∃ properties, value = .object properties
    · obtain ⟨properties, rfl⟩ := h
      rw [Slot.fill_nested_object, Literal.object.injEq] at hfill
      rw [bindSlot_nested_object]
      exact congrArg Literal.object
        (bindSlots_target_of_settled path slots hslots properties mint
          (settled_of_fill_eq hslots hfill))
    · rw [bindSlot_nested_of_ne (not_exists.1 h)]

/-- Binding leaves a settled object as it is, also if it stops. -/
theorem bindSlots_target_of_settled (path : String) :
    (slots : List (String × Slot)) → Shape.WellFormed slots → (properties : Properties) →
      (mint : Mint) → Settled path slots properties →
        (bindSlots path slots properties mint).target = properties
  | [], _, properties, mint, _ => rfl
  | (key, slot) :: rest, hslots, properties, mint, hsettled => by
    obtain ⟨value, hvalue, hfill⟩ := hsettled key slot List.mem_cons_self
    have hkey : put properties key (bindKey path key slot properties mint).target =
        properties := by
      rw [bindKey, hvalue, Option.getD_some,
        bindSlot_target_of_fill_eq (child path key) slot hslots.2.1 value mint hfill,
        put_of_get? hvalue]
    cases h : (bindKey path key slot properties mint).obstacle with
    | some obstacle => rw [bindSlots_cons_of_some h, hkey]
    | none =>
      rw [bindSlots_cons_of_none h, hkey]
      exact bindSlots_target_of_settled path rest hslots.2.2 properties _ hsettled.of_cons

end

/-! ## Taken paths -/

/-- If the path of every leaf is taken, the first leaf is in the way. -/
theorem firstObstacle?_of_taken {root : String} {target : Literal} {taken : List String}
    {sites : List Site} (hfits : Fits target sites)
    (htaken : ∀ path ∈ leafPaths root sites, path ∈ taken) :
    firstObstacle? root target.at? taken sites =
      (leafPaths root sites).head?.map .duplicateName := by
  induction sites with
  | nil => rfl
  | cons site rest ih =>
    cases site with
    | container keys =>
      rw [fits_container_iff] at hfits
      have hfree : obstacle? root target.at? taken (.container keys) = none := by
        rw [obstacle?]
        cases hvalue : target.at? keys with
        | none => rfl
        | some value =>
          obtain ⟨properties, rfl⟩ := hfits.1 value hvalue
          rfl
      rw [firstObstacle?, hfree, Option.none_or]
      exact ih hfits.2 htaken
    | leaf keys tag =>
      have hfirst : dottedPath root keys ∈ taken := htaken _ List.mem_cons_self
      rw [firstObstacle?, obstacle?, if_pos hfirst]
      rfl

/-- If the path of every leaf is taken, binding issues no name. -/
theorem names_of_taken {slots : List (String × Slot)} (hslots : Shape.WellFormed slots)
    {path : String} {properties : Properties} {mint : Mint}
    (htaken : ∀ name ∈ leafPaths path (Shape.sites slots), name ∈ mint.names) :
    (bindSlots path slots properties mint).names = [] := by
  cases hstop : (bindSlots path slots properties mint).obstacle with
  | none =>
    have hunused := ((bindSlots_eq_none_iff hslots path properties mint).1 hstop).unused
    rw [bindSlots_names path slots properties mint hstop, List.eq_nil_iff_forall_not_mem]
    exact fun name hname => hunused name hname (htaken name hname)
  | some error =>
    obtain ⟨before, site, hstopped⟩ :=
      stopped_of_obstacle (.nested slots) slots rfl hslots path properties mint error hstop
    obtain ⟨after, hsites⟩ := hstopped.sites
    rw [hstopped.names, List.eq_nil_iff_forall_not_mem]
    intro name hname
    refine hstopped.free.unused name hname (htaken name ?_)
    rw [hsites, leafPaths_append]
    exact List.mem_append_left _ hname

/-! ## Whole outcomes -/

theorem bound_eq {α : Type} {bound other : Bound α} (htarget : bound.target = other.target)
    (hmint : bound.mint.names = other.mint.names) (hnames : bound.names = other.names)
    (hobstacle : bound.obstacle = other.obstacle) : bound = other := by
  obtain ⟨target, ⟨taken⟩, names, obstacle⟩ := bound
  obtain ⟨target', ⟨taken'⟩, names', obstacle'⟩ := other
  cases htarget
  cases hmint
  cases hnames
  cases hobstacle
  rfl

/-- A run without an obstacle fills the object and issues the path of every leaf. -/
theorem bindSlots_of_none {path : String} {slots : List (String × Slot)}
    {properties : Properties} {mint : Mint}
    (h : (bindSlots path slots properties mint).obstacle = none) :
    let paths := leafPaths path (Shape.sites slots)
    bindSlots path slots properties mint =
      ⟨Shape.fill path slots properties, ⟨paths.reverse ++ mint.names⟩, paths, none⟩ := by
  have hnames := bindSlots_names path slots properties mint h
  have hmint := bindSlots_mint path slots properties mint
  rw [hnames] at hmint
  exact bound_eq (bindSlots_target path slots properties mint h) hmint hnames h

/-- A run into a settled object, with the path of every leaf taken, does nothing but to
stop at the first leaf. -/
theorem bindSlots_of_taken {path : String} {slots : List (String × Slot)}
    (hslots : Shape.WellFormed slots) {properties : Properties} {mint : Mint}
    (hsettled : Settled path slots properties)
    (hfits : Fits (.object properties) (Shape.sites slots))
    (htaken : ∀ name ∈ leafPaths path (Shape.sites slots), name ∈ mint.names) :
    bindSlots path slots properties mint =
      ⟨properties, mint, [],
        (leafPaths path (Shape.sites slots)).head?.map .duplicateName⟩ := by
  have hnames := @names_of_taken slots hslots path properties mint htaken
  have hmint := bindSlots_mint path slots properties mint
  rw [hnames] at hmint
  have hobstacle := bindSlots_obstacle path slots hslots properties mint
  rw [firstObstacle?_of_taken hfits htaken] at hobstacle
  exact bound_eq (bindSlots_target_of_settled path slots hslots properties mint hsettled) hmint
    hnames hobstacle

end Binding

/-! ## The outcome of binding -/

/-- What a successful run with a new mint has bound is bound a second time, at the same
root.  With another new mint the second run has the very same outcome: the same literal,
the same names and no obstacle.  With the mint of the first run, and if any name was
issued, it stops at the first of the names and leaves both the literal and the mint as
they are. -/
theorem bind_again {shape : Shape} (hshape : Shape.WellFormed shape) (root : String)
    (target : Properties) (hfree : (shape.bind root target Mint.empty).obstacle = none) :
    let bound := shape.bind root target Mint.empty
    shape.bind root bound.target Mint.empty = bound ∧
      ∀ first rest, bound.names = first :: rest →
        shape.bind root bound.target bound.mint =
          ⟨bound.target, bound.mint, [], some (.duplicateName first)⟩ := by
  intro bound
  have hclear := (bindSlots_eq_none_iff hshape root target Mint.empty).1 hfree
  have hbound : bound = ⟨Shape.fill root shape target,
      ⟨(leafPaths root (Shape.sites shape)).reverse ++ Mint.empty.names⟩,
      leafPaths root (Shape.sites shape), none⟩ := bindSlots_of_none hfree
  have hsettled : Settled root shape bound.target := by
    rw [hbound]
    exact settled_fill hshape root target
  have hfits : Fits (.object bound.target) (Shape.sites shape) := by
    rw [hbound]
    exact Shape.fits_fill hshape hclear.objects root
  refine ⟨?_, ?_⟩
  · have hfree' : (shape.bind root bound.target Mint.empty).obstacle = none :=
      (bindSlots_eq_none_iff hshape root bound.target Mint.empty).2
        ⟨hfits, hclear.distinct, hclear.unused⟩
    refine (bindSlots_of_none hfree').trans ?_
    rw [fill_of_settled hsettled, hbound]
  · intro first rest hfirst
    have hpaths : leafPaths root (Shape.sites shape) = first :: rest := by
      rw [← hfirst, hbound]
    have htaken : ∀ name ∈ leafPaths root (Shape.sites shape), name ∈ bound.mint.names := by
      intro name hname
      rw [hbound]
      exact List.mem_append_left _ (List.mem_reverse.2 hname)
    have hrun := bindSlots_of_taken hshape hsettled hfits htaken
    rw [hpaths] at hrun
    exact hrun

/-- The objects without a leaf in them are entered before the first name is refused, and
nothing is added to them a second time. -/
theorem bind_again_repeated_name :
    let shape : Shape :=
      [("e", .nested []), ("a", .nested [("x", .leaf .stringRequired)]), ("b", .leaf .any)]
    let target : Properties := [(.identifier "a", .null), (.quoted "a", .object [])]
    let bound := shape.bind "props" target Mint.empty
    Shape.WellFormed shape ∧ bound.obstacle = none ∧ bound.names = ["props.a.x", "props.b"] ∧
      shape.bind "props" bound.target Mint.empty = bound ∧
      shape.bind "props" bound.target bound.mint =
        ⟨bound.target, bound.mint, [], some (.duplicateName "props.a.x")⟩ := by
  intro shape target bound
  have hshape : Shape.WellFormed shape := by simp [shape]
  have hfree : bound.obstacle = none := by decide
  obtain ⟨hagain, hreused⟩ := bind_again hshape "props" target hfree
  exact ⟨hshape, hfree, rfl, hagain, hreused "props.a.x" ["props.b"] rfl⟩

end ComponentProps
