import ComponentProps.Proofs.Binding.Placeholders
import ComponentProps.Proofs.Component.WellFormed
import ComponentProps.Proofs.Inference.Leaves
import Mathlib

/-!
# Binding a component

What the literal of a component holds after its inputs were bound, and how the
two settings of a component relate to their overrides.

* `Component.bind_eq_ok_iff`: a component is bound if its target is an object,
  its declarations resolve, and its shape meets no obstacle.
* `Component.bind_names_occur`: every name that is returned occurs in the
  literal, once, and no other name does.
* `Component.bind_types`: the placeholders with a type are those of the
  properties that are declared with a required tag.
* `Component.bind_override_iff`: overriding the settings of a component is the
  same as setting them, but for the error about a target that is no object.
-/

namespace ComponentProps

namespace Component

open Inference (level resolveAll Typed Untyped LeafAt)

variable {component : Component} {deep : Option Bool} {root : Option String}

/-! ## Targets -/

/-- There is an object to bind into, or no target at all. -/
def HasObject (component : Component) : Prop :=
  ∀ value, component.target = some value → ∃ members, value = .object members

theorem targetProperties_of_ne {value : Json} (htarget : component.target = some value)
    (hvalue : ∀ members, value ≠ .object members) :
    component.targetProperties =
      .error (.notAnObject component.effectiveRoot (Literal.ofJson value).kind) := by
  unfold targetProperties
  rw [htarget, Option.map_some]
  cases value with
  | object members => exact absurd rfl (hvalue members)
  | _ => rfl

theorem exists_targetProperties (h : component.HasObject) :
    ∃ properties, component.targetProperties = .ok properties ∧
      properties.placeholders = [] := by
  unfold targetProperties
  cases htarget : component.target with
  | none => exact ⟨[], rfl, Properties.placeholders_nil⟩
  | some value =>
    obtain ⟨members, rfl⟩ := h value htarget
    exact ⟨Literal.ofMembers members, rfl, Literal.placeholders_ofMembers members⟩

theorem hasObject_of_targetProperties {properties : Properties}
    (h : component.targetProperties = .ok properties) : component.HasObject := by
  intro value htarget
  by_contra hvalue
  rw [targetProperties_of_ne htarget (not_exists.1 hvalue)] at h
  cases h

theorem placeholders_of_targetProperties {properties : Properties}
    (h : component.targetProperties = .ok properties) : properties.placeholders = [] := by
  obtain ⟨others, hothers, hclean⟩ :=
    exists_targetProperties (hasObject_of_targetProperties h)
  rw [h] at hothers
  cases hothers
  exact hclean

/-! ## Successful binding -/

theorem shape_eq_infer (component : Component) (deep : Option Bool) :
    component.shape deep = infer (deep.getD component.deep) component.reads component.declared :=
  rfl

/-- A component is bound if its target is an object, its declarations resolve,
and binding its shape meets no obstacle. -/
theorem bind_eq_ok_iff {bound : BoundProps} :
    component.bind deep root = .ok bound ↔
      ∃ properties slots, component.targetProperties = .ok properties ∧
        resolveAll component.declared = .ok slots ∧
        let result := Shape.bind (level (deep.getD component.deep) slots component.reads)
          (root.getD component.effectiveRoot) properties Mint.empty
        result.obstacle = none ∧ bound = ⟨result.target, result.names⟩ := by
  unfold bind
  rw [shape_eq_infer]
  cases component.targetProperties with
  | error error => simp
  | ok properties =>
    by_cases hsome : component.reads ≠ [] ∨ component.declared ≠ []
    · rw [infer_of_ne_nil hsome]
      cases resolveAll component.declared with
      | error error => simp [Functor.map, Except.map]
      | ok slots =>
        constructor
        · intro h
          simp only [Functor.map, Except.map] at h
          split at h
          · cases h
          next hfree =>
            cases h
            exact ⟨properties, slots, rfl, rfl, hfree, rfl⟩
        · rintro ⟨properties', slots', hproperties, hslots, hfree, rfl⟩
          cases hproperties
          cases hslots
          simp only [Functor.map, Except.map, hfree]
    · -- without reads and declarations the shape is that of an empty level
      rw [not_or, not_not, not_not] at hsome
      rw [hsome.1, hsome.2]
      constructor
      · intro h
        cases h
        exact ⟨properties, [], rfl, rfl, rfl, rfl⟩
      · rintro ⟨properties', slots, hproperties, hslots, -, rfl⟩
        cases hproperties
        cases hslots
        rfl

/-- A literal and the names that were returned with it are those of binding some
sites. -/
structure Holds (bound : BoundProps) (path : String) (sites : List Site) : Prop where
  names : bound.names = leafPaths path sites
  distinct : (leafPaths path sites).Nodup
  placeholders : bound.properties.placeholders.Perm (sitePlaceholders path sites)
  at? : ∀ keys found,
    (Literal.object bound.properties).at? keys = some (.placeholder found) ↔
      ∃ tag, Site.leaf keys tag ∈ sites ∧
        found = ⟨PlaceholderKind.ofTag tag, dottedPath path keys⟩

/-- A component is bound at the leaves that its reads and declarations give. -/
theorem exists_sites_of_bind (hcomponent : component.WellFormed) {bound : BoundProps}
    (h : component.bind deep root = .ok bound) :
    ∃ sites, Holds bound (root.getD component.effectiveRoot) sites ∧
      ∀ keys tag, Site.leaf keys tag ∈ sites ↔
        LeafAt (deep.getD component.deep) component.declared component.reads keys tag := by
  obtain ⟨properties, slots, htarget, hslots, hfree, rfl⟩ := bind_eq_ok_iff.1 h
  have hclean : properties.placeholders = [] := placeholders_of_targetProperties htarget
  have hshape : Shape.WellFormed (level (deep.getD component.deep) slots component.reads) :=
    Inference.wellFormed_level (Inference.wellFormed_of_resolveAll hcomponent.fields hslots) _
  obtain ⟨hplaceholders, hat⟩ := bind_placeholders hshape _ hclean Mint.empty hfree
  have hpaths := ((Binding.bindSlots_eq_none_iff hshape _ properties Mint.empty).1 hfree).distinct
  refine ⟨_, ⟨Binding.bindSlots_names _ _ properties Mint.empty hfree, hpaths, hplaceholders,
    hat⟩, ?_⟩
  intro keys tag
  rw [Shape.leaf_mem_sites_iff hshape,
    Inference.at?_level_iff_leafAt hcomponent.reads hcomponent.names hcomponent.fields hslots]

/-- A placeholder of some kind stands where there is a leaf whose tag has the kind. -/
theorem Holds.exists_at?_iff {bound : BoundProps} {path : String} {sites : List Site}
    (h : Holds bound path sites) {keys : List String} {kind : PlaceholderKind} :
    (∃ name, (Literal.object bound.properties).at? keys = some (.placeholder ⟨kind, name⟩)) ↔
      ∃ tag, Site.leaf keys tag ∈ sites ∧ PlaceholderKind.ofTag tag = kind := by
  simp only [h.at?]
  constructor
  · rintro ⟨name, tag, hmem, heq⟩
    cases heq
    exact ⟨tag, hmem, rfl⟩
  · rintro ⟨tag, hmem, rfl⟩
    exact ⟨_, tag, hmem, rfl⟩

/-- Every placeholder stands at one place. -/
theorem Holds.existsUnique_at? {bound : BoundProps} {path : String} {sites : List Site}
    (h : Holds bound path sites) {found : Placeholder}
    (hfound : found ∈ bound.properties.placeholders) :
    ∃! keys, (Literal.object bound.properties).at? keys = some (.placeholder found) := by
  simp only [h.at?]
  obtain ⟨keys, tag, hmem, rfl⟩ := mem_sitePlaceholders_iff.1 (h.placeholders.mem_iff.1 hfound)
  refine ⟨keys, ⟨tag, hmem, rfl⟩, ?_⟩
  rintro others ⟨tag', hmem', heq⟩
  exact keys_eq_of_dottedPath_eq h.distinct hmem' hmem (congrArg Placeholder.name heq).symm

/-! ## Names -/

/-- Every name that is returned occurs in the bound literal, exactly once, and no
other name does. -/
theorem bind_names_occur (hcomponent : component.WellFormed) {bound : BoundProps}
    (h : component.bind deep root = .ok bound) :
    ((Literal.object bound.properties).placeholders.map Placeholder.name).Perm bound.names ∧
      ((Literal.object bound.properties).placeholders.map Placeholder.name).Nodup := by
  obtain ⟨sites, hholds, -⟩ := exists_sites_of_bind hcomponent h
  have hperm := hholds.placeholders.map Placeholder.name
  rw [map_name_sitePlaceholders] at hperm
  rw [Literal.placeholders_object]
  refine ⟨?_, hperm.nodup_iff.2 hholds.distinct⟩
  rw [hholds.names]
  exact hperm

/-- A property that is declared has a placeholder on the level of a read as well. -/
theorem bind_names_occur_nested_read :
    let component : Component :=
      { accessors := some (.tree [("user", .into [("size", .plain), ("name", .plain)])])
        declarations := some [("size", .tag .numberRequired)]
        target := some (.object [("user", .object [("name", .text "x")]), ("size", .null)]) }
    component.WellFormed ∧ ∃ bound, component.bind (some true) (some "p") = .ok bound ∧
      bound.names = ["p.user.name", "p.user.size", "p.size"] ∧
      ((Literal.object bound.properties).placeholders.map Placeholder.name).Perm bound.names := by
  intro component
  have hcomponent : component.WellFormed := by
    refine ⟨by simp [reads, Accessors.reads, component], by simp [declared, component], ?_⟩
    simp [declared, component, Declaration.DistinctFields]
  obtain ⟨bound, hbound, hnames⟩ : ∃ bound, component.bind (some true) (some "p") = .ok bound ∧
      bound.names = ["p.user.name", "p.user.size", "p.size"] := ⟨_, rfl, rfl⟩
  exact ⟨hcomponent, bound, hbound, hnames, (bind_names_occur hcomponent hbound).1⟩

/-! ## Types -/

/-- Every placeholder of a bound literal stands at one place.  Those with a type
are at the places of the values whose type is certain, with that type, and those
without at the places of the other values. -/
theorem bind_types (hcomponent : component.WellFormed) {bound : BoundProps}
    (h : component.bind deep root = .ok bound) :
    (∀ found ∈ (Literal.object bound.properties).placeholders,
      ∃! keys, (Literal.object bound.properties).at? keys = some (.placeholder found)) ∧
    (∀ keys kind,
      Typed (deep.getD component.deep) component.declared component.reads keys kind ↔
        kind ≠ .unknown ∧ ∃ name,
          (Literal.object bound.properties).at? keys = some (.placeholder ⟨kind, name⟩)) ∧
    ∀ keys, Untyped (deep.getD component.deep) component.declared component.reads keys ↔
      ∃ name, (Literal.object bound.properties).at? keys =
        some (.placeholder ⟨.unknown, name⟩) := by
  obtain ⟨sites, hholds, hleaf⟩ := exists_sites_of_bind hcomponent h
  refine ⟨?_, ?_, ?_⟩
  · intro found hfound
    rw [Literal.placeholders_object] at hfound
    exact hholds.existsUnique_at? hfound
  · intro keys kind
    rw [Inference.typed_iff, hholds.exists_at?_iff]
    simp only [PlaceholderKind.mem_required_iff, hleaf]
    constructor
    · rintro ⟨tag, hmem, htag, hne⟩
      exact ⟨hne, tag, hmem, htag⟩
    · rintro ⟨hne, tag, hmem, htag⟩
      exact ⟨tag, hmem, htag, hne⟩
  · intro keys
    rw [Inference.untyped_iff, hholds.exists_at?_iff]
    simp only [PlaceholderKind.ofTag_eq_unknown_iff, hleaf]

/-- A required field of a declared shape has a type, and what is only read has
none. -/
theorem bind_types_shape_field :
    let component : Component :=
      { accessors := some (.tree [("user", .into [("name", .plain)])])
        declarations :=
          some [("style", .call "shape" [.fields [("top", .tag .numberRequired)]])] }
    component.WellFormed ∧ ∃ bound, component.bind (some true) none = .ok bound ∧
      (∃ name, (Literal.object bound.properties).at? ["user", "style", "top"] =
        some (.placeholder ⟨.number, name⟩)) ∧
      ∃ name, (Literal.object bound.properties).at? ["user", "name"] =
        some (.placeholder ⟨.unknown, name⟩) := by
  intro component
  have hcomponent : component.WellFormed := by
    refine ⟨by simp [reads, Accessors.reads, component], by simp [declared, component], ?_⟩
    simp [declared, component, Declaration.DistinctFields]
  obtain ⟨bound, hbound⟩ : ∃ bound, component.bind (some true) none = .ok bound := by
    apply Exists.intro
    cbv
  obtain ⟨-, htyped, huntyped⟩ := bind_types hcomponent hbound
  have huser : Inference.Expanded true (Table.keys component.declared) component.reads ["user"]
      [("name", .plain)] :=
    .read List.mem_cons_self (by simp [declared, component]) ⟨rfl, by simp [Access.children]⟩
      (.root _)
  refine ⟨hcomponent, bound, hbound, ?_, ?_⟩
  · refine ((htyped _ .number).1 ?_).2
    exact .field huser List.mem_cons_self List.mem_cons_self (by decide)
  · refine (huntyped _).1 ?_
    exact .read huser List.mem_cons_self (by simp [declared, component])
      (by simp [Inference.Expands, Access.children])

/-! ## Overrides -/

/-- The component with its two settings replaced. -/
def configured (component : Component) (deep : Bool) (root : String) : Component :=
  { component with deep := deep, root := some root }

theorem targetProperties_configured (h : component.HasObject) (deep : Bool) (root : String) :
    (component.configured deep root).targetProperties = component.targetProperties := by
  have htarget : (component.configured deep root).target = component.target := rfl
  unfold targetProperties
  rw [htarget]
  cases hvalue : component.target with
  | none => rfl
  | some value =>
    obtain ⟨members, rfl⟩ := h value hvalue
    rfl

theorem bind_of_target_ne {value : Json} (htarget : component.target = some value)
    (hvalue : ∀ members, value ≠ .object members) (deep : Option Bool) (root : Option String) :
    component.bind deep root =
      .error (.bind (.notAnObject component.effectiveRoot (Literal.ofJson value).kind)) := by
  unfold bind
  rw [targetProperties_of_ne htarget hvalue]

/-- With an object to bind into, overriding the settings is the same as setting
them. -/
theorem bind_override_of_hasObject (h : component.HasObject) (deep : Bool) (root : String) :
    component.bind (some deep) (some root) = (component.configured deep root).bind none none := by
  unfold bind
  rw [targetProperties_configured h]
  rfl

/-- With an object to bind into, every obstacle is reported below the root of the
call. -/
theorem rootedAt_of_bind (h : component.HasObject) {error : BindError}
    (herror : component.bind deep root = .error (.bind error)) :
    error.RootedAt (root.getD component.effectiveRoot) := by
  obtain ⟨properties, htarget, -⟩ := exists_targetProperties h
  unfold bind at herror
  rw [htarget] at herror
  dsimp only at herror
  split at herror
  · cases herror
  · cases herror
  next shape _ =>
    split at herror
    next obstacle hobstacle =>
      cases herror
      exact Binding.bindSlots_rootedAt _ shape properties Mint.empty hobstacle
    · cases herror

/-- Overriding the settings of a component is the same as setting them, and every
obstacle is reported below the new root, unless the target is no object: that
error names the root of the component itself, so the two agree on it only if
the override is this root. -/
theorem bind_override_iff (component : Component) (deep : Bool) (root : String) :
    (component.bind (some deep) (some root) = (component.configured deep root).bind none none ↔
      component.HasObject ∨ root = component.effectiveRoot) ∧
    (component.HasObject → ∀ error,
      component.bind (some deep) (some root) = .error (.bind error) → error.RootedAt root) ∧
    ∀ value, component.target = some value → (∀ members, value ≠ .object members) →
      component.bind (some deep) (some root) =
          .error (.bind (.notAnObject component.effectiveRoot (Literal.ofJson value).kind)) ∧
        (component.configured deep root).bind none none =
          .error (.bind (.notAnObject root (Literal.ofJson value).kind)) := by
  have hother (value : Json) (htarget : component.target = some value)
      (hvalue : ∀ members, value ≠ .object members) :
      (component.configured deep root).bind none none =
        .error (.bind (.notAnObject root (Literal.ofJson value).kind)) := by
    have htarget' : (component.configured deep root).target = some value := htarget
    exact bind_of_target_ne htarget' hvalue none none
  refine ⟨?_, ?_, ?_⟩
  · by_cases hobject : component.HasObject
    · exact iff_of_true (bind_override_of_hasObject hobject deep root) (Or.inl hobject)
    · rw [or_iff_right hobject]
      simp only [HasObject, not_forall, not_exists] at hobject
      obtain ⟨value, htarget, hvalue⟩ := hobject
      rw [bind_of_target_ne htarget hvalue, hother value htarget hvalue]
      simp [eq_comm]
  · exact fun hobject error herror => rootedAt_of_bind hobject herror
  · intro value htarget hvalue
    exact ⟨bind_of_target_ne htarget hvalue _ _, hother value htarget hvalue⟩

/-- The error about a target that is no object does not know of the override. -/
theorem bind_override_list_target :
    let component : Component := { name := "A", target := some (.list []) }
    component.bind (some false) (some "q") = .error (.bind (.notAnObject "props" .array)) ∧
      (component.configured false "q").bind none none =
        .error (.bind (.notAnObject "q" .array)) ∧
      component.bind (some false) (some "q") ≠ (component.configured false "q").bind none none := by
  intro component
  have hbind : component.bind (some false) (some "q") =
      .error (.bind (.notAnObject "props" .array)) := rfl
  have hconfigured : (component.configured false "q").bind none none =
      .error (.bind (.notAnObject "q" .array)) := rfl
  refine ⟨hbind, hconfigured, ?_⟩
  rw [hbind, hconfigured]
  simp

end Component

end ComponentProps
