import ComponentProps.Proofs.Binding.Filling
import ComponentProps.Proofs.Inference.Levels

/-!
# The leaves of an inferred shape

A leaf of an inferred shape is a read without a level of its own, or belongs to
a declared slot.  What a component declares therefore decides which leaves
have a type that binding can rely on.

* `Inference.LeafAt`: the leaves, read off the reads and the declarations.
* `Inference.at?_level_iff_leafAt`: a shape has these leaves and no others.
* `Inference.Typed`, `Inference.Untyped`: the places of values whose type is
  certain, and of the others.
* `Inference.typed_iff`, `Inference.untyped_iff`: both by the tags of leaves.
-/

namespace ComponentProps

theorem PlaceholderKind.mem_required_iff {tag : Tag} {kind : PlaceholderKind} :
    (tag, kind) ∈ required ↔ ofTag tag = kind ∧ kind ≠ .unknown := by
  cases tag <;> cases kind <;> decide

theorem PlaceholderKind.ofTag_eq_unknown_iff {tag : Tag} :
    ofTag tag = .unknown ↔ tag ∉ required.map Prod.fst := by
  cases tag <;> decide

namespace Inference

variable {deep : Bool} {declarations : List (String × Declaration)}
  {reads : List (String × Access)} {keys : List String}

/-- The leaves of an inferred shape, with the keys that lead to them and their
tags. -/
inductive LeafAt (deep : Bool) (declarations : List (String × Declaration))
    (reads : List (String × Access)) : List String → Tag → Prop
  /-- A read that is not declared and has no level of its own. -/
  | read {names : List String} {below : List (String × Access)} {name : String}
      {access : Access} (hlevel : Expanded deep (Table.keys declarations) reads names below)
      (hread : (name, access) ∈ below) (hname : name ∉ Table.keys declarations)
      (hplain : ¬ Expands deep access) : LeafAt deep declarations reads (names ++ [name]) .any
  | declared {names : List String} {below : List (String × Access)} {name : String}
      {declaration : Declaration} {keys : List String} {tag : Tag}
      (hlevel : Expanded deep (Table.keys declarations) reads names below)
      (hdeclaration : (name, declaration) ∈ declarations)
      (htag : declaration.Declares keys tag) :
      LeafAt deep declarations reads (names ++ name :: keys) tag

/-- An inferred shape has the leaves that its reads and declarations give, and no
others. -/
theorem at?_level_iff_leafAt (hreads : Access.WellFormedTable reads)
    (hdeclarations : (Table.keys declarations).Nodup)
    (hfields : ∀ entry ∈ declarations, entry.2.DistinctFields)
    {declared : List (String × Slot)} (hdeclared : resolveAll declarations = .ok declared)
    {tag : Tag} :
    (Slot.nested (level deep declared reads)).at? keys = some (.leaf tag) ↔
      LeafAt deep declarations reads keys tag := by
  rw [at?_level_eq_leaf_iff hreads hdeclarations hdeclared]
  constructor
  · intro h
    cases h with
    | read hlevel hread hname hplain => exact .read hlevel hread hname hplain
    | declared hlevel hslot hpart =>
      obtain ⟨declaration, entry, hdeclaration, hentry, rfl⟩ := hslot
      rw [Declaration.at?_slot_iff (hfields _ hdeclaration) hentry] at hpart
      exact .declared hlevel hdeclaration hpart
  · intro h
    cases h with
    | read hlevel hread hname hplain => exact .read hlevel hread hname hplain
    | declared hlevel hdeclaration htag =>
      obtain ⟨entry, hentry⟩ := exists_resolveAll_iff.1 ⟨declared, hdeclared⟩ _ hdeclaration
      rw [← Declaration.at?_slot_iff (hfields _ hdeclaration) hentry] at htag
      exact .declared hlevel ⟨_, entry, hdeclaration, hentry, rfl⟩ htag

/-! ## Types that are certain -/

/-- A value that certainly has a type: the value of a property that is declared
with a required tag, or of a field of a shape that has one. -/
inductive Typed (deep : Bool) (declarations : List (String × Declaration))
    (reads : List (String × Access)) : List String → PlaceholderKind → Prop
  | prop {names : List String} {below : List (String × Access)} {name : String} {tag : Tag}
      {kind : PlaceholderKind}
      (hlevel : Expanded deep (Table.keys declarations) reads names below)
      (hdeclaration : (name, .tag tag) ∈ declarations)
      (hkind : (tag, kind) ∈ PlaceholderKind.required) :
      Typed deep declarations reads (names ++ [name]) kind
  | field {names : List String} {below : List (String × Access)} {name field : String}
      {fields : List (String × Declaration)} {more : List Argument} {tag : Tag}
      {kind : PlaceholderKind}
      (hlevel : Expanded deep (Table.keys declarations) reads names below)
      (hdeclaration : (name, .call "shape" (.fields fields :: more)) ∈ declarations)
      (hfield : (field, .tag tag) ∈ fields)
      (hkind : (tag, kind) ∈ PlaceholderKind.required) :
      Typed deep declarations reads (names ++ [name, field]) kind

/-- A value of which no type is certain. -/
inductive Untyped (deep : Bool) (declarations : List (String × Declaration))
    (reads : List (String × Access)) : List String → Prop
  /-- A read that is not declared and has no level of its own. -/
  | read {names : List String} {below : List (String × Access)} {name : String}
      {access : Access} (hlevel : Expanded deep (Table.keys declarations) reads names below)
      (hread : (name, access) ∈ below) (hname : name ∉ Table.keys declarations)
      (hplain : ¬ Expands deep access) : Untyped deep declarations reads (names ++ [name])
  /-- A property with another tag, or with a word that is no tag. -/
  | prop {names : List String} {below : List (String × Access)} {name : String}
      {declaration : Declaration} {tag : Tag}
      (hlevel : Expanded deep (Table.keys declarations) reads names below)
      (hdeclaration : (name, declaration) ∈ declarations)
      (htag : declaration.wordTag? = some tag)
      (hother : tag ∉ PlaceholderKind.required.map Prod.fst) :
      Untyped deep declarations reads (names ++ [name])
  /-- A field of a shape with another tag, or with a word that is no tag. -/
  | field {names : List String} {below : List (String × Access)} {name field : String}
      {fields : List (String × Declaration)} {more : List Argument}
      {declaration : Declaration} {tag : Tag}
      (hlevel : Expanded deep (Table.keys declarations) reads names below)
      (hdeclaration : (name, .call "shape" (.fields fields :: more)) ∈ declarations)
      (hfield : (field, declaration) ∈ fields) (htag : declaration.wordTag? = some tag)
      (hother : tag ∉ PlaceholderKind.required.map Prod.fst) :
      Untyped deep declarations reads (names ++ [name, field])
  /-- A value of a `one_of`. -/
  | choice {names : List String} {below : List (String × Access)} {name : String}
      {choices : List Choice} {more : List Argument} {choice : Choice}
      (hlevel : Expanded deep (Table.keys declarations) reads names below)
      (hdeclaration : (name, .call "one_of" (.choices choices :: more)) ∈ declarations)
      (hchoice : choice ∈ choices) :
      Untyped deep declarations reads (names ++ [name, choice.key])
  /-- A property whose declaration says nothing. -/
  | nothing {names : List String} {below : List (String × Access)} {name : String}
      {declaration : Declaration}
      (hlevel : Expanded deep (Table.keys declarations) reads names below)
      (hdeclaration : (name, declaration) ∈ declarations)
      (hnothing : declaration.SaysNothing) : Untyped deep declarations reads (names ++ [name])

/-- The certain types are those of the leaves with a required tag. -/
theorem typed_iff {kind : PlaceholderKind} :
    Typed deep declarations reads keys kind ↔
      ∃ tag, LeafAt deep declarations reads keys tag ∧ (tag, kind) ∈ PlaceholderKind.required := by
  constructor
  · intro h
    cases h with
    | prop hlevel hdeclaration hkind =>
      exact ⟨_, .declared hlevel hdeclaration (.word rfl), hkind⟩
    | field hlevel hdeclaration hfield hkind =>
      exact ⟨_, .declared hlevel hdeclaration (.field hfield rfl), hkind⟩
  · rintro ⟨tag, hleaf, hkind⟩
    -- what is not known to be required has the tag `any`, which is not
    have hany : (Tag.any, kind) ∉ PlaceholderKind.required := by cases kind <;> decide
    have hword {declaration : Declaration} (htag : declaration.wordTag? = some tag) :
        declaration = .tag tag := by
      cases declaration with
      | tag known =>
        cases htag
        rfl
      | unrecognized word =>
        cases htag
        exact absurd hkind hany
      | _ => cases htag
    cases hleaf with
    | read => exact absurd hkind hany
    | declared hlevel hdeclaration htag =>
      cases htag with
      | word htag =>
        rw [hword htag] at hdeclaration
        exact .prop hlevel hdeclaration hkind
      | field hfield htag =>
        rw [hword htag] at hfield
        exact .field hlevel hdeclaration hfield hkind
      | choice => exact absurd hkind hany
      | nothing => exact absurd hkind hany

/-- No type is certain at the leaves with any other tag. -/
theorem untyped_iff :
    Untyped deep declarations reads keys ↔
      ∃ tag, LeafAt deep declarations reads keys tag ∧
        tag ∉ PlaceholderKind.required.map Prod.fst := by
  have hany : Tag.any ∉ PlaceholderKind.required.map Prod.fst := by decide
  constructor
  · intro h
    cases h with
    | read hlevel hread hname hplain => exact ⟨.any, .read hlevel hread hname hplain, hany⟩
    | prop hlevel hdeclaration htag hother =>
      exact ⟨_, .declared hlevel hdeclaration (.word htag), hother⟩
    | field hlevel hdeclaration hfield htag hother =>
      exact ⟨_, .declared hlevel hdeclaration (.field hfield htag), hother⟩
    | choice hlevel hdeclaration hchoice =>
      exact ⟨.any, .declared hlevel hdeclaration (.choice hchoice), hany⟩
    | nothing hlevel hdeclaration hnothing =>
      exact ⟨.any, .declared hlevel hdeclaration (.nothing hnothing), hany⟩
  · rintro ⟨tag, hleaf, hother⟩
    cases hleaf with
    | read hlevel hread hname hplain => exact .read hlevel hread hname hplain
    | declared hlevel hdeclaration htag =>
      cases htag with
      | word htag => exact .prop hlevel hdeclaration htag hother
      | field hfield htag => exact .field hlevel hdeclaration hfield htag hother
      | choice hchoice => exact .choice hlevel hdeclaration hchoice
      | nothing hnothing => exact .nothing hlevel hdeclaration hnothing

end Inference

end ComponentProps
