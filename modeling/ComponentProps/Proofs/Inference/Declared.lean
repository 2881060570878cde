import ComponentProps.Proofs.Decimal.Equality
import ComponentProps.Proofs.Shape.Lookup

/-!
# What declarations contribute

Every declared name stands on every level of an inferred shape with the slot of
its own declaration.  This module reads the leaves of such a slot off the
declaration.

* `Choice.key_eq_of_same`: values that count as one have the same key, so
  dropping repeated values of a `one_of` drops no leaf.
* `Entry.at?_slot_oneOf_iff`, `Entry.at?_slot_shape_iff`: the leaves of an entry.
* `Declaration.Declares`: the leaves that a declaration names.
* `Declaration.at?_slot_iff`: its slot has these leaves and no others.
-/

namespace ComponentProps

/-! ## Allowed values -/

namespace Choice

theorem key_eq_of_same {choice other : Choice} (h : choice.same other = true) :
    choice.key = other.key := by
  cases choice with
  | null =>
    cases other with
    | null => rfl
    | _ => cases h
  | bool value =>
    cases other with
    | bool value' => rw [beq_iff_eq.1 h]
    | _ => cases h
  | number x =>
    cases other with
    | number y =>
      rcases Bool.or_eq_true_iff.1 h with hnan | heq
      · obtain ⟨hx, hy⟩ := Bool.and_eq_true_iff.1 hnan
        rw [key, key, numberText, numberText, if_pos hx, if_pos hy]
      · exact numberText_eq_of_beq heq
    | _ => cases h
  | text value =>
    cases other with
    | text value' => rw [beq_iff_eq.1 h]
    | _ => cases h

theorem mem_of_mem_distinctFrom {known choices : List Choice} {choice : Choice}
    (h : choice ∈ distinctFrom known choices) : choice ∈ choices := by
  induction choices generalizing known with
  | nil => cases h
  | cons first rest ih =>
    rw [distinctFrom] at h
    split at h
    · exact List.mem_cons_of_mem _ (ih h)
    · rcases List.mem_cons.1 h with rfl | h
      · exact List.mem_cons_self
      · exact List.mem_cons_of_mem _ (ih h)

/-- A value that is dropped has the key of one that is kept. -/
theorem exists_mem_distinctFrom (known : List Choice) {choices : List Choice} {choice : Choice}
    (h : choice ∈ choices) :
    ∃ other, (other ∈ known ∨ other ∈ distinctFrom known choices) ∧
      other.key = choice.key := by
  induction choices generalizing known with
  | nil => cases h
  | cons first rest ih =>
    rw [distinctFrom]
    split
    next hknown =>
      rcases List.mem_cons.1 h with rfl | h
      · obtain ⟨other, hother, hsame⟩ := List.any_eq_true.1 hknown
        exact ⟨other, Or.inl hother, (key_eq_of_same hsame).symm⟩
      · exact ih known h
    · rcases List.mem_cons.1 h with rfl | h
      · exact ⟨choice, Or.inr List.mem_cons_self, rfl⟩
      · obtain ⟨other, hother | hother, hkey⟩ := ih (first :: known) h
        · rcases List.mem_cons.1 hother with rfl | hother
          · exact ⟨other, Or.inr List.mem_cons_self, hkey⟩
          · exact ⟨other, Or.inl hother, hkey⟩
        · exact ⟨other, Or.inr (List.mem_cons_of_mem _ hother), hkey⟩

/-- The distinct values of a list have the keys of all its values. -/
theorem exists_mem_distinct_iff {choices : List Choice} {key : String} :
    (∃ choice ∈ distinct choices, choice.key = key) ↔ ∃ choice ∈ choices, choice.key = key := by
  constructor
  · rintro ⟨choice, hmem, hkey⟩
    exact ⟨choice, mem_of_mem_distinctFrom hmem, hkey⟩
  · rintro ⟨choice, hmem, rfl⟩
    obtain ⟨other, hother | hother, hkey⟩ := exists_mem_distinctFrom [] hmem
    · cases hother
    · exact ⟨other, hother, hkey⟩

theorem distinct_eq_nil_iff {choices : List Choice} : distinct choices = [] ↔ choices = [] := by
  cases choices <;> simp [distinct, distinctFrom]

end Choice

/-! ## The leaves of an entry -/

namespace Entry

open Slot (at?_leaf_eq_some_iff at?_nested_cons)

theorem slot_oneOf_of_ne_nil {choices : List Choice} (h : choices ≠ []) :
    (oneOf choices).slot =
      .nested (Table.ofEntries (choices.map fun choice => (choice.key, .leaf .any))) := by
  cases choices with
  | nil => exact absurd rfl h
  | cons first rest => rfl

theorem slot_shape_of_ne_nil {fields : Table Tag} (h : fields ≠ []) :
    (shape fields).slot = .nested (fields.map fun field => (field.1, .leaf field.2)) := by
  cases fields with
  | nil => exact absurd rfl h
  | cons first rest => rfl

/-- The leaves of a table of values stand under the keys of the values. -/
theorem get?_choices_iff {choices : List Choice} {key : String} {slot : Slot} :
    Table.get? (Table.ofEntries (choices.map fun choice => (choice.key, Slot.leaf .any))) key =
        some slot ↔ slot = .leaf .any ∧ ∃ choice ∈ choices, choice.key = key := by
  generalize hentries : choices.map (fun choice => (choice.key, Slot.leaf .any)) = entries
  have hkeys : key ∈ Table.keys (Table.ofEntries entries) ↔
      ∃ choice ∈ choices, choice.key = key := by
    rw [Table.ofEntries, Table.mem_keys_insertAll, ← hentries, Table.keys, Table.keys,
      List.map_map]
    simp
  have hleaf {slot : Slot} (hget : Table.get? (Table.ofEntries entries) key = some slot) :
      slot = .leaf .any := by
    rcases Table.mem_of_mem_insertAll (Table.mem_of_get? hget) with hmem | hmem
    · cases hmem
    · rw [← hentries] at hmem
      obtain ⟨choice, -, heq⟩ := List.mem_map.1 hmem
      cases heq
      rfl
  constructor
  · intro hget
    exact ⟨hleaf hget, hkeys.1 (List.mem_map_of_mem (Table.mem_of_get? hget))⟩
  · rintro ⟨rfl, hchoice⟩
    rw [← hkeys, ← Table.contains_iff, Table.contains, Option.isSome_iff_exists] at hchoice
    obtain ⟨slot, hget⟩ := hchoice
    rw [hget, hleaf hget]

/-- A `one_of` has a leaf for each key of its values. -/
theorem at?_slot_oneOf_iff {choices : List Choice} {keys : List String} {tag : Tag} :
    (oneOf choices).slot.at? keys = some (.leaf tag) ↔
      tag = .any ∧ (choices = [] ∧ keys = [] ∨ ∃ choice ∈ choices, keys = [choice.key]) := by
  by_cases hnone : choices = []
  · subst hnone
    rw [slot, at?_leaf_eq_some_iff, Slot.leaf.injEq]
    simp [and_comm]
  · rw [slot_oneOf_of_ne_nil hnone]
    cases keys with
    | nil => simp [hnone]
    | cons key keys =>
      simp only [at?_nested_cons, Option.bind_eq_some_iff, get?_choices_iff]
      constructor
      · rintro ⟨slot, ⟨rfl, choice, hchoice, rfl⟩, hleaf⟩
        obtain ⟨rfl, hleaf⟩ := at?_leaf_eq_some_iff.1 hleaf
        cases hleaf
        exact ⟨rfl, Or.inr ⟨choice, hchoice, rfl⟩⟩
      · rintro ⟨rfl, ⟨hnil, -⟩ | ⟨choice, hchoice, heq⟩⟩
        · exact absurd hnil hnone
        · cases heq
          exact ⟨.leaf .any, ⟨rfl, choice, hchoice, rfl⟩, Slot.at?_nil _⟩

/-- A `shape` has a leaf for each of its fields. -/
theorem at?_slot_shape_iff {fields : Table Tag} (hfields : (Table.keys fields).Nodup)
    {keys : List String} {tag : Tag} :
    (shape fields).slot.at? keys = some (.leaf tag) ↔
      fields = [] ∧ keys = [] ∧ tag = .any ∨ ∃ field, keys = [field] ∧ (field, tag) ∈ fields := by
  by_cases hnone : fields = []
  · subst hnone
    rw [slot, at?_leaf_eq_some_iff, Slot.leaf.injEq]
    simp
  · have hkeys : (Table.keys (fields.map fun field => (field.1, Slot.leaf field.2))).Nodup := by
      rwa [Table.keys, List.map_map]
    rw [slot_shape_of_ne_nil hnone]
    cases keys with
    | nil => simp [hnone]
    | cons key keys =>
      simp only [at?_nested_cons, Option.bind_eq_some_iff, Table.get?_eq_some_iff hkeys]
      constructor
      · rintro ⟨slot, hmem, hleaf⟩
        obtain ⟨field, hfield, heq⟩ := List.mem_map.1 hmem
        cases heq
        obtain ⟨rfl, hleaf⟩ := at?_leaf_eq_some_iff.1 hleaf
        cases hleaf
        exact Or.inr ⟨field.1, rfl, hfield⟩
      · rintro (⟨hnil, -⟩ | ⟨field, heq, hfield⟩)
        · exact absurd hnil hnone
        · cases heq
          exact ⟨.leaf tag, List.mem_map.2 ⟨(key, tag), hfield, rfl⟩, Slot.at?_nil _⟩

end Entry

/-! ## The leaves of a declaration -/

namespace Declaration

/-- The leaves that a declaration contributes, with the keys that lead to them
from its property and their tags. -/
inductive Declares : Declaration → List String → Tag → Prop
  /-- The property itself, if it is declared by a word. -/
  | word {declaration : Declaration} {tag : Tag} (htag : declaration.wordTag? = some tag) :
      Declares declaration [] tag
  /-- A field of a `shape`. -/
  | field {fields : List (String × Declaration)} {more : List Argument} {field : String}
      {declaration : Declaration} {tag : Tag} (hfield : (field, declaration) ∈ fields)
      (htag : declaration.wordTag? = some tag) :
      Declares (.call "shape" (.fields fields :: more)) [field] tag
  /-- A value of a `one_of`. -/
  | choice {choices : List Choice} {more : List Argument} {choice : Choice}
      (hchoice : choice ∈ choices) :
      Declares (.call "one_of" (.choices choices :: more)) [choice.key] .any
  | nothing {declaration : Declaration} (hnothing : declaration.SaysNothing) :
      Declares declaration [] .any

/-- A word declares its own property and nothing below it. -/
theorem declares_iff_of_wordTag? {declaration : Declaration} {known : Tag}
    (hknown : declaration.wordTag? = some known) {keys : List String} {tag : Tag} :
    declaration.Declares keys tag ↔ keys = [] ∧ tag = known := by
  constructor
  · intro h
    cases h with
    | word htag =>
      rw [hknown] at htag
      exact ⟨rfl, (Option.some.inj htag).symm⟩
    | nothing hnothing =>
      rw [hnothing.wordTag?_eq_none] at hknown
      cases hknown
    | _ => cases hknown
  · rintro ⟨rfl, rfl⟩
    exact .word hknown

theorem declares_oneOf_iff {choices : List Choice} {more : List Argument} {keys : List String}
    {tag : Tag} :
    (call "one_of" (.choices choices :: more)).Declares keys tag ↔
      tag = .any ∧ (choices = [] ∧ keys = [] ∨ ∃ choice ∈ choices, keys = [choice.key]) := by
  constructor
  · intro h
    generalize hcall : Declaration.call "one_of" (.choices choices :: more) = declaration at h
    cases h with
    | word htag =>
      rw [← hcall] at htag
      cases htag
    | field hfield htag => simp at hcall
    | choice hchoice =>
      simp only [call.injEq, List.cons.injEq, Argument.choices.injEq, true_and] at hcall
      obtain ⟨rfl, -⟩ := hcall
      exact ⟨rfl, Or.inr ⟨_, hchoice, rfl⟩⟩
    | nothing hnothing =>
      rw [← hcall] at hnothing
      exact ⟨rfl, Or.inl ⟨hnothing.choices_eq_nil, rfl⟩⟩
  · rintro ⟨rfl, ⟨rfl, rfl⟩ | ⟨choice, hchoice, rfl⟩⟩
    · refine .nothing (.oneOf ?_)
      rintro choices heq
      cases heq
      rfl
    · exact .choice hchoice

theorem declares_shape_iff {fields : List (String × Declaration)} {more : List Argument}
    {keys : List String} {tag : Tag} :
    (call "shape" (.fields fields :: more)).Declares keys tag ↔
      fields = [] ∧ keys = [] ∧ tag = .any ∨
        ∃ field declaration, keys = [field] ∧ (field, declaration) ∈ fields ∧
          declaration.wordTag? = some tag := by
  constructor
  · intro h
    generalize hcall : Declaration.call "shape" (.fields fields :: more) = declaration at h
    cases h with
    | word htag =>
      rw [← hcall] at htag
      cases htag
    | field hfield htag =>
      simp only [call.injEq, List.cons.injEq, Argument.fields.injEq, true_and] at hcall
      obtain ⟨rfl, -⟩ := hcall
      exact Or.inr ⟨_, _, rfl, hfield, htag⟩
    | choice hchoice => simp at hcall
    | nothing hnothing =>
      rw [← hcall] at hnothing
      exact Or.inl ⟨hnothing.fields_eq_nil, rfl, rfl⟩
  · rintro (⟨rfl, rfl, rfl⟩ | ⟨field, declaration, rfl, hfield, htag⟩)
    · refine .nothing (.shape ?_)
      rintro fields heq
      cases heq
      rfl
    · exact .field hfield htag

/-- Where a declaration says nothing, no leaf stands but its own. -/
theorem SaysNothing.declares_iff {declaration : Declaration} (h : declaration.SaysNothing)
    {keys : List String} {tag : Tag} :
    declaration.Declares keys tag ↔ keys = [] ∧ tag = .any := by
  constructor
  · intro hdeclares
    cases hdeclares with
    | word htag =>
      rw [h.wordTag?_eq_none] at htag
      cases htag
    | field hfield _ =>
      rw [h.fields_eq_nil] at hfield
      cases hfield
    | choice hchoice =>
      rw [h.choices_eq_nil] at hchoice
      cases hchoice
    | nothing _ => exact ⟨rfl, rfl⟩
  · rintro ⟨rfl, rfl⟩
    exact .nothing h

/-- The slot of a declaration has the leaves that the declaration names, and no
others. -/
theorem at?_slot_iff {prop : String} {declaration : Declaration}
    (hfields : declaration.DistinctFields) {entry : Entry}
    (h : declaration.resolve prop = .ok entry) {keys : List String} {tag : Tag} :
    entry.slot.at? keys = some (.leaf tag) ↔ declaration.Declares keys tag := by
  rcases resolve_cases h with ⟨known, hknown, hslot⟩ | ⟨choices, more, rfl, rfl⟩ |
    ⟨fields, more, tags, rfl, htags, rfl⟩ | ⟨hnothing, hslot⟩
  · rw [hslot, Slot.at?_leaf_eq_some_iff, Slot.leaf.injEq, declares_iff_of_wordTag? hknown]
  · have hkeys : (∃ choice ∈ Choice.distinct choices, keys = [choice.key]) ↔
        ∃ choice ∈ choices, keys = [choice.key] := by
      cases keys with
      | nil => simp
      | cons key keys =>
        cases keys with
        | nil =>
          simp only [List.cons.injEq, and_true, eq_comm (a := key)]
          exact Choice.exists_mem_distinct_iff
        | cons _ _ => simp
    rw [Entry.at?_slot_oneOf_iff, Choice.distinct_eq_nil_iff, hkeys, declares_oneOf_iff]
  · have hnodup : (Table.keys tags).Nodup := by
      rw [keys_scalarFields htags]
      exact hfields
    have hnil : tags = [] ↔ fields = [] :=
      Table.eq_nil_iff_of_perm (.of_eq (keys_scalarFields htags))
    rw [Entry.at?_slot_shape_iff hnodup, hnil, declares_shape_iff]
    simp only [mem_of_scalarFields_iff htags, exists_and_left]
  · rw [hslot, Slot.at?_leaf_eq_some_iff, Slot.leaf.injEq, hnothing.declares_iff]

end Declaration

end ComponentProps
