import ComponentProps.Proofs.Inference.Declared
import ComponentProps.Proofs.Shape.WellFormed

/-!
# Declarations in another order

Declared properties, the fields of a `shape` and the values of a `one_of` are
given in some order, but that order does not say anything.

* `Declaration.Reordered`: what the first argument of a call lists is in another
  order.
* `Declaration.Reordered.declares`, `Declaration.Reordered.resolves`: the leaves
  that a declaration names, and whether it resolves, do not depend on the order.
* `Declaration.ReorderedTable`: the same for declared properties, which may be in
  another order themselves.
-/

namespace ComponentProps

namespace Declaration

/-! ## One declaration -/

/-- Two declarations are the same but for the order of what the first argument of
a call lists. -/
inductive Reordered : Declaration → Declaration → Prop
  | refl (declaration : Declaration) : Reordered declaration declaration
  | choices {callee : String} {choices others : List Choice} {more : List Argument}
      (h : choices.Perm others) :
      Reordered (.call callee (.choices choices :: more)) (.call callee (.choices others :: more))
  | fields {callee : String} {fields others : List (String × Declaration)}
      {more : List Argument} (hnames : (Table.keys fields).Perm (Table.keys others))
      (hfields : ∀ name field other, (name, field) ∈ fields → (name, other) ∈ others →
        Reordered field other) :
      Reordered (.call callee (.fields fields :: more)) (.call callee (.fields others :: more))
  /-- A list of which some item is no allowed value. -/
  | items {callee : String} {items others : List Json} {more : List Argument}
      (h : items.Perm others) :
      Reordered (.call callee (.other (.list items) :: more))
        (.call callee (.other (.list others) :: more))
  /-- An object of which some member is no declaration. -/
  | members {callee : String} {members others : List (String × Json)} {more : List Argument}
      (h : members.Perm others) :
      Reordered (.call callee (.other (.object members) :: more))
        (.call callee (.other (.object others) :: more))

variable {declaration other : Declaration}

theorem Reordered.symm (h : declaration.Reordered other) : other.Reordered declaration := by
  induction h with
  | refl declaration => exact .refl declaration
  | choices h => exact .choices h.symm
  | fields hnames _ ih =>
    exact .fields hnames.symm fun name other field hother hfield =>
      ih name field other hfield hother
  | items h => exact .items h.symm
  | members h => exact .members h.symm

/-- Fields that only change places. -/
theorem Reordered.of_perm {fields others : List (String × Declaration)} (h : fields.Perm others)
    (hnodup : (Table.keys fields).Nodup) (callee : String) (more : List Argument) :
    Reordered (.call callee (.fields fields :: more)) (.call callee (.fields others :: more)) := by
  refine .fields (h.map Prod.fst) ?_
  intro name field other hfield hother
  have hget := (Table.get?_eq_some_iff hnodup).2 hfield
  cases hget.symm.trans ((Table.get?_eq_some_iff hnodup).2 (h.mem_iff.2 hother))
  exact .refl field

/-- Only calls have arguments, and a call is not a word. -/
theorem Reordered.wordTag?_eq (h : declaration.Reordered other) :
    declaration.wordTag? = other.wordTag? := by
  cases h <;> rfl

/-- When a call with arguments says nothing. -/
theorem saysNothing_call_iff {callee : String} {argument : Argument} {more : List Argument} :
    (call callee (argument :: more)).SaysNothing ↔
      (callee = "one_of" → ∀ choices, argument = .choices choices → choices = []) ∧
      (callee = "shape" → ∀ fields, argument = .fields fields → fields = []) := by
  constructor
  · intro h
    constructor
    · rintro rfl choices rfl
      exact h.choices_eq_nil
    · rintro rfl fields rfl
      exact h.fields_eq_nil
  · rintro ⟨hchoices, hfields⟩
    by_cases honeOf : callee = "one_of"
    · subst honeOf
      exact .oneOf fun choices h => hchoices rfl choices (Option.some.inj h)
    by_cases hshape : callee = "shape"
    · subst hshape
      exact .shape fun fields h => hfields rfl fields (Option.some.inj h)
    exact .call honeOf hshape

theorem Reordered.saysNothing (h : declaration.Reordered other)
    (hnothing : declaration.SaysNothing) : other.SaysNothing := by
  cases h with
  | refl => exact hnothing
  | choices h =>
    rw [saysNothing_call_iff] at hnothing ⊢
    simpa [← List.length_eq_zero_iff, h.length_eq] using hnothing
  | fields hnames _ =>
    rw [saysNothing_call_iff] at hnothing ⊢
    simpa [Table.eq_nil_iff_of_perm hnames] using hnothing
  | items _ =>
    rw [saysNothing_call_iff]
    simp
  | members _ =>
    rw [saysNothing_call_iff]
    simp

/-- A declaration names the same leaves in another order. -/
theorem Reordered.declares (h : declaration.Reordered other) {keys : List String} {tag : Tag}
    (hdeclares : declaration.Declares keys tag) : other.Declares keys tag := by
  cases hdeclares with
  | word htag => exact .word (h.wordTag?_eq ▸ htag)
  | field hfield htag =>
    cases h with
    | refl => exact .field hfield htag
    | fields hnames hfields =>
      obtain ⟨field', hfield'⟩ :=
        Table.mem_keys_iff.1 (hnames.mem_iff.1 (List.mem_map_of_mem hfield))
      exact .field hfield' ((hfields _ _ _ hfield hfield').wordTag?_eq ▸ htag)
  | choice hchoice =>
    cases h with
    | refl => exact .choice hchoice
    | choices h => exact .choice (h.mem_iff.1 hchoice)
  | nothing hnothing => exact .nothing (h.saysNothing hnothing)

/-- A declaration that resolves does so in another order. -/
theorem Reordered.resolves (h : declaration.Reordered other) {prop : String}
    (hresolves : ∃ entry, declaration.resolve prop = .ok entry) :
    ∃ entry, other.resolve prop = .ok entry := by
  rw [exists_resolve_iff] at hresolves ⊢
  intro others more hother
  cases h with
  | refl => exact hresolves others more hother
  | @fields _ fields _ _ hnames hfields =>
    cases hother
    intro (name, field') hfield'
    obtain ⟨field, hfield⟩ :=
      Table.mem_keys_iff.1 (hnames.mem_iff.2 (List.mem_map_of_mem hfield'))
    obtain ⟨tag, htag⟩ := hresolves fields more rfl _ hfield
    exact ⟨tag, (hfields name field field' hfield hfield').wordTag?_eq ▸ htag⟩
  | _ => cases hother

theorem Reordered.distinctFields (h : declaration.Reordered other)
    (hfields : declaration.DistinctFields) : other.DistinctFields := by
  cases h with
  | refl => exact hfields
  | fields hnames _ => exact hnames.nodup_iff.1 hfields
  | _ => trivial

/-! ## All declarations -/

/-- The declared properties are the same, in any order and with declarations in
any order. -/
structure ReorderedTable (declarations others : List (String × Declaration)) : Prop where
  names : (Table.keys declarations).Perm (Table.keys others)
  entries : ∀ name declaration other, (name, declaration) ∈ declarations →
    (name, other) ∈ others → declaration.Reordered other

namespace ReorderedTable

variable {declarations others : List (String × Declaration)}

theorem symm (h : ReorderedTable declarations others) : ReorderedTable others declarations where
  names := h.names.symm
  entries name other declaration hother hdeclaration :=
    (h.entries name declaration other hdeclaration hother).symm

/-- A declaration has a counterpart under its name. -/
theorem exists_mem (h : ReorderedTable declarations others) {name : String}
    {declaration : Declaration} (hdeclaration : (name, declaration) ∈ declarations) :
    ∃ other, (name, other) ∈ others ∧ declaration.Reordered other := by
  obtain ⟨other, hother⟩ :=
    Table.mem_keys_iff.1 (h.names.mem_iff.1 (List.mem_map_of_mem hdeclaration))
  exact ⟨other, hother, h.entries name declaration other hdeclaration hother⟩

theorem distinctFields (h : ReorderedTable declarations others)
    (hfields : ∀ entry ∈ declarations, entry.2.DistinctFields) :
    ∀ entry ∈ others, entry.2.DistinctFields := by
  intro (name, other) hother
  obtain ⟨declaration, hdeclaration, hreordered⟩ := h.symm.exists_mem hother
  exact hreordered.symm.distinctFields (hfields _ hdeclaration)

theorem resolves (h : ReorderedTable declarations others)
    (hresolves : ∃ declared, Inference.resolveAll declarations = .ok declared) :
    ∃ declared, Inference.resolveAll others = .ok declared := by
  rw [Inference.exists_resolveAll_iff] at hresolves ⊢
  intro (name, other) hother
  obtain ⟨declaration, hdeclaration, hreordered⟩ := h.symm.exists_mem hother
  exact hreordered.symm.resolves (hresolves _ hdeclaration)

end ReorderedTable

end Declaration

end ComponentProps
