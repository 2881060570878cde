import ComponentProps.Inference
import ComponentProps.Proofs.Json.Forms

/-!
# How declarations resolve

What it means that a declaration resolves, one lemma for each function that
takes part.

* `scalarFields_cons_eq_ok_iff`, `mem_of_scalarFields_iff`: the fields of a shape.
* `IsFirst`, `scalarFields_eq_error_iff`: the first field that is declared by a description.
* `Declaration.SaysNothing`: the descriptions that are not understood.
* `Declaration.resolve_cases`: the forms of a declaration that resolves.
* `Declaration.exists_resolve_iff`: which declarations resolve.
* `Declaration.DescribesField`, `Declaration.resolve_eq_error_iff`: with which error the
  other declarations fail.
* `Inference.Contributes`: the slot of a declaration that resolves.
* `Inference.mem_of_resolveAll_iff`: the resolved declarations are these slots.
* `Inference.exists_resolveAll_iff`: when all declarations resolve.
* `Inference.resolveAll_eq_error_iff`: with which error resolving them fails.
-/

namespace ComponentProps

/-! ## The first of a list -/

section First

variable {α : Type} {p : α → Prop} {items : List α}

/-- An item is the first of a list with some property. -/
def IsFirst (p : α → Prop) (items : List α) (item : α) : Prop :=
  ∃ before after, items = before ++ item :: after ∧ (∀ other ∈ before, ¬ p other) ∧ p item

theorem isFirst_cons_iff {first item : α} :
    IsFirst p (first :: items) item ↔
      (p first ∧ item = first) ∨ (¬ p first ∧ IsFirst p items item) := by
  constructor
  · intro h
    obtain ⟨before, after, hitems, hbefore, hitem⟩ := h
    cases before with
    | nil =>
      cases hitems
      exact Or.inl ⟨hitem, rfl⟩
    | cons other before =>
      cases hitems
      rw [List.forall_mem_cons] at hbefore
      exact Or.inr ⟨hbefore.1, before, after, rfl, hbefore.2, hitem⟩
  · intro h
    rcases h with ⟨hfirst, rfl⟩ | ⟨hfirst, before, after, rfl, hbefore, hitem⟩
    · exact ⟨[], items, rfl, by simp, hfirst⟩
    · exact ⟨first :: before, after, rfl, List.forall_mem_cons.2 ⟨hfirst, hbefore⟩, hitem⟩

theorem IsFirst.holds {item : α} (h : IsFirst p items item) : p item := by
  obtain ⟨before, after, -, -, hitem⟩ := h
  exact hitem

theorem not_isFirst_nil (item : α) : ¬ IsFirst p [] item := by
  intro h
  obtain ⟨before, after, hitems, -⟩ := h
  simp at hitems

/-- Some item is the first with a property if there is one with it. -/
theorem exists_isFirst_iff : (∃ item, IsFirst p items item) ↔ ∃ item ∈ items, p item := by
  induction items with
  | nil => simp [not_isFirst_nil]
  | cons first rest ih =>
    by_cases hfirst : p first
    · simp [isFirst_cons_iff, hfirst]
    · simp [isFirst_cons_iff, hfirst, ih]

end First

/-! ## Fields -/

/-- The tag that a word stands for as the type of a field. -/
def Declaration.wordTag? : Declaration → Option Tag
  | .tag known => some known
  | .unrecognized _ => some .any
  | _ => none

/-- A declaration that describes an expression instead of naming a type. -/
inductive Declaration.IsDescription : Declaration → Prop
  | call (callee : String) (arguments : List Argument) : IsDescription (.call callee arguments)
  | conditional : IsDescription .conditional
  | unknowable : IsDescription .unknowable

theorem Declaration.wordTag?_eq_none_iff {declaration : Declaration} :
    declaration.wordTag? = none ↔ declaration.IsDescription := by
  constructor
  · intro h
    cases declaration with
    | tag known => cases h
    | unrecognized word => cases h
    | call callee arguments => exact .call callee arguments
    | conditional => exact .conditional
    | unknowable => exact .unknowable
  · intro h
    cases h <;> rfl

theorem scalarFields_cons (prop field : String) (declaration : Declaration)
    (rest : List (String × Declaration)) :
    scalarFields prop ((field, declaration) :: rest) =
      match declaration.wordTag? with
      | some tag => scalarFields prop rest >>= fun tags => pure ((field, tag) :: tags)
      | none => .error ⟨prop, field⟩ := by
  cases declaration <;> rfl

theorem scalarFields_cons_eq_ok_iff {prop field : String} {declaration : Declaration}
    {rest : List (String × Declaration)} {tags : Table Tag} :
    scalarFields prop ((field, declaration) :: rest) = .ok tags ↔
      ∃ tag others, declaration.wordTag? = some tag ∧ scalarFields prop rest = .ok others ∧
        tags = (field, tag) :: others := by
  rw [scalarFields_cons]
  cases declaration.wordTag? with
  | none => simp
  | some tag =>
    simp only [Except.bind_eq_ok_iff]
    constructor
    · rintro ⟨others, hothers, hlist⟩
      cases hlist
      exact ⟨tag, others, rfl, hothers, rfl⟩
    · rintro ⟨tag', others, htag, hothers, rfl⟩
      cases htag
      exact ⟨others, hothers, rfl⟩

theorem keys_scalarFields {prop : String} {fields : List (String × Declaration)}
    {tags : Table Tag} (h : scalarFields prop fields = .ok tags) :
    Table.keys tags = Table.keys fields := by
  induction fields generalizing tags with
  | nil =>
    cases h
    rfl
  | cons entry rest ih =>
    obtain ⟨tag, others, -, hothers, rfl⟩ := scalarFields_cons_eq_ok_iff.1 h
    rw [Table.keys_cons, Table.keys_cons, ih hothers]

/-- The tags of the fields of a shape are those of its words. -/
theorem mem_of_scalarFields_iff {prop : String} {fields : List (String × Declaration)}
    {tags : Table Tag} (h : scalarFields prop fields = .ok tags) {field : String} {tag : Tag} :
    (field, tag) ∈ tags ↔
      ∃ declaration, (field, declaration) ∈ fields ∧ declaration.wordTag? = some tag := by
  induction fields generalizing tags with
  | nil =>
    cases h
    simp
  | cons entry rest ih =>
    obtain ⟨first, declaration⟩ := entry
    obtain ⟨tag', others, htag, hothers, rfl⟩ := scalarFields_cons_eq_ok_iff.1 h
    rw [List.mem_cons, ih hothers]
    constructor
    · rintro (heq | ⟨declaration', hmem, htag'⟩)
      · cases heq
        exact ⟨declaration, List.mem_cons_self, htag⟩
      · exact ⟨declaration', List.mem_cons_of_mem _ hmem, htag'⟩
    · rintro ⟨declaration', hmem, htag'⟩
      rcases List.mem_cons.1 hmem with heq | hmem
      · cases heq
        rw [htag] at htag'
        cases htag'
        exact Or.inl rfl
      · exact Or.inr ⟨declaration', hmem, htag'⟩

/-- The fields of a shape fail at the first that is declared by a description. -/
theorem scalarFields_eq_error_iff {prop : String} {fields : List (String × Declaration)}
    {error : UnsupportedField} :
    scalarFields prop fields = .error error ↔
      error.prop = prop ∧
        ∃ declaration, IsFirst (·.2.IsDescription) fields (error.field, declaration) := by
  induction fields with
  | nil => simp [scalarFields, not_isFirst_nil]
  | cons entry rest ih =>
    obtain ⟨field, declaration⟩ := entry
    rw [scalarFields_cons]
    simp only [isFirst_cons_iff]
    cases htag : declaration.wordTag? with
    | none =>
      have hdescribed := Declaration.wordTag?_eq_none_iff.1 htag
      obtain ⟨prop', field'⟩ := error
      simp [hdescribed, eq_comm]
    | some tag =>
      have hword : ¬ declaration.IsDescription := by
        rw [← Declaration.wordTag?_eq_none_iff, htag]
        simp
      simp [Except.map_eq_error_iff, hword, ih]

/-! ## Declarations -/

namespace Declaration

/-- A description that says nothing about its property, so that the property is
a leaf without a type. -/
inductive SaysNothing : Declaration → Prop
  | conditional : SaysNothing .conditional
  | unknowable : SaysNothing .unknowable
  /-- A call of something else. -/
  | call {callee : String} {arguments : List Argument} (honeOf : callee ≠ "one_of")
      (hshape : callee ≠ "shape") : SaysNothing (.call callee arguments)
  /-- A `one_of` whose first argument lists no values, or is something else. -/
  | oneOf {arguments : List Argument}
      (hchoices : ∀ choices, arguments.head? = some (.choices choices) → choices = []) :
      SaysNothing (.call "one_of" arguments)
  /-- A `shape` whose first argument lists no fields, or is something else. -/
  | shape {arguments : List Argument}
      (hfields : ∀ fields, arguments.head? = some (.fields fields) → fields = []) :
      SaysNothing (.call "shape" arguments)

theorem SaysNothing.wordTag?_eq_none {declaration : Declaration}
    (h : declaration.SaysNothing) : declaration.wordTag? = none := by
  cases h <;> rfl

theorem SaysNothing.choices_eq_nil {choices : List Choice} {more : List Argument}
    (h : (Declaration.call "one_of" (.choices choices :: more)).SaysNothing) : choices = [] := by
  generalize hcall : Declaration.call "one_of" (.choices choices :: more) = declaration at h
  cases h with
  | call honeOf _ => exact absurd (Declaration.call.inj hcall).1.symm honeOf
  | oneOf hchoices => exact hchoices choices (by rw [← (Declaration.call.inj hcall).2]; rfl)
  | shape _ => simp at hcall
  | _ => cases hcall

theorem SaysNothing.fields_eq_nil {fields : List (String × Declaration)} {more : List Argument}
    (h : (Declaration.call "shape" (.fields fields :: more)).SaysNothing) : fields = [] := by
  generalize hcall : Declaration.call "shape" (.fields fields :: more) = declaration at h
  cases h with
  | call _ hshape => exact absurd (Declaration.call.inj hcall).1.symm hshape
  | oneOf _ => simp at hcall
  | shape hfields => exact hfields fields (by rw [← (Declaration.call.inj hcall).2]; rfl)
  | _ => cases hcall

/-- The forms of a declaration that resolves, with what they resolve to. -/
theorem resolve_cases {prop : String} {declaration : Declaration} {entry : Entry}
    (h : declaration.resolve prop = .ok entry) :
    (∃ tag, declaration.wordTag? = some tag ∧ entry.slot = .leaf tag) ∨
    (∃ choices more, declaration = .call "one_of" (.choices choices :: more) ∧
      entry = .oneOf (Choice.distinct choices)) ∨
    (∃ fields more tags, declaration = .call "shape" (.fields fields :: more) ∧
      scalarFields prop fields = .ok tags ∧ entry = .shape tags) ∨
    (declaration.SaysNothing ∧ entry.slot = .leaf .any) := by
  cases declaration with
  | tag known =>
    cases h
    exact Or.inl ⟨known, rfl, rfl⟩
  | unrecognized word =>
    cases h
    exact Or.inl ⟨.any, rfl, rfl⟩
  | conditional =>
    cases h
    exact Or.inr (Or.inr (Or.inr ⟨.conditional, rfl⟩))
  | unknowable =>
    cases h
    exact Or.inr (Or.inr (Or.inr ⟨.unknowable, rfl⟩))
  | call callee arguments =>
    have hcall : resolveCall prop callee arguments.head? = .ok entry := h
    unfold resolveCall at hcall
    split at hcall
    next choices hname hargument =>
      cases hcall
      cases Tag.name_of_ofName? hname
      obtain ⟨more, rfl⟩ := List.head?_eq_some_iff.1 hargument
      exact Or.inr (Or.inl ⟨choices, more, rfl, rfl⟩)
    next hname hother =>
      cases hcall
      cases Tag.name_of_ofName? hname
      refine Or.inr (Or.inr (Or.inr ⟨.oneOf ?_, rfl⟩))
      exact fun choices hargument => absurd hargument (hother choices)
    next fields hname hargument =>
      cases Tag.name_of_ofName? hname
      obtain ⟨more, rfl⟩ := List.head?_eq_some_iff.1 hargument
      obtain ⟨tags, htags, rfl⟩ := Except.map_eq_ok_iff.1 hcall
      exact Or.inr (Or.inr (Or.inl ⟨fields, more, tags, rfl, htags, rfl⟩))
    next hname hother =>
      cases hcall
      cases Tag.name_of_ofName? hname
      refine Or.inr (Or.inr (Or.inr ⟨.shape ?_, rfl⟩))
      exact fun fields hargument => absurd hargument (hother fields)
    next honeOf hshape _ _ =>
      cases hcall
      refine Or.inr (Or.inr (Or.inr ⟨.call ?_ ?_, rfl⟩))
      · rintro rfl
        exact honeOf (Tag.ofName?_name .oneOf)
      · rintro rfl
        exact hshape (Tag.ofName?_name .shape)

/-- A declaration is a shape, and `field` is the first of its fields that is declared by a
description. -/
def DescribesField (declaration : Declaration) (field : String) : Prop :=
  ∃ fields more inner, declaration = .call "shape" (.fields fields :: more) ∧
    IsFirst (·.2.IsDescription) fields (field, inner)

/-- A declaration fails to resolve if it is a shape with a description as a field, and the
error names the first such field. -/
theorem resolve_eq_error_iff {prop : String} {declaration : Declaration}
    {error : UnsupportedField} :
    declaration.resolve prop = .error error ↔
      error.prop = prop ∧ declaration.DescribesField error.field := by
  constructor
  · intro h
    cases declaration with
    | call callee arguments =>
      have hcall : resolveCall prop callee arguments.head? = .error error := h
      unfold resolveCall at hcall
      split at hcall
      · cases hcall
      · cases hcall
      next fields hname hargument =>
        cases Tag.name_of_ofName? hname
        obtain ⟨more, rfl⟩ := List.head?_eq_some_iff.1 hargument
        rw [Except.map_eq_error_iff, scalarFields_eq_error_iff] at hcall
        obtain ⟨hprop, inner, hfirst⟩ := hcall
        exact ⟨hprop, fields, more, inner, rfl, hfirst⟩
      · cases hcall
      · cases hcall
    | _ => cases h
  · intro h
    obtain ⟨hprop, fields, more, inner, rfl, hfirst⟩ := h
    have hfields : scalarFields prop fields = .error error :=
      scalarFields_eq_error_iff.2 ⟨hprop, inner, hfirst⟩
    show Entry.shape <$> scalarFields prop fields = .error error
    rw [hfields]
    rfl

/-- Some field of a shape is declared by a description. -/
theorem exists_describesField_iff {declaration : Declaration} :
    (∃ field, declaration.DescribesField field) ↔
      ∃ fields more, declaration = .call "shape" (.fields fields :: more) ∧
        ∃ field ∈ fields, field.2.IsDescription := by
  constructor
  · intro h
    obtain ⟨field, fields, more, inner, hshape, hfirst⟩ := h
    exact ⟨fields, more, hshape, exists_isFirst_iff.1 ⟨_, hfirst⟩⟩
  · intro h
    obtain ⟨fields, more, hshape, hdescribed⟩ := h
    obtain ⟨entry, hfirst⟩ := exists_isFirst_iff.2 hdescribed
    exact ⟨entry.1, fields, more, entry.2, hshape, hfirst⟩

/-- A declaration resolves unless it is a shape with a description as a field. -/
theorem exists_resolve_iff_not_describesField {prop : String} {declaration : Declaration} :
    (∃ entry, declaration.resolve prop = .ok entry) ↔
      ¬ ∃ field, declaration.DescribesField field := by
  cases hresolve : declaration.resolve prop with
  | ok entry =>
    refine ⟨?_, fun _ => ⟨entry, rfl⟩⟩
    intro _ h
    obtain ⟨field, hfield⟩ := h
    have herror : declaration.resolve prop = .error ⟨prop, field⟩ :=
      resolve_eq_error_iff.2 ⟨rfl, hfield⟩
    rw [hresolve] at herror
    cases herror
  | error error =>
    have hfield := (resolve_eq_error_iff.1 hresolve).2
    simpa using ⟨error.field, hfield⟩

theorem exists_resolve_iff {prop : String} {declaration : Declaration} :
    (∃ entry, declaration.resolve prop = .ok entry) ↔
      ∀ fields more, declaration = .call "shape" (.fields fields :: more) →
        ∀ field ∈ fields, ∃ tag, field.2.wordTag? = some tag := by
  rw [exists_resolve_iff_not_describesField, exists_describesField_iff]
  simp only [not_exists, not_and, ← wordTag?_eq_none_iff, Option.ne_none_iff_exists']

end Declaration

/-! ## All declarations -/

namespace Inference

/-- The slot that a declaration of `name` contributes to every level. -/
def Contributes (declarations : List (String × Declaration)) (name : String) (slot : Slot) :
    Prop :=
  ∃ declaration entry, (name, declaration) ∈ declarations ∧
    declaration.resolve name = .ok entry ∧ slot = entry.slot

variable {declarations : List (String × Declaration)} {declared : List (String × Slot)}

theorem resolveAll_cons_eq_ok_iff {prop : String} {declaration : Declaration} :
    resolveAll ((prop, declaration) :: declarations) = .ok declared ↔
      ∃ entry slots, declaration.resolve prop = .ok entry ∧
        resolveAll declarations = .ok slots ∧ declared = (prop, entry.slot) :: slots := by
  rw [resolveAll]
  simp only [Except.bind_eq_ok_iff]
  constructor
  · rintro ⟨entry, hentry, slots, hslots, hlist⟩
    cases hlist
    exact ⟨entry, slots, hentry, hslots, rfl⟩
  · rintro ⟨entry, slots, hentry, hslots, rfl⟩
    exact ⟨entry, hentry, slots, hslots, rfl⟩

/-- Every declared name has a slot, in the order of the declarations. -/
theorem keys_of_resolveAll (h : resolveAll declarations = .ok declared) :
    Table.keys declared = Table.keys declarations := by
  induction declarations generalizing declared with
  | nil =>
    cases h
    rfl
  | cons first rest ih =>
    obtain ⟨entry, slots, -, hslots, rfl⟩ := resolveAll_cons_eq_ok_iff.1 h
    rw [Table.keys_cons, Table.keys_cons, ih hslots]

/-- The declared slots are those that the declarations contribute. -/
theorem mem_of_resolveAll_iff (h : resolveAll declarations = .ok declared) {name : String}
    {slot : Slot} : (name, slot) ∈ declared ↔ Contributes declarations name slot := by
  induction declarations generalizing declared with
  | nil =>
    cases h
    simp [Contributes]
  | cons first rest ih =>
    obtain ⟨prop, declaration⟩ := first
    obtain ⟨entry, slots, hentry, hslots, rfl⟩ := resolveAll_cons_eq_ok_iff.1 h
    rw [List.mem_cons, ih hslots]
    constructor
    · rintro (heq | ⟨declaration', entry', hmem, hentry', rfl⟩)
      · cases heq
        exact ⟨declaration, entry, List.mem_cons_self, hentry, rfl⟩
      · exact ⟨declaration', entry', List.mem_cons_of_mem _ hmem, hentry', rfl⟩
    · rintro ⟨declaration', entry', hmem, hentry', rfl⟩
      rcases List.mem_cons.1 hmem with heq | hmem
      · cases heq
        rw [hentry] at hentry'
        cases hentry'
        exact Or.inl rfl
      · exact Or.inr ⟨declaration', entry', hmem, hentry', rfl⟩

/-- All declarations can be resolved if each of them can. -/
theorem exists_resolveAll_iff :
    (∃ declared, resolveAll declarations = .ok declared) ↔
      ∀ entry ∈ declarations, ∃ resolved, entry.2.resolve entry.1 = .ok resolved := by
  induction declarations with
  | nil => simp [resolveAll]
  | cons first rest ih =>
    rw [List.forall_mem_cons, ← ih]
    constructor
    · rintro ⟨declared, h⟩
      obtain ⟨entry, slots, hentry, hslots, -⟩ := resolveAll_cons_eq_ok_iff.1 h
      exact ⟨⟨entry, hentry⟩, slots, hslots⟩
    · rintro ⟨⟨entry, hentry⟩, slots, hslots⟩
      exact ⟨_, resolveAll_cons_eq_ok_iff.2 ⟨entry, slots, hentry, hslots, rfl⟩⟩

theorem resolveAll_cons_eq_error_iff {prop : String} {declaration : Declaration}
    {error : UnsupportedField} :
    resolveAll ((prop, declaration) :: declarations) = .error error ↔
      declaration.resolve prop = .error error ∨
        (∃ entry, declaration.resolve prop = .ok entry) ∧
          resolveAll declarations = .error error := by
  rw [resolveAll]
  cases declaration.resolve prop with
  | error other => simp [Except.bind_eq_error_iff]
  | ok entry => simp [Except.bind_eq_error_iff, Except.map_eq_error_iff]

/-- Resolving all declarations fails at the first that does not resolve. -/
theorem resolveAll_eq_error_iff {error : UnsupportedField} :
    resolveAll declarations = .error error ↔
      ∃ declaration, IsFirst (fun entry => ∃ field, entry.2.DescribesField field) declarations
          (error.prop, declaration) ∧
        declaration.DescribesField error.field := by
  induction declarations with
  | nil => simp [resolveAll, not_isFirst_nil]
  | cons first rest ih =>
    obtain ⟨prop, declaration⟩ := first
    rw [resolveAll_cons_eq_error_iff, ih]
    simp only [isFirst_cons_iff]
    cases hresolve : declaration.resolve prop with
    | error found =>
      obtain ⟨hprop, hfield⟩ := Declaration.resolve_eq_error_iff.1 hresolve
      have hdescribes : ∃ field, declaration.DescribesField field := ⟨found.field, hfield⟩
      constructor
      · intro h
        rcases h with h | ⟨⟨entry, hentry⟩, -⟩
        · cases h
          exact ⟨declaration, Or.inl ⟨hdescribes, by rw [hprop]⟩, hfield⟩
        · cases hentry
      · intro h
        obtain ⟨other, ⟨-, hother⟩ | ⟨hnone, -⟩, hfield'⟩ := h
        · obtain ⟨hprop', rfl⟩ := Prod.mk.inj hother
          left
          rw [← hresolve, Declaration.resolve_eq_error_iff]
          exact ⟨hprop', hfield'⟩
        · exact absurd hdescribes hnone
    | ok entry =>
      have hwords : ¬ ∃ field, declaration.DescribesField field :=
        Declaration.exists_resolve_iff_not_describesField.1 ⟨entry, hresolve⟩
      simp [hwords]

end Inference

end ComponentProps
