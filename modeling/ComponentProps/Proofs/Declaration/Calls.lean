import ComponentProps.Declaration.Json
import ComponentProps.Proofs.Declaration.Resolving
import Mathlib

/-!
# Calls in JSON

A call is described by an object with the name of what is called and a list of arguments.
Any list will do, since an argument that is read neither as allowed values nor as fields is
kept as it is.  What the call resolves to depends on the first argument alone.

* `Choice.Spelled`, `Choice.distinct_eq_eraseDupsBy`: the allowed values that JSON values
  spell, and each of them once.
* `Declaration.FieldsSpelled`: the fields that the members of an object spell.
* `Declaration.argumentOf_eq_choices_iff`, `Declaration.argumentOf_eq_fields_iff`: which
  values are read as allowed values, and which as fields.
* `Declaration.CallResolves`: what a call resolves to, one case for each form of its first
  argument.
* `Declaration.resolve_callJson`: every call is read, and resolves to just this.
-/

namespace ComponentProps

/-! ## Allowed values -/

/-- A relation leads from every item of a list to something. -/
theorem exists_forall₂_iff {α β : Type} {R : α → β → Prop} {items : List α} :
    (∃ results, List.Forall₂ R items results) ↔ ∀ item ∈ items, ∃ result, R item result := by
  induction items with
  | nil => simp
  | cons item rest ih =>
    rw [List.forall_mem_cons, ← ih]
    constructor
    · intro h
      obtain ⟨results, hresults⟩ := h
      cases hresults with
      | cons hitem hrest => exact ⟨⟨_, hitem⟩, _, hrest⟩
    · intro h
      obtain ⟨⟨result, hitem⟩, results, hrest⟩ := h
      exact ⟨result :: results, .cons hitem hrest⟩

namespace Choice

/-- A JSON value spells an allowed value: null, a boolean, a number or a string. -/
inductive Spelled : Json → Choice → Prop
  | null : Spelled .null .null
  | bool (value : Bool) : Spelled (.bool value) (.bool value)
  | number (value : Json.Number) : Spelled (.number value) (.number value.toFloat)
  | text (value : String) : Spelled (.text value) (.text value)

theorem ofJson?_eq_some_iff {value : Json} {choice : Choice} :
    ofJson? value = some choice ↔ Spelled value choice := by
  constructor
  · intro h
    cases value with
    | null => cases h; exact .null
    | bool value => cases h; exact .bool value
    | number value => cases h; exact .number value
    | text value => cases h; exact .text value
    | list items => cases h
    | object members => cases h
  · intro h
    cases h <;> rfl

theorem mapM_ofJson?_eq_some_iff {items : List Json} {choices : List Choice} :
    items.mapM ofJson? = some choices ↔ List.Forall₂ Spelled items choices := by
  induction items generalizing choices with
  | nil => simp [eq_comm]
  | cons item rest ih =>
    rw [List.mapM_cons, List.forall₂_cons_left_iff]
    simp only [Option.bind_eq_bind, Option.bind_eq_some_iff, ofJson?_eq_some_iff, ih,
      Option.pure_def, Option.some.injEq]
    constructor
    · intro h
      obtain ⟨choice, hchoice, others, hothers, rfl⟩ := h
      exact ⟨choice, others, hchoice, hothers, rfl⟩
    · intro h
      obtain ⟨choice, others, hchoice, hothers, rfl⟩ := h
      exact ⟨choice, hchoice, others, hothers, rfl⟩

/-- Lists and objects spell no allowed value, and all other JSON values do. -/
theorem exists_spelled_iff {value : Json} :
    (∃ choice, Spelled value choice) ↔ ¬ (value.kind = .array ∨ value.kind = .object) := by
  simp only [← ofJson?_eq_some_iff]
  cases value <;> simp [ofJson?, Json.kind]

/-- Each value is kept where it first occurs. -/
theorem distinct_eq_eraseDupsBy (choices : List Choice) :
    distinct choices = choices.eraseDupsBy same := by
  have hloop : ∀ known : List Choice,
      List.eraseDupsBy.loop same choices known = known.reverse ++ distinctFrom known choices := by
    induction choices with
    | nil => simp [List.eraseDupsBy.loop, distinctFrom]
    | cons choice rest ih =>
      intro known
      rw [List.eraseDupsBy.loop, distinctFrom]
      cases known.any (same choice) <;> simp [ih]
  exact (hloop []).symm

end Choice

namespace Declaration

/-! ## Arguments -/

theorem ofJson_eq_ok_iff {value : Json} {declaration : Declaration} :
    form.ofJson value = .ok declaration ↔ ofJson? value = some declaration :=
  Json.Form.ofJson_eq_ok_iff.trans Json.Form.decode_alternatives_eq_ok_iff

/-- The members of an object spell fields with their declarations, each one and in their
order. -/
def FieldsSpelled (members : List (String × Json)) (fields : List (String × Declaration)) :
    Prop :=
  List.Forall₂ (fun member field => field.1 = member.1 ∧ form.ofJson member.2 = .ok field.2)
    members fields

theorem fieldsOf?_eq_some_iff {members : List (String × Json)}
    {fields : List (String × Declaration)} :
    fieldsOf? members = some fields ↔ FieldsSpelled members fields := by
  unfold FieldsSpelled
  induction members generalizing fields with
  | nil => simp [fieldsOf?, eq_comm]
  | cons member rest ih =>
    obtain ⟨name, value⟩ := member
    rw [List.forall₂_cons_left_iff, fieldsOf?]
    constructor
    · intro h
      split at h
      next declaration others hvalue hothers =>
        cases h
        exact ⟨(name, declaration), others, ⟨rfl, ofJson_eq_ok_iff.2 hvalue⟩, ih.1 hothers, rfl⟩
      next => cases h
    · intro h
      obtain ⟨⟨key, declaration⟩, others, ⟨hkey, hvalue⟩, hothers, rfl⟩ := h
      cases hkey
      rw [ofJson_eq_ok_iff.1 hvalue, ih.2 hothers]

theorem argumentOf_eq_choices_iff {value : Json} {choices : List Choice} :
    argumentOf value = .choices choices ↔
      ∃ items, value = .list items ∧ List.Forall₂ Choice.Spelled items choices := by
  cases value with
  | list items =>
    simp only [Json.list.injEq, exists_eq_left', ← Choice.mapM_ofJson?_eq_some_iff]
    rw [argumentOf]
    cases items.mapM Choice.ofJson? <;> simp
  | object members =>
    rw [argumentOf]
    cases fieldsOf? members <;> simp
  | _ => simp [argumentOf]

theorem argumentOf_eq_fields_iff {value : Json} {fields : List (String × Declaration)} :
    argumentOf value = .fields fields ↔
      ∃ members entries, value = .object members ∧ FieldsSpelled members entries ∧
        fields = Table.ofEntries entries := by
  cases value with
  | list items =>
    rw [argumentOf]
    cases items.mapM Choice.ofJson? <;> simp
  | object members =>
    simp only [Json.object.injEq, ← fieldsOf?_eq_some_iff]
    rw [argumentOf]
    cases hentries : fieldsOf? members <;> simp [hentries, eq_comm]
  | _ => simp [argumentOf]

/-- A value that is not read as allowed values is no list, or holds a list or an object. -/
theorem ne_choices_iff {argument : Option Json} :
    (∀ choices, argument.map argumentOf ≠ some (.choices choices)) ↔
      ∀ items, argument = some (.list items) →
        ∃ item ∈ items, item.kind = .array ∨ item.kind = .object := by
  have hitems (items : List Json) : (∀ choices, ¬ List.Forall₂ Choice.Spelled items choices) ↔
      ∃ item ∈ items, item.kind = .array ∨ item.kind = .object := by
    rw [← not_exists, exists_forall₂_iff]
    simp [Choice.exists_spelled_iff, or_iff_not_imp_left]
  constructor
  · intro h items hargument
    refine (hitems items).1 fun choices hchoices => h choices ?_
    rw [hargument, Option.map_some, argumentOf_eq_choices_iff.2 ⟨items, rfl, hchoices⟩]
  · intro h choices hargument
    obtain ⟨value, rfl, hvalue⟩ := Option.map_eq_some_iff.1 hargument
    obtain ⟨items, rfl, hchoices⟩ := argumentOf_eq_choices_iff.1 hvalue
    exact (hitems items).2 (h items rfl) choices hchoices

/-- A value that is not read as fields is no object, or holds a value that is no
declaration. -/
theorem ne_fields_iff {argument : Option Json} :
    (∀ fields, argument.map argumentOf ≠ some (.fields fields)) ↔
      ∀ members, argument = some (.object members) →
        ∃ member ∈ members, ∀ declaration, form.ofJson member.2 ≠ .ok declaration := by
  have hmembers (members : List (String × Json)) :
      (∀ entries, ¬ FieldsSpelled members entries) ↔
        ∃ member ∈ members, ∀ declaration, form.ofJson member.2 ≠ .ok declaration := by
    unfold FieldsSpelled
    rw [← not_exists, exists_forall₂_iff]
    simp
  constructor
  · intro h members hargument
    refine (hmembers members).1 fun entries hentries => h (Table.ofEntries entries) ?_
    rw [hargument, Option.map_some,
      argumentOf_eq_fields_iff.2 ⟨members, entries, rfl, hentries, rfl⟩]
  · intro h fields hargument
    obtain ⟨value, rfl, hvalue⟩ := Option.map_eq_some_iff.1 hargument
    obtain ⟨members, entries, rfl, hentries, -⟩ := argumentOf_eq_fields_iff.1 hvalue
    exact (hmembers members).2 (h members rfl) entries hentries

/-! ## Calls -/

/-- A call as it is described in JSON. -/
def callJson (callee : String) (arguments : List Json) : Json :=
  .object [("kind", .text "call"), ("callee", .text callee), ("args", .list arguments)]

theorem ofJson_callJson (callee : String) (arguments : List Json) :
    form.ofJson (callJson callee arguments) = .ok (.call callee (argumentsOf arguments)) := by
  rw [ofJson_eq_ok_iff]
  rfl

theorem head?_argumentsOf (arguments : List Json) :
    (argumentsOf arguments).head? = arguments.head?.map argumentOf := by
  cases arguments <;> rfl

/-- What a call of something resolves to as the declaration of a property, by the first
argument of the call. -/
inductive CallResolves (prop : String) :
    String → Option Json → Except UnsupportedField Entry → Prop
  /-- A list of allowed values. -/
  | oneOf {items : List Json} {choices : List Choice}
      (hitems : List.Forall₂ Choice.Spelled items choices) :
      CallResolves prop "one_of" (some (.list items))
        (.ok (.oneOf (choices.eraseDupsBy Choice.same)))
  /-- An object of declarations that are all words. -/
  | shape {members : List (String × Json)} {entries : List (String × Declaration)}
      {tags : Table Tag} (hmembers : FieldsSpelled members entries)
      (htags : List.Forall₂ (fun field tag => tag.1 = field.1 ∧ field.2.wordTag? = some tag.2)
        (Table.ofEntries entries) tags) :
      CallResolves prop "shape" (some (.object members)) (.ok (.shape tags))
  /-- An object of declarations of which one is a description. -/
  | describedField {members : List (String × Json)} {entries : List (String × Declaration)}
      {field : String} {declaration : Declaration} (hmembers : FieldsSpelled members entries)
      (hfirst : IsFirst (·.2.IsDescription) (Table.ofEntries entries) (field, declaration)) :
      CallResolves prop "shape" (some (.object members)) (.error ⟨prop, field⟩)
  /-- No first argument, or one that is no list of allowed values. -/
  | noChoices {argument : Option Json}
      (hitems : ∀ items, argument = some (.list items) →
        ∃ item ∈ items, item.kind = .array ∨ item.kind = .object) :
      CallResolves prop "one_of" argument (.ok (.unknown (.malformedArguments .oneOf)))
  /-- No first argument, or one that is no object of declarations. -/
  | noFields {argument : Option Json}
      (hmembers : ∀ members, argument = some (.object members) →
        ∃ member ∈ members, ∀ declaration, form.ofJson member.2 ≠ .ok declaration) :
      CallResolves prop "shape" argument (.ok (.unknown (.malformedArguments .shape)))
  /-- Something else is called. -/
  | unrecognized {callee : String} {argument : Option Json} (honeOf : callee ≠ "one_of")
      (hshape : callee ≠ "shape") :
      CallResolves prop callee argument (.ok (.unknown (.unrecognizedCall callee)))

theorem resolveCall_oneOf_of_ne {prop : String} {argument : Option Argument}
    (h : ∀ choices, argument ≠ some (.choices choices)) :
    resolveCall prop "one_of" argument = .ok (.unknown (.malformedArguments .oneOf)) := by
  cases argument with
  | none => rfl
  | some value =>
    cases value with
    | choices choices => exact absurd rfl (h choices)
    | fields fields => rfl
    | other value => rfl

theorem resolveCall_shape_of_ne {prop : String} {argument : Option Argument}
    (h : ∀ fields, argument ≠ some (.fields fields)) :
    resolveCall prop "shape" argument = .ok (.unknown (.malformedArguments .shape)) := by
  cases argument with
  | none => rfl
  | some value =>
    cases value with
    | choices choices => rfl
    | fields fields => exact absurd rfl (h fields)
    | other value => rfl

theorem resolveCall_of_ne {prop callee : String} (honeOf : callee ≠ "one_of")
    (hshape : callee ≠ "shape") (argument : Option Argument) :
    resolveCall prop callee argument = .ok (.unknown (.unrecognizedCall callee)) := by
  unfold resolveCall
  split
  next choices hname => exact absurd (Tag.name_of_ofName? hname).symm honeOf
  next hname _ => exact absurd (Tag.name_of_ofName? hname).symm honeOf
  next fields hname => exact absurd (Tag.name_of_ofName? hname).symm hshape
  next hname _ => exact absurd (Tag.name_of_ofName? hname).symm hshape
  next => rfl

theorem scalarFields_eq_ok_iff {prop : String} {fields : List (String × Declaration)}
    {tags : Table Tag} :
    scalarFields prop fields = .ok tags ↔
      List.Forall₂ (fun field tag => tag.1 = field.1 ∧ field.2.wordTag? = some tag.2)
        fields tags := by
  induction fields generalizing tags with
  | nil => simp [scalarFields, eq_comm]
  | cons entry rest ih =>
    rw [scalarFields_cons_eq_ok_iff, List.forall₂_cons_left_iff]
    constructor
    · intro h
      obtain ⟨tag, others, htag, hothers, rfl⟩ := h
      exact ⟨(entry.1, tag), others, ⟨rfl, htag⟩, ih.1 hothers, rfl⟩
    · intro h
      obtain ⟨⟨name, tag⟩, others, ⟨hname, htag⟩, hothers, rfl⟩ := h
      cases hname
      exact ⟨tag, others, htag, ih.2 hothers, rfl⟩

/-- Each case of `CallResolves` is what the call resolves to. -/
theorem CallResolves.resolveCall_eq {prop callee : String} {argument : Option Json}
    {outcome : Except UnsupportedField Entry} (h : CallResolves prop callee argument outcome) :
    resolveCall prop callee (argument.map argumentOf) = outcome := by
  cases h with
  | oneOf hitems =>
    rw [Option.map_some, argumentOf_eq_choices_iff.2 ⟨_, rfl, hitems⟩,
      ← Choice.distinct_eq_eraseDupsBy]
    rfl
  | shape hmembers htags =>
    rw [Option.map_some, argumentOf_eq_fields_iff.2 ⟨_, _, rfl, hmembers, rfl⟩]
    show Entry.shape <$> scalarFields prop _ = _
    rw [scalarFields_eq_ok_iff.2 htags]
    rfl
  | describedField hmembers hfirst =>
    rw [Option.map_some, argumentOf_eq_fields_iff.2 ⟨_, _, rfl, hmembers, rfl⟩]
    show Entry.shape <$> scalarFields prop _ = _
    rw [Except.map_eq_error_iff]
    exact scalarFields_eq_error_iff.2 ⟨rfl, _, hfirst⟩
  | noChoices hitems => exact resolveCall_oneOf_of_ne (ne_choices_iff.2 hitems)
  | noFields hmembers => exact resolveCall_shape_of_ne (ne_fields_iff.2 hmembers)
  | unrecognized honeOf hshape => exact resolveCall_of_ne honeOf hshape _

/-- The cases of `CallResolves` leave nothing out. -/
theorem callResolves_resolveCall (prop callee : String) (argument : Option Json) :
    CallResolves prop callee argument (resolveCall prop callee (argument.map argumentOf)) := by
  by_cases honeOf : callee = "one_of"
  · subst honeOf
    by_cases hother : ∀ choices, argument.map argumentOf ≠ some (.choices choices)
    · rw [resolveCall_oneOf_of_ne hother]
      exact .noChoices (ne_choices_iff.1 hother)
    · simp only [not_forall, ne_eq, not_not] at hother
      obtain ⟨choices, hchoices⟩ := hother
      obtain ⟨value, rfl, hvalue⟩ := Option.map_eq_some_iff.1 hchoices
      obtain ⟨items, rfl, hitems⟩ := argumentOf_eq_choices_iff.1 hvalue
      have hcase : CallResolves prop "one_of" (some (.list items)) _ := .oneOf hitems
      rwa [hcase.resolveCall_eq]
  by_cases hshape : callee = "shape"
  · subst hshape
    by_cases hother : ∀ fields, argument.map argumentOf ≠ some (.fields fields)
    · rw [resolveCall_shape_of_ne hother]
      exact .noFields (ne_fields_iff.1 hother)
    · simp only [not_forall, ne_eq, not_not] at hother
      obtain ⟨fields, hfields⟩ := hother
      obtain ⟨value, rfl, hvalue⟩ := Option.map_eq_some_iff.1 hfields
      obtain ⟨members, entries, rfl, hentries, rfl⟩ := argumentOf_eq_fields_iff.1 hvalue
      cases htags : scalarFields prop (Table.ofEntries entries) with
      | ok tags =>
        have hcase : CallResolves prop "shape" (some (.object members)) _ :=
          .shape hentries (scalarFields_eq_ok_iff.1 htags)
        rwa [hcase.resolveCall_eq]
      | error error =>
        obtain ⟨hprop, declaration, hfirst⟩ := scalarFields_eq_error_iff.1 htags
        have hcase : CallResolves prop "shape" (some (.object members)) _ :=
          .describedField hentries hfirst
        rwa [hcase.resolveCall_eq]
  rw [resolveCall_of_ne honeOf hshape]
  exact .unrecognized honeOf hshape

/-- Every call with any list of arguments is read as a declaration.  The first argument alone
says what it resolves to: the distinct values of a `one_of`, the tags of the fields of a
`shape` or the first of them that is a description, and an entry without knowledge, which
gives a leaf without a type, in all other cases. -/
theorem resolve_callJson (prop callee : String) (arguments : List Json) :
    ∃ declaration, form.ofJson (callJson callee arguments) = .ok declaration ∧
      (∀ outcome, declaration.resolve prop = outcome ↔
        CallResolves prop callee arguments.head? outcome) ∧
      (∀ reason, declaration.resolve prop = .ok (.unknown reason) →
        (Entry.unknown reason).slot = .leaf .any) ∧
      ∀ others other, others.head? = arguments.head? →
        form.ofJson (callJson callee others) = .ok other →
          other.resolve prop = declaration.resolve prop := by
  have hresolve : ∀ items : List Json, (call callee (argumentsOf items)).resolve prop =
      resolveCall prop callee (items.head?.map argumentOf) := by
    intro items
    rw [← head?_argumentsOf]
    rfl
  refine ⟨_, ofJson_callJson callee arguments, ?_, fun _ _ => rfl, ?_⟩
  · intro outcome
    rw [hresolve]
    constructor
    · intro h
      rw [← h]
      exact callResolves_resolveCall prop callee arguments.head?
    · exact CallResolves.resolveCall_eq
  · intro others other hhead hother
    rw [ofJson_callJson] at hother
    cases hother
    rw [hresolve, hresolve, hhead]

/-- A field that is no declaration hides that the field before it is a description. -/
example :
    (form.ofJson (callJson "shape" [.object [("x", .object [("kind", .text "conditional")]),
        ("y", .list [])]])).map (resolve "p") =
      .ok (.ok (.unknown (.malformedArguments .shape))) := rfl

end Declaration

end ComponentProps
