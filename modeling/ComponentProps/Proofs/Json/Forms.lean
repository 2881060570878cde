import ComponentProps.Json.Form

/-!
# What holds of decoded values

A property of the values of a form carries over to the forms that are put
together from it.

* `Json.Form.Gives`: every value that a form decodes has a property.
* `Json.Form.Gives.table`: decoded tables have distinct keys, and values with
  the property.
* `Json.Form.gives_record`: decoded records have every property that the values
  of their fields keep.
* `Except.bind_eq_ok_iff`, `Except.bind_eq_error_iff`: a computation succeeds if
  each of its steps does, and fails at one of them.
-/

namespace ComponentProps

section Except

variable {ε α β : Type}

/-- A computation succeeds if each of its two steps does. -/
theorem Except.bind_eq_ok_iff {first : Except ε α} {next : α → Except ε β} {result : β} :
    (first >>= next) = .ok result ↔ ∃ value, first = .ok value ∧ next value = .ok result := by
  cases first with
  | error error => simp [bind, Except.bind]
  | ok value => simp [bind, Except.bind]

/-- A computation fails at one of its two steps. -/
theorem Except.bind_eq_error_iff {first : Except ε α} {next : α → Except ε β} {error : ε} :
    (first >>= next) = .error error ↔
      first = .error error ∨ ∃ value, first = .ok value ∧ next value = .error error := by
  cases first with
  | error error => simp [bind, Except.bind]
  | ok value => simp [bind, Except.bind]

theorem Except.map_eq_ok_iff {f : α → β} {outcome : Except ε α} {result : β} :
    f <$> outcome = .ok result ↔ ∃ value, outcome = .ok value ∧ f value = result := by
  cases outcome with
  | error error => simp [Functor.map, Except.map]
  | ok value => simp [Functor.map, Except.map]

theorem Except.map_eq_error_iff {f : α → β} {outcome : Except ε α} {error : ε} :
    f <$> outcome = .error error ↔ outcome = .error error := by
  cases outcome with
  | error error => simp [Functor.map, Except.map]
  | ok value => simp [Functor.map, Except.map]

end Except

namespace Json

theorem within_eq_ok_iff {α : Type} {segment : Segment} {outcome : Except Fault α} {value : α} :
    within segment outcome = .ok value ↔ outcome = .ok value := by
  cases outcome with
  | ok other => exact Iff.rfl
  | error fault => simp [within]

theorem within_eq_error_iff {α : Type} {segment : Segment} {outcome : Except Fault α}
    {fault : Fault} :
    within segment outcome = .error fault ↔
      ∃ inner, outcome = .error inner ∧ inner.inside segment = fault := by
  cases outcome with
  | ok value => simp [within]
  | error inner => simp [within]

namespace Form

variable {α β : Type}

theorem ofJson_eq_ok_iff {form : Form α} {value : Json} {result : α} :
    form.ofJson value = .ok result ↔ form.decode value = .ok result := by
  rw [ofJson]
  cases form.decode value <;> simp

/-- A value of a type with several forms is what is chosen for it. -/
theorem decode_alternatives_eq_ok_iff {type : String} {choose : Json → Option α} {value : Json}
    {result : α} :
    (alternatives type choose).decode value = .ok result ↔ choose value = some result := by
  unfold alternatives
  dsimp only
  cases choose value <;> simp

/-- Every value that a form decodes has a property. -/
def Gives (form : Form α) (p : α → Prop) : Prop :=
  ∀ value result, form.decode value = .ok result → p result

theorem Gives.optional {form : Form α} {p : α → Prop} (h : form.Gives p) :
    form.optional.Gives fun result => ∀ value, result = some value → p value := by
  intro value result hresult
  cases value with
  | null =>
    cases hresult
    intro other hother
    cases hother
  | _ =>
    obtain ⟨inner, hinner, rfl⟩ := Except.map_eq_ok_iff.1 hresult
    intro other hother
    cases hother
    exact h _ _ hinner

/-! ## Tables -/

theorem Gives.decodeMembers {form : Form α} {p : α → Prop} (h : form.Gives p)
    {members : List (String × Json)} {table result : Table α}
    (hkeys : (Table.keys table).Nodup) (htable : ∀ entry ∈ table, p entry.2)
    (hresult : form.decodeMembers table members = .ok result) :
    (Table.keys result).Nodup ∧ ∀ entry ∈ result, p entry.2 := by
  induction members generalizing table with
  | nil =>
    cases hresult
    exact ⟨hkeys, htable⟩
  | cons member rest ih =>
    obtain ⟨key, value⟩ := member
    rw [Form.decodeMembers, Except.bind_eq_ok_iff] at hresult
    obtain ⟨decoded, hdecoded, hrest⟩ := hresult
    have hvalue : p decoded := h value decoded (within_eq_ok_iff.1 hdecoded)
    refine ih (Table.nodup_keys_insert key decoded hkeys) ?_ hrest
    intro entry hentry
    rcases Table.mem_of_mem_insert hentry with rfl | hentry
    · exact hvalue
    · exact htable entry hentry

/-- Members are inserted one by one, so no key comes up twice. -/
theorem Gives.table {form : Form α} {p : α → Prop} (h : form.Gives p) :
    (table form).Gives fun result =>
      (Table.keys result).Nodup ∧ ∀ entry ∈ result, p entry.2 := by
  intro value result hresult
  cases value with
  | object members =>
    have hempty : (Table.keys ([] : Table α)).Nodup := List.nodup_nil
    exact h.decodeMembers hempty (by simp) hresult
  | _ => cases hresult

/-! ## Records -/

/-- The value of a field keeps a property of the record. -/
def Field.Keeps (field : Field α) (p : α → Prop) : Prop :=
  field.form.Gives fun change => ∀ record, p record → p (change record)

/-- A field keeps a property if writing a value that its form gives does. -/
theorem Gives.keeps {form : Form β} {q : β → Prop} (h : form.Gives q) {p : α → Prop}
    {name : String} {set : β → α → α}
    (hset : ∀ value record, q value → p record → p (set value record)) :
    (Field.of name form set).Keeps p := by
  intro value change hchange record hrecord
  obtain ⟨decoded, hdecoded, rfl⟩ := Except.map_eq_ok_iff.1 hchange
  exact hset decoded record (h value decoded hdecoded) hrecord

theorem decodeFields_keeps {fields : List (Field α)} {p : α → Prop}
    (hfields : ∀ field ∈ fields, field.Keeps p) {members : List (String × Json)}
    {start result : α} (hstart : p start)
    (hresult : decodeFields fields start members = .ok result) : p result := by
  induction members generalizing start with
  | nil =>
    cases hresult
    exact hstart
  | cons member rest ih =>
    obtain ⟨key, value⟩ := member
    rw [decodeFields] at hresult
    split at hresult
    · exact ih hstart hresult
    next field hfield =>
      obtain ⟨change, hchange, hrest⟩ := Except.bind_eq_ok_iff.1 hresult
      have hkeeps := hfields field (List.mem_of_find?_eq_some hfield)
      exact ih (hkeeps value change (within_eq_ok_iff.1 hchange) start hstart) hrest

theorem decodePositions_keeps {fields : List (Field α)} {p : α → Prop}
    (hfields : ∀ field ∈ fields, field.Keeps p) {position : Nat} {items : List Json}
    {start result : α} (hstart : p start)
    (hresult : decodePositions position fields start items = .ok result) : p result := by
  induction items generalizing fields position start with
  | nil =>
    cases fields with
    | nil =>
      cases hresult
      exact hstart
    | cons field more =>
      cases hresult
      exact hstart
  | cons item rest ih =>
    cases fields with
    | nil => cases hresult
    | cons field more =>
      rw [decodePositions, Except.bind_eq_ok_iff] at hresult
      obtain ⟨change, hchange, hrest⟩ := hresult
      rw [List.forall_mem_cons] at hfields
      have hkeeps := hfields.1 item change (within_eq_ok_iff.1 hchange) start hstart
      exact ih hfields.2 hkeeps hrest

/-- Decoded records have every property that their fields keep. -/
theorem gives_record {fields : List (Field α)} {p : α → Prop}
    (hfields : ∀ field ∈ fields, field.Keeps p) {start : α} (hstart : p start)
    (name : String) : (record name fields start).Gives p := by
  intro value result hresult
  cases value with
  | object members => exact decodeFields_keeps hfields hstart hresult
  | list items => exact decodePositions_keeps hfields hstart hresult
  | _ => cases hresult

end Form

end Json

end ComponentProps
