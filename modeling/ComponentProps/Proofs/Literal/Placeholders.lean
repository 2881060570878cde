import ComponentProps.Proofs.Literal.Properties

/-!
# The placeholders that occur in a literal

`Literal.placeholders` lists the placeholders of a literal with all their
occurrences: in every property, also in one whose name comes up again, and in
the items of lists.

* `Literal.placeholders_ofJson`: values without placeholders.
* `Properties.placeholders_eq_nil_of_get?`: a value that a lookup finds has no
  other placeholders than the object.
* `Properties.placeholders_put`: an update trades the placeholders of the old
  value for those of the new one.
* `Literal.at?_ne_placeholder`: nested lookups find no placeholder where none
  occurs.
-/

namespace ComponentProps

mutual

/-- The placeholders of a literal, with every occurrence. -/
def Literal.placeholders : Literal → List Placeholder
  | .object properties => Properties.placeholders properties
  | .list items => Literal.itemPlaceholders items
  | .placeholder value => [value]
  | .text _ | .number _ | .bool _ | .null => []

/-- The placeholders of the items of a list. -/
def Literal.itemPlaceholders : List Literal → List Placeholder
  | [] => []
  | item :: rest => item.placeholders ++ Literal.itemPlaceholders rest

/-- The placeholders of the properties of an object. -/
def Properties.placeholders : Properties → List Placeholder
  | [] => []
  | (_, value) :: rest => value.placeholders ++ Properties.placeholders rest

end

@[simp] theorem Literal.placeholders_object (properties : Properties) :
    (Literal.object properties).placeholders = properties.placeholders := by
  rw [Literal.placeholders]

@[simp] theorem Literal.placeholders_placeholder (value : Placeholder) :
    (Literal.placeholder value).placeholders = [value] := by
  rw [Literal.placeholders]

@[simp] theorem Literal.placeholders_null : Literal.null.placeholders = [] := by
  rw [Literal.placeholders]

@[simp] theorem Properties.placeholders_nil : Properties.placeholders [] = [] := by
  rw [Properties.placeholders]

@[simp] theorem Properties.placeholders_cons (property : PropertyKey × Literal)
    (rest : Properties) :
    Properties.placeholders (property :: rest) =
      property.2.placeholders ++ rest.placeholders := by
  obtain ⟨key, value⟩ := property
  rw [Properties.placeholders]

/-! ## Values -/

namespace Literal

mutual

/-- There are no placeholders in JSON. -/
@[simp] theorem placeholders_ofJson : (value : Json) → (ofJson value).placeholders = []
  | .null | .bool _ | .number _ | .text _ => by rw [ofJson, placeholders]
  | .list items => by rw [ofJson, placeholders, itemPlaceholders_ofItems items]
  | .object members => by rw [ofJson, placeholders, placeholders_ofMembers members]

theorem itemPlaceholders_ofItems : (items : List Json) → itemPlaceholders (ofItems items) = []
  | [] => by rw [ofItems, itemPlaceholders]
  | item :: rest => by
    rw [ofItems, itemPlaceholders, placeholders_ofJson item, itemPlaceholders_ofItems rest,
      List.append_nil]

theorem placeholders_ofMembers :
    (members : List (String × Json)) → Properties.placeholders (ofMembers members) = []
  | [] => by rw [ofMembers, Properties.placeholders]
  | (name, value) :: rest => by
    rw [ofMembers, Properties.placeholders, placeholders_ofJson value,
      placeholders_ofMembers rest, List.append_nil]

end

end Literal

/-! ## Lookups and updates -/

namespace Properties

variable {properties : Properties} {name : String}

/-- A lookup finds nothing that the object does not contain. -/
theorem placeholders_eq_nil_of_get? (h : properties.placeholders = []) {value : Literal}
    (hget : get? properties name = some value) : value.placeholders = [] := by
  induction properties with
  | nil => cases hget
  | cons property rest ih =>
    rw [placeholders_cons, List.append_eq_nil_iff] at h
    rw [get?_cons] at hget
    split at hget
    · exact ih h.2 hget
    · split at hget
      · cases hget
        exact h.1
      · cases hget

/-- An update trades the placeholders of the value that counted for the name for
those of the new one. -/
theorem placeholders_put (properties : Properties) (name : String) (value : Literal) :
    ((put properties name value).placeholders ++
        ((get? properties name).map Literal.placeholders).getD []).Perm
      (properties.placeholders ++ value.placeholders) := by
  induction properties with
  | nil => simp
  | cons property rest ih =>
    rw [put_cons, get?_cons]
    split
    next hkept =>
      have hget : (if name ∈ names rest then get? rest name
          else if property.1.name = name then some property.2 else none) = get? rest name := by
        split
        · rfl
        next hrest =>
          rw [if_neg (hkept.resolve_left hrest), get?_eq_none_iff.2 hrest]
      rw [hget, placeholders_cons, placeholders_cons, List.append_assoc, List.append_assoc]
      exact ih.append_left property.2.placeholders
    next hlast =>
      rw [not_or, not_not] at hlast
      rw [if_neg hlast.1, if_pos hlast.2, Option.map_some, Option.getD_some, placeholders_cons,
        placeholders_cons]
      have hswap : (value.placeholders ++ placeholders rest).Perm
          (placeholders rest ++ value.placeholders) := List.perm_append_comm
      rw [List.append_assoc property.2.placeholders]
      exact List.perm_append_comm.trans (hswap.append_left _)

/-- An update of a name whose value had no placeholders adds those of the new
value. -/
theorem placeholders_put_of_nil
    (h : ∀ old, get? properties name = some old → old.placeholders = []) (value : Literal) :
    (put properties name value).placeholders.Perm
      (properties.placeholders ++ value.placeholders) := by
  have hput := placeholders_put properties name value
  cases hget : get? properties name with
  | none => simpa [hget] using hput
  | some old => simpa [hget, h old hget] using hput

end Properties

/-- Nested lookups find no placeholder where none occurs. -/
theorem Literal.at?_ne_placeholder {value : Literal} (h : value.placeholders = [])
    (keys : List String) (found : Placeholder) : value.at? keys ≠ some (.placeholder found) := by
  induction keys generalizing value with
  | nil =>
    rw [at?_nil, ne_eq, Option.some.injEq]
    rintro rfl
    simp at h
  | cons key keys ih =>
    cases value with
    | object properties =>
      rw [placeholders_object] at h
      rw [at?_object_cons, ne_eq, Option.bind_eq_some_iff]
      rintro ⟨inner, hget, hinner⟩
      exact ih (Properties.placeholders_eq_nil_of_get? h hget) hinner
    | _ => simp [at?]

end ComponentProps
