import ComponentProps.Literal.Basic
import Mathlib.Data.List.Basic

/-!
# Properties by name

An object finds a property by name from its end: `position?`, `get?` and
`replaceLast` all mean the last property of the name.  This module says what
the updates of an object do to the three.

There are three groups.

* Presence.  `names` lists the names of the properties, and `get?`, `position?`
  and `has` agree on whether a name is among them.  `get?_append` looks a name up
  in two objects, one behind the other.
* The update `put`, which is what defining a property and then replacing its
  value comes to (`replaceLast_add`, `put_cons`).  It changes nothing if the name
  has the value (`put_of_get?`).
* Frame.  `put` sets the value of one name (`get?_put_self`) and leaves the
  other names alone (`get?_put_of_ne`).  It keeps every key at its index
  (`keys_put`), and every property that is not the last one of its name
  (`getElem?_put_of_ne`).

`Literal.at?` goes down from object to object, and finds at each level the last
property of a name.
-/

namespace ComponentProps

namespace Properties

variable {properties others : Properties} {name other : String}

/-! ## Presence -/

/-- The names of the properties, in order. -/
def names (properties : Properties) : List String := properties.map (·.1.name)

@[simp] theorem names_nil : names [] = [] := rfl

@[simp] theorem names_cons (property : PropertyKey × Literal) (rest : Properties) :
    names (property :: rest) = property.1.name :: names rest := rfl

theorem has_iff : has properties name = true ↔ name ∈ names properties := by
  simp [has, names, List.any_eq_true]

theorem position?_eq_none_iff : position? properties name = none ↔ name ∉ names properties := by
  induction properties with
  | nil => simp [position?]
  | cons property rest ih =>
    rw [position?, names_cons, List.mem_cons, not_or]
    cases hrest : position? rest name with
    | none =>
      have hnot : name ∉ names rest := ih.1 hrest
      by_cases hkey : property.1.name = name
      · simp [hkey]
      · simp [hkey, hnot, Ne.symm hkey]
    | some index =>
      have hmem : ¬ name ∉ names rest := fun hnot => by simp [ih.2 hnot] at hrest
      simp [hmem]

theorem last?_eq_none_iff : last? properties name = none ↔ name ∉ names properties := by
  induction properties with
  | nil => simp [last?]
  | cons property rest ih =>
    rw [last?, names_cons, List.mem_cons, not_or]
    cases hrest : last? rest name with
    | none =>
      have hnot : name ∉ names rest := ih.1 hrest
      by_cases hkey : property.1.name = name
      · simp [hkey]
      · simp [hkey, hnot, Ne.symm hkey]
    | some later =>
      have hmem : ¬ name ∉ names rest := fun hnot => by simp [ih.2 hnot] at hrest
      simp [hmem]

theorem get?_eq_none_iff : get? properties name = none ↔ name ∉ names properties := by
  rw [get?, Option.map_eq_none_iff, last?_eq_none_iff]

/-- The position of a name in an object with one more property in front. -/
theorem position?_cons (property : PropertyKey × Literal) (rest : Properties) (name : String) :
    position? (property :: rest) name =
      if name ∈ names rest then (position? rest name).map (· + 1)
      else if property.1.name = name then some 0 else none := by
  rw [position?]
  cases hrest : position? rest name with
  | none => rw [if_neg (position?_eq_none_iff.1 hrest)]
  | some index =>
    have hmem : name ∈ names rest := by
      by_contra hnot
      simp [position?_eq_none_iff.2 hnot] at hrest
    rw [if_pos hmem]
    rfl

@[simp] theorem get?_nil (name : String) : get? [] name = none := rfl

/-- The value of a name in an object with one more property in front. -/
theorem get?_cons (property : PropertyKey × Literal) (rest : Properties) (name : String) :
    get? (property :: rest) name =
      if name ∈ names rest then get? rest name
      else if property.1.name = name then some property.2 else none := by
  rw [get?, get?, last?]
  cases hrest : last? rest name with
  | none =>
    rw [if_neg (last?_eq_none_iff.1 hrest)]
    by_cases hkey : property.1.name = name <;> simp [hkey]
  | some later =>
    have hmem : name ∈ names rest := by
      by_contra hnot
      simp [last?_eq_none_iff.2 hnot] at hrest
    rw [if_pos hmem]

/-- The value of a name in two objects, one behind the other. -/
theorem get?_append (properties others : Properties) (name : String) :
    get? (properties ++ others) name =
      if name ∈ names others then get? others name else get? properties name := by
  induction properties with
  | nil =>
    split
    · rfl
    next hmissing => exact get?_eq_none_iff.2 hmissing
  | cons property rest ih =>
    have hnames : name ∈ names (rest ++ others) ↔ name ∈ names rest ∨ name ∈ names others := by
      rw [names, List.map_append, List.mem_append]
      rfl
    rw [List.cons_append, get?_cons, get?_cons, ih]
    by_cases hothers : name ∈ names others
    · rw [if_pos (hnames.2 (Or.inr hothers)), if_pos hothers, if_pos hothers]
    · rw [if_neg hothers, if_neg hothers]
      simp only [hnames, hothers, or_false]

/-- With distinct names, a lookup finds every property. -/
theorem get?_of_mem {property : PropertyKey × Literal} (hnodup : (names properties).Nodup)
    (hmem : property ∈ properties) : get? properties property.1.name = some property.2 := by
  induction properties with
  | nil => cases hmem
  | cons first rest ih =>
    rw [names_cons, List.nodup_cons] at hnodup
    rw [get?_cons]
    rcases List.mem_cons.1 hmem with rfl | hmem
    · rw [if_neg hnodup.1, if_pos rfl]
    · have hname : property.1.name ∈ names rest := List.mem_map_of_mem hmem
      rw [if_pos hname]
      exact ih hnodup.2 hmem

/-- The value of a name stands at its position. -/
theorem get?_eq_getElem? (properties : Properties) (name : String) :
    get? properties name =
      (position? properties name).bind fun index => properties[index]?.map Prod.snd := by
  induction properties with
  | nil => rfl
  | cons property rest ih =>
    rw [get?_cons, position?_cons]
    by_cases hmem : name ∈ names rest
    · rw [if_pos hmem, if_pos hmem, ih]
      cases position? rest name <;> rfl
    · rw [if_neg hmem, if_neg hmem]
      split <;> rfl

/-- The property at the position of a name has the name. -/
theorem name_of_position? {index : Nat} (h : position? properties name = some index) :
    ∃ property, properties[index]? = some property ∧ property.1.name = name := by
  induction properties generalizing index with
  | nil => cases h
  | cons property rest ih =>
    rw [position?_cons] at h
    split at h
    · obtain ⟨later, hlater, rfl⟩ := Option.map_eq_some_iff.1 h
      exact ih hlater
    · split at h
      next hkey => cases h; exact ⟨property, rfl, hkey⟩
      · cases h

/-- Only the names of two objects matter for their positions. -/
theorem position?_congr (h : names properties = names others) (name : String) :
    position? properties name = position? others name := by
  induction properties generalizing others with
  | nil =>
    cases others with
    | nil => rfl
    | cons property rest => cases h
  | cons property rest ih =>
    cases others with
    | nil => cases h
    | cons property' rest' =>
      rw [names_cons, names_cons, List.cons.injEq] at h
      rw [position?_cons, position?_cons, h.1, h.2, ih h.2]

/-! ## Updates -/

/-- Gives a name its value: in the last property of the name, or in a new one at
the end. -/
def put (properties : Properties) (name : String) (value : Literal) : Properties :=
  if has properties name then replaceLast properties name value
  else add properties name value

theorem replaceLast?_eq_none_iff {value : Literal} :
    replaceLast? properties name value = none ↔ name ∉ names properties := by
  induction properties with
  | nil => simp [replaceLast?]
  | cons property rest ih =>
    rw [replaceLast?, names_cons, List.mem_cons, not_or]
    cases hrest : replaceLast? rest name value with
    | none =>
      have hnot : name ∉ names rest := ih.1 hrest
      by_cases hkey : property.1.name = name
      · simp [hkey]
      · simp [hkey, hnot, Ne.symm hkey]
    | some replaced =>
      have hmem : ¬ name ∉ names rest := fun hnot => by simp [ih.2 hnot] at hrest
      simp [hmem]

/-- Replacing a value in an object with one more property in front. -/
theorem replaceLast_cons (property : PropertyKey × Literal) (rest : Properties) (name : String)
    (value : Literal) :
    replaceLast (property :: rest) name value =
      if name ∈ names rest then property :: replaceLast rest name value
      else if property.1.name = name then (property.1, value) :: rest
      else property :: rest := by
  rw [replaceLast, replaceLast, replaceLast?]
  cases hrest : replaceLast? rest name value with
  | none =>
    rw [if_neg (replaceLast?_eq_none_iff.1 hrest)]
    by_cases hkey : property.1.name = name <;> simp [hkey]
  | some replaced =>
    have hmem : name ∈ names rest := by
      by_contra hnot
      simp [replaceLast?_eq_none_iff.2 hnot] at hrest
    rw [if_pos hmem]
    rfl

/-- A property that has just been added is the last one of its name. -/
theorem replaceLast_add (properties : Properties) (name : String) (old value : Literal) :
    replaceLast (add properties name old) name value = add properties name value := by
  induction properties with
  | nil => simp [add, replaceLast_cons]
  | cons property rest ih =>
    have hmem : name ∈ names (rest ++ [(.ofName name, old)]) := by simp [names]
    rw [add, List.cons_append, replaceLast_cons, if_pos hmem]
    exact congrArg (property :: ·) ih

/-- An update of an object with one more property in front. -/
theorem put_cons (property : PropertyKey × Literal) (rest : Properties) (name : String)
    (value : Literal) :
    put (property :: rest) name value =
      if name ∈ names rest ∨ property.1.name ≠ name then property :: put rest name value
      else (property.1, value) :: rest := by
  by_cases hrest : name ∈ names rest
  · have hput : put rest name value = replaceLast rest name value := by
      rw [put, if_pos (has_iff.2 hrest)]
    have hhas : has (property :: rest) name = true := has_iff.2 (List.mem_cons_of_mem _ hrest)
    rw [if_pos (Or.inl hrest), put, if_pos hhas, replaceLast_cons, if_pos hrest, hput]
  · by_cases hkey : property.1.name = name
    · have hhas : has (property :: rest) name = true := has_iff.2 (by simp [hkey])
      rw [if_neg (by simp [hrest, hkey]), put, if_pos hhas, replaceLast_cons, if_neg hrest,
        if_pos hkey]
    · have hhas : ¬ has (property :: rest) name = true := by
        rw [has_iff]; simp [hrest, Ne.symm hkey]
      have hhas' : ¬ has rest name = true := by rw [has_iff]; exact hrest
      rw [if_pos (Or.inr hkey), put, put, if_neg hhas, if_neg hhas']
      rfl

@[simp] theorem put_nil (name : String) (value : Literal) :
    put [] name value = [(.ofName name, value)] := rfl

theorem put_of_not_mem (h : name ∉ names properties) (value : Literal) :
    put properties name value = properties ++ [(.ofName name, value)] := by
  have hhas : ¬ has properties name = true := by rw [has_iff]; exact h
  rw [put, if_neg hhas, add]

/-- Giving a name the value that it has changes nothing. -/
theorem put_of_get? {value : Literal} (h : get? properties name = some value) :
    put properties name value = properties := by
  induction properties with
  | nil => cases h
  | cons property rest ih =>
    rw [get?_cons] at h
    rw [put_cons]
    split at h
    next hrest => rw [if_pos (Or.inl hrest), ih h]
    next hrest =>
      split at h
      next hkey =>
        cases h
        rw [if_neg (by simp [hrest, hkey])]
      · cases h

/-! ## Frame -/

/-- An update keeps every key at its index, and adds one only for a name that
was missing. -/
theorem keys_put (properties : Properties) (name : String) (value : Literal) :
    (put properties name value).map Prod.fst =
      properties.map Prod.fst ++
        if name ∈ names properties then [] else [PropertyKey.ofName name] := by
  induction properties with
  | nil => simp
  | cons property rest ih =>
    rw [put_cons]
    by_cases hrest : name ∈ names rest
    · have hmem : name ∈ names (property :: rest) := List.mem_cons_of_mem _ hrest
      rw [if_pos hrest] at ih
      rw [if_pos (Or.inl hrest), if_pos hmem, List.map_cons, ih]
      rfl
    · rw [if_neg hrest] at ih
      by_cases hkey : property.1.name = name
      · rw [if_neg (by simp [hrest, hkey]), if_pos (by simp [hkey])]
        simp
      · rw [if_pos (Or.inr hkey), if_neg (by simp [hrest, Ne.symm hkey]), List.map_cons, ih]
        rfl

theorem names_put (properties : Properties) (name : String) (value : Literal) :
    names (put properties name value) =
      names properties ++ if name ∈ names properties then [] else [name] := by
  have hkeys := congrArg (List.map PropertyKey.name) (keys_put properties name value)
  have hnames (properties : Properties) :
      (properties.map Prod.fst).map PropertyKey.name = names properties := by
    rw [List.map_map]; rfl
  rw [hnames, List.map_append, hnames] at hkeys
  rw [hkeys]
  split <;> simp

theorem mem_names_put_of_mem (h : other ∈ names properties) (name : String)
    (value : Literal) : other ∈ names (put properties name value) := by
  rw [names_put]
  exact List.mem_append_left _ h

theorem mem_names_put_of_ne (h : name ≠ other) (value : Literal) :
    other ∈ names (put properties name value) ↔ other ∈ names properties := by
  rw [names_put]
  split <;> simp [Ne.symm h]

@[simp] theorem get?_put_self (properties : Properties) (name : String) (value : Literal) :
    get? (put properties name value) name = some value := by
  induction properties with
  | nil => simp [get?_cons]
  | cons property rest ih =>
    rw [put_cons]
    split
    · have hmem : name ∈ names (put rest name value) := by
        rw [names_put]
        split <;> simp_all
      rw [get?_cons, if_pos hmem, ih]
    next hlast =>
      rw [not_or, not_not] at hlast
      rw [get?_cons, if_neg hlast.1, if_pos hlast.2]

theorem get?_put_of_ne (h : name ≠ other) (value : Literal) :
    get? (put properties name value) other = get? properties other := by
  induction properties with
  | nil => simp [get?_cons, h]
  | cons property rest ih =>
    rw [put_cons]
    split
    · rw [get?_cons, get?_cons, ih]
      simp only [mem_names_put_of_ne h]
    next hlast =>
      rw [not_or, not_not] at hlast
      have hother : property.1.name ≠ other := by rw [hlast.2]; exact h
      rw [get?_cons, get?_cons, if_neg hother, if_neg hother]

theorem position?_put_of_ne (h : name ≠ other) (value : Literal) :
    position? (put properties name value) other = position? properties other := by
  induction properties with
  | nil => simp [position?_cons, h]; rfl
  | cons property rest ih =>
    rw [put_cons]
    split
    · rw [position?_cons, position?_cons, ih]
      simp only [mem_names_put_of_ne h]
    · rw [position?_cons, position?_cons]

/-- An update does not move a name that was there. -/
theorem position?_put_of_mem (h : other ∈ names properties) (name : String)
    (value : Literal) :
    position? (put properties name value) other = position? properties other := by
  by_cases hname : name = other
  · refine position?_congr ?_ other
    rw [names_put, hname, if_pos h, List.append_nil]
  · exact position?_put_of_ne hname value

/-- An update changes no property but the last one of its name. -/
theorem getElem?_put_of_ne {property : PropertyKey × Literal} {index : Nat} (value : Literal)
    (hindex : properties[index]? = some property) (h : position? properties name ≠ some index) :
    (put properties name value)[index]? = some property := by
  induction properties generalizing index with
  | nil => simp at hindex
  | cons first rest ih =>
    rw [position?_cons] at h
    rw [put_cons]
    split
    next hkept =>
      cases index with
      | zero => exact hindex
      | succ index =>
        rw [List.getElem?_cons_succ] at hindex ⊢
        refine ih hindex ?_
        intro hposition
        have hmem : name ∈ names rest := by
          by_contra hnot
          rw [position?_eq_none_iff.2 hnot] at hposition
          cases hposition
        rw [if_pos hmem, hposition] at h
        exact h rfl
    next hlast =>
      rw [not_or, not_not] at hlast
      rw [if_neg hlast.1, if_pos hlast.2] at h
      cases index with
      | zero => exact absurd rfl h
      | succ index => exact hindex

end Properties

/-! ## Nested lookups -/

namespace Literal

/-- The value under a sequence of keys.  There is none below a value that is no
object. -/
def at? : Literal → List String → Option Literal
  | value, [] => some value
  | .object properties, key :: keys => (Properties.get? properties key).bind (at? · keys)
  | _, _ :: _ => none

@[simp] theorem at?_nil (value : Literal) : value.at? [] = some value := by
  cases value <;> rfl

theorem at?_object_cons (properties : Properties) (key : String) (keys : List String) :
    (object properties).at? (key :: keys) =
      (Properties.get? properties key).bind (at? · keys) := rfl

end Literal

end ComponentProps
