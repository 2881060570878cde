import ComponentProps.Lowering
import ComponentProps.Text.Split
import Mathlib

/-!
# Plain data as literals

Lowering plain data walks through the objects of a value and stops at the first value in them
that is a list or null.  A value has a literal of its own in any case (`Literal.ofJson`), and
the two agree where there is nothing to stop at.

There are three groups.

* The places of a value.  `Json.Reaches` says what is reached through objects, and
  `Json.places` lists it in the order of the text; `Json.mem_places_iff` ties the two.
  `Json.firstMisfit?` is the first list or null among them.
* The outcome.  `lowerPlainValue_eq` gives it in one equation, from which `lowerPlain_iff`
  says which values are lowered and to what.
* The path of an error.  `foldl_plainPath` says that it leaves out the empty keys at its
  start, and `lowerPlain_error` what it tells about the place of the value.
-/

namespace ComponentProps

/-! ## The places of a value -/

namespace Json

/-- A value is reached from another by a sequence of keys, through objects only. -/
inductive Reaches : Json → List String → Json → Prop
  | self (value : Json) : Reaches value [] value
  | member {members : List (String × Json)} {key : String} {value inner : Json}
      {keys : List String} (hmember : (key, value) ∈ members) (h : Reaches value keys inner) :
      Reaches (.object members) (key :: keys) inner

mutual

/-- The values that are reached from a value through objects, with the keys that lead to
them, in the order of the text: an object comes before what is in it. -/
def places : Json → List (List String × Json)
  | .object members => ([], .object members) :: placesIn members
  | value => [([], value)]

/-- The values that are reached from the members of an object. -/
def placesIn : List (String × Json) → List (List String × Json)
  | [] => []
  | (key, value) :: rest =>
    value.places.map (fun place => (key :: place.1, place.2)) ++ placesIn rest

end

theorem self_mem_places (value : Json) : ([], value) ∈ value.places := by
  cases value <;> simp [places]

theorem mem_placesIn_of_mem {members : List (String × Json)} {key : String} {value : Json}
    (hmember : (key, value) ∈ members) {place : List String × Json}
    (hplace : place ∈ value.places) : (key :: place.1, place.2) ∈ placesIn members := by
  induction members with
  | nil => cases hmember
  | cons first rest ih =>
    rw [placesIn, List.mem_append]
    rcases List.mem_cons.1 hmember with rfl | hmember
    · exact Or.inl (List.mem_map_of_mem hplace)
    · exact Or.inr (ih hmember)

mutual

theorem reaches_of_mem_places :
    (value : Json) → ∀ place ∈ value.places, value.Reaches place.1 place.2
  | .object members, place, hplace => by
    rw [places, List.mem_cons] at hplace
    rcases hplace with rfl | hplace
    · exact .self _
    · obtain ⟨key, value, keys, hmember, hreaches, hkeys⟩ :=
        exists_of_mem_placesIn members place hplace
      rw [hkeys]
      exact .member hmember hreaches
  | .null, place, hplace | .bool _, place, hplace | .number _, place, hplace
  | .text _, place, hplace | .list _, place, hplace => by
    cases List.mem_singleton.1 hplace
    exact .self _

theorem exists_of_mem_placesIn :
    (members : List (String × Json)) → ∀ place ∈ placesIn members,
      ∃ key value keys, (key, value) ∈ members ∧ value.Reaches keys place.2 ∧
        place.1 = key :: keys
  | [], _, hplace => by cases hplace
  | (key, value) :: rest, place, hplace => by
    rw [placesIn, List.mem_append, List.mem_map] at hplace
    rcases hplace with ⟨inner, hinner, rfl⟩ | hplace
    · have hreaches := reaches_of_mem_places value inner hinner
      exact ⟨key, value, inner.1, List.mem_cons_self, hreaches, rfl⟩
    · obtain ⟨key, value, keys, hmember, hreaches, hkeys⟩ :=
        exists_of_mem_placesIn rest place hplace
      exact ⟨key, value, keys, List.mem_cons_of_mem _ hmember, hreaches, hkeys⟩

end

/-- The places of a value are what is reached from it. -/
theorem mem_places_iff {value inner : Json} {keys : List String} :
    (keys, inner) ∈ value.places ↔ value.Reaches keys inner := by
  refine ⟨reaches_of_mem_places value (keys, inner), ?_⟩
  intro h
  induction h with
  | self value => exact self_mem_places value
  | member hmember _ ih =>
    rw [places]
    exact List.mem_cons_of_mem _ (mem_placesIn_of_mem hmember ih)

/-- Lists and nulls have no place in plain data. -/
def isMisfit (value : Json) : Bool := value.kind == .array || value.kind == .null

theorem isMisfit_eq_false_iff {value : Json} :
    value.isMisfit = false ↔ value.kind ≠ .array ∧ value.kind ≠ .null := by
  simp [isMisfit]

/-- The first list or null among the places of a value, with the keys that lead to it. -/
def firstMisfit? (value : Json) : Option (List String × Json) :=
  value.places.find? (·.2.isMisfit)

theorem firstMisfit?_eq_none_iff {value : Json} :
    value.firstMisfit? = none ↔
      ∀ keys inner, value.Reaches keys inner → inner.kind ≠ .array ∧ inner.kind ≠ .null := by
  simp only [firstMisfit?, List.find?_eq_none, Prod.forall, mem_places_iff, Bool.not_eq_true,
    isMisfit_eq_false_iff]

end Json

/-! ## The outcome -/

/-- What is reported of a value below a path. -/
def LowerError.ofPlace (path : String) (place : List String × Json) : LowerError :=
  ⟨place.1.foldl plainPath path, place.2.kind⟩

mutual

/-- Lowering a value stops at its first list or null, and gives the literal of the value if
there is none. -/
theorem lowerPlainValue_eq : (value : Json) → (path : String) →
    lowerPlainValue path value =
      value.firstMisfit?.elim (.ok (Literal.ofJson value)) fun place =>
        .error (LowerError.ofPlace path place)
  | .null, _ | .bool _, _ | .number _, _ | .text _, _ | .list _, _ => rfl
  | .object members, path => by
    have hfirst : (Json.object members).firstMisfit? =
        (Json.placesIn members).find? (·.2.isMisfit) := rfl
    rw [lowerPlainValue, lowerPlainMembers_eq members path, hfirst]
    cases (Json.placesIn members).find? (·.2.isMisfit) <;> rfl

theorem lowerPlainMembers_eq : (members : List (String × Json)) → (path : String) →
    lowerPlainMembers path members =
      ((Json.placesIn members).find? (·.2.isMisfit)).elim (.ok (Literal.ofMembers members))
        fun place => .error (LowerError.ofPlace path place)
  | [], _ => rfl
  | (key, value) :: rest, path => by
    -- the misfits of the first member come before those of the others
    have hfirst : (Json.placesIn ((key, value) :: rest)).find? (·.2.isMisfit) =
        (value.firstMisfit?.map fun place => (key :: place.1, place.2)).or
          ((Json.placesIn rest).find? (·.2.isMisfit)) := by
      rw [Json.placesIn, List.find?_append, List.find?_map]
      rfl
    rw [lowerPlainMembers, lowerPlainValue_eq value (plainPath path key),
      lowerPlainMembers_eq rest path, hfirst]
    cases value.firstMisfit? with
    | some place => rfl
    | none => cases (Json.placesIn rest).find? (·.2.isMisfit) <;> rfl

end

/-- The outcome for an object, which is what plain data has to be. -/
theorem lowerPlain_object (members : List (String × Json)) :
    lowerPlain (.object members) =
      (Json.object members).firstMisfit?.elim (.ok (Literal.ofJson (.object members)))
        fun place => .error (LowerError.ofPlace "" place) :=
  lowerPlainValue_eq (.object members) ""

/-- The values that are lowered are the objects from which no list and no null is reached
through objects, and what they are lowered to is their literal. -/
theorem lowerPlain_iff (value : Json) :
    ((∃ literal, lowerPlain value = .ok literal) ↔
      value.kind = .object ∧
        ∀ keys inner, value.Reaches keys inner → inner.kind ≠ .array ∧ inner.kind ≠ .null) ∧
      ∀ literal, lowerPlain value = .ok literal → literal = Literal.ofJson value := by
  cases value with
  | object members =>
    rw [lowerPlain_object, ← Json.firstMisfit?_eq_none_iff]
    cases (Json.object members).firstMisfit? with
    | none => simp [Json.kind, eq_comm]
    | some place => simp
  | _ => simp [lowerPlain, Json.kind]

/-! ## The path of an error -/

/-- Below a path that is not empty, every key is appended. -/
theorem foldl_plainPath_of_ne {path : String} (hpath : path ≠ "") (keys : List String) :
    keys.foldl plainPath path = ".".intercalate (path :: keys) := by
  induction keys generalizing path with
  | nil => rfl
  | cons key rest ih =>
    have hlonger : path ++ "." ++ key ≠ "" := by simp
    rw [List.foldl_cons, plainPath, if_neg hpath, ih hlonger]
    rfl

/-- At the root, the empty keys up to the first other key are left out. -/
theorem foldl_plainPath (keys : List String) :
    keys.foldl plainPath "" = ".".intercalate (keys.dropWhile String.isEmpty) := by
  induction keys with
  | nil => rfl
  | cons key rest ih =>
    rw [List.foldl_cons, plainPath, if_pos rfl]
    by_cases hkey : key = ""
    · rw [hkey, ih, List.dropWhile_cons_of_pos rfl]
    · rw [foldl_plainPath_of_ne hkey, List.dropWhile_cons_of_neg (by simpa using hkey)]

theorem length_intercalate_dropWhile_le (keys : List String) :
    (".".intercalate (keys.dropWhile String.isEmpty)).length ≤ (".".intercalate keys).length := by
  induction keys with
  | nil => exact Nat.le_refl _
  | cons key rest ih =>
    by_cases hkey : key.isEmpty
    · rw [List.dropWhile_cons_of_pos hkey]
      by_cases hrest : rest = []
      · simp [hrest]
      · rw [String.intercalate_cons_of_ne_nil hrest, String.length_append]
        omega
    · rw [List.dropWhile_cons_of_neg hkey]

/-- The path holds all keys unless the first of several is empty. -/
theorem intercalate_dropWhile_eq_iff {keys : List String} :
    ".".intercalate (keys.dropWhile String.isEmpty) = ".".intercalate keys ↔
      keys.head? ≠ some "" ∨ keys = [""] := by
  cases keys with
  | nil => simp
  | cons key rest =>
    by_cases hkey : key = ""
    · subst hkey
      rw [List.dropWhile_cons_of_pos rfl]
      by_cases hrest : rest = []
      · simp [hrest]
      · have hle := length_intercalate_dropWhile_le rest
        simp only [hrest, List.head?_cons, ne_eq, not_true_eq_false, List.cons.injEq, true_and,
          or_self, iff_false]
        intro heq
        rw [heq, String.intercalate_cons_of_ne_nil hrest, String.length_append,
          String.length_append] at hle
        have hdot : ".".length = 1 := rfl
        omega
    · rw [List.dropWhile_cons_of_neg (by simpa using hkey)]
      simp [hkey]

theorem eq_nil_of_intercalate_eq_empty {keys : List String}
    (hkeys : ∀ key ∈ keys, '.' ∉ key.toList) (hhead : keys.head? ≠ some "")
    (h : ".".intercalate keys = "") : keys = [] := by
  by_contra hnil
  have honly : keys = [""] := by
    calc keys = Text.split '.' (".".intercalate keys) := (Text.split_intercalate hnil hkeys).symm
      _ = Text.split '.' "" := by rw [h]
      _ = [""] := rfl
  rw [honly] at hhead
  exact hhead rfl

/-- Without a dot in a key, the path tells the keys that do not start with an empty one. -/
theorem intercalate_inj {keys others : List String} (hkeys : ∀ key ∈ keys, '.' ∉ key.toList)
    (hothers : ∀ key ∈ others, '.' ∉ key.toList) (hhead : keys.head? ≠ some "")
    (hhead' : others.head? ≠ some "") (h : ".".intercalate keys = ".".intercalate others) :
    keys = others := by
  by_cases hnil : keys = []
  · rw [hnil] at h ⊢
    exact (eq_nil_of_intercalate_eq_empty hothers hhead' h.symm).symm
  by_cases hnil' : others = []
  · rw [hnil'] at h ⊢
    exact eq_nil_of_intercalate_eq_empty hkeys hhead h
  calc keys = Text.split '.' (".".intercalate keys) := (Text.split_intercalate hnil hkeys).symm
    _ = Text.split '.' (".".intercalate others) := by rw [h]
    _ = others := Text.split_intercalate hnil' hothers

theorem head?_dropWhile_isEmpty_ne (keys : List String) :
    (keys.dropWhile String.isEmpty).head? ≠ some "" := by
  intro h
  have hfirst := List.head?_dropWhile_not String.isEmpty keys
  rw [h] at hfirst
  cases hfirst

/-- Without a dot in a key, paths are the same for the same keys, but for the empty ones that
are left out. -/
theorem intercalate_dropWhile_inj {keys others : List String}
    (hkeys : ∀ key ∈ keys, '.' ∉ key.toList) (hothers : ∀ key ∈ others, '.' ∉ key.toList) :
    ".".intercalate (keys.dropWhile String.isEmpty) =
        ".".intercalate (others.dropWhile String.isEmpty) ↔
      keys.dropWhile String.isEmpty = others.dropWhile String.isEmpty := by
  have hwritten : ∀ key ∈ keys.dropWhile String.isEmpty, '.' ∉ key.toList :=
    fun key hkey => hkeys key (List.dropWhile_subset _ hkey)
  have hwritten' : ∀ key ∈ others.dropWhile String.isEmpty, '.' ∉ key.toList :=
    fun key hkey => hothers key (List.dropWhile_subset _ hkey)
  refine ⟨?_, congrArg _⟩
  exact intercalate_inj hwritten hwritten' (head?_dropWhile_isEmpty_ne keys)
    (head?_dropWhile_isEmpty_ne others)

/-- An object is refused for its first list or null. -/
theorem lowerPlain_object_eq_error_iff {members : List (String × Json)} {error : LowerError} :
    lowerPlain (.object members) = .error error ↔
      ∃ keys misfit, (Json.object members).firstMisfit? = some (keys, misfit) ∧
        error = ⟨".".intercalate (keys.dropWhile String.isEmpty), misfit.kind⟩ := by
  rw [lowerPlain_object]
  cases (Json.object members).firstMisfit? with
  | none => simp
  | some place =>
    obtain ⟨keys, misfit⟩ := place
    simp [LowerError.ofPlace, foldl_plainPath, eq_comm]

/-- An object that is refused is so for its first list or null, whose kind is reported.  The
path holds the keys that lead there without the empty ones at the start.  So it holds all of
them exactly if the first is not empty or is the only one, and two values that are reached by
keys without dots have the same path exactly if these keys differ at most in how many empty
ones they start with. -/
theorem lowerPlain_error {members : List (String × Json)} {error : LowerError}
    (h : lowerPlain (.object members) = .error error) :
    ∃ keys misfit, (Json.object members).firstMisfit? = some (keys, misfit) ∧
      error.kind = misfit.kind ∧
      error.path = ".".intercalate (keys.dropWhile String.isEmpty) ∧
      (error.path = ".".intercalate keys ↔ keys.head? ≠ some "" ∨ keys = [""]) ∧
      ∀ others other, lowerPlain (.object others) = .error other →
        ∃ otherKeys otherMisfit,
          (Json.object others).firstMisfit? = some (otherKeys, otherMisfit) ∧
          ((∀ key ∈ keys, '.' ∉ key.toList) → (∀ key ∈ otherKeys, '.' ∉ key.toList) →
            (error.path = other.path ↔
              keys.dropWhile String.isEmpty = otherKeys.dropWhile String.isEmpty)) := by
  obtain ⟨keys, misfit, hfirst, rfl⟩ := lowerPlain_object_eq_error_iff.1 h
  refine ⟨keys, misfit, hfirst, rfl, rfl, intercalate_dropWhile_eq_iff, ?_⟩
  intro others other hother
  obtain ⟨otherKeys, otherMisfit, hfirst', rfl⟩ := lowerPlain_object_eq_error_iff.1 hother
  refine ⟨otherKeys, otherMisfit, hfirst', ?_⟩
  intro hkeys hotherKeys
  exact intercalate_dropWhile_inj hkeys hotherKeys

/-- An empty key that is not the first stays in the path; the list comes before the null. -/
theorem lowerPlain_error_inner_key :
    let members : List (String × Json) :=
      [("x", .object [("y", .bool true)]),
        ("a", .object [("", .object [("b", .list [.null])])]), ("c", .null)]
    lowerPlain (.object members) = .error ⟨"a..b", .array⟩ ∧
      ∃ keys misfit, (Json.object members).firstMisfit? = some (keys, misfit) ∧
        keys = ["a", "", "b"] ∧ misfit.kind = .array ∧ "a..b" = ".".intercalate keys := by
  intro members
  have hlower : lowerPlain (.object members) = .error ⟨"a..b", .array⟩ := rfl
  obtain ⟨keys, misfit, hfirst, hkind, -, hwhole, -⟩ := lowerPlain_error hlower
  have hkeys : keys = ["a", "", "b"] := by
    have hplace : (Json.object members).firstMisfit? = some (["a", "", "b"], .list [.null]) := rfl
    rw [hplace] at hfirst
    cases hfirst
    rfl
  refine ⟨hlower, keys, misfit, hfirst, hkeys, hkind.symm, hwhole.2 (Or.inl ?_)⟩
  rw [hkeys]
  decide

/-- An empty key at the start is left out of the path, so that a null below it and a null
that stands at the root have the same path. -/
theorem lowerPlain_leading_empty_key :
    let value : Json := .object [("", .object [("a", .null)])]
    value.firstMisfit? = some (["", "a"], .null) ∧
      lowerPlain value = .error ⟨"a", .null⟩ ∧
      "a" ≠ ".".intercalate ["", "a"] ∧
      (Json.object [("a", .null)]).firstMisfit? = some (["a"], .null) ∧
      lowerPlain (.object [("a", .null)]) = .error ⟨"a", .null⟩ := by
  intro value
  exact ⟨rfl, rfl, by decide, rfl, rfl⟩

end ComponentProps
