/-!
# Insertion-ordered tables

A table lists named entries in the order in which the names first came up.
Writing to a name that is present replaces its value where it stands; a new
name goes to the end.  Every table that this library builds has distinct
names.

* `insert_of_not_mem`, `insert_of_get?`, `keys_insert`: what an insertion does to the list.
* `get?_insert_self`, `get?_insert_of_ne`: what it does to a lookup.
* `mem_keys_iff`, `eq_nil_iff_of_perm`: the names alone.
* `get?_eq_some_iff`: with distinct names, a lookup finds every entry.
* `nodup_keys_insert`, `nodup_keys_ofEntries`: names stay distinct.
* `mem_keys_insertAll`, `mem_of_mem_insertAll`: which names and entries there are.
* `keys_ofEntries`: names stand in the order of their first occurrences.
* `ofEntries_of_nodup`: entries with distinct names are a table as they are.
* `ofEntries_eq_nil_iff`: a table is empty only without entries.

Types that nest tables inside themselves hold plain lists of pairs; the
functions here apply to those as well.
-/

namespace ComponentProps

/-- Named entries in the order in which their names first came up. -/
abbrev Table (α : Type) := List (String × α)

namespace Table

variable {α : Type}

/-- The names of the entries, in order. -/
def keys (table : Table α) : List String := table.map Prod.fst

/-- The value of the first entry called `name`. -/
def get? : Table α → String → Option α
  | [], _ => none
  | (key, value) :: rest, name => if key = name then some value else get? rest name

/-- Whether some entry is called `name`. -/
def contains (table : Table α) (name : String) : Bool := (get? table name).isSome

/-- Replaces the value of `name` where it stands, or adds it at the end. -/
def insert : Table α → String → α → Table α
  | [], name, value => [(name, value)]
  | (key, old) :: rest, name, value =>
    if key = name then (key, value) :: rest else (key, old) :: insert rest name value

/-- Inserts entries one after the other: a repeated name keeps its first place
and takes its last value. -/
def insertAll (table : Table α) (entries : List (String × α)) : Table α :=
  entries.foldl (fun table entry => insert table entry.1 entry.2) table

/-- The table of a list of entries. -/
def ofEntries (entries : List (String × α)) : Table α := insertAll [] entries

/-! ## Lookups -/

@[simp] theorem keys_nil : keys ([] : Table α) = [] := rfl

@[simp] theorem keys_cons (entry : String × α) (rest : Table α) :
    keys (entry :: rest) = entry.1 :: keys rest := rfl

theorem mem_keys_iff {table : Table α} {name : String} :
    name ∈ keys table ↔ ∃ value, (name, value) ∈ table := by
  simp [keys]

/-- Tables with the same names are empty together. -/
theorem eq_nil_iff_of_perm {β : Type} {table : Table α} {others : Table β}
    (h : (keys table).Perm (keys others)) : table = [] ↔ others = [] := by
  have hlength : table.length = others.length := by
    simpa [keys] using h.length_eq
  rw [← List.length_eq_zero_iff, hlength, List.length_eq_zero_iff]

theorem get?_eq_none_iff {table : Table α} {name : String} :
    get? table name = none ↔ name ∉ keys table := by
  induction table with
  | nil => simp [get?]
  | cons entry rest ih =>
    by_cases h : entry.1 = name
    · simp [get?, h]
    · simp [get?, h, ih, Ne.symm h]

theorem mem_of_get? {table : Table α} {name : String} {value : α}
    (h : get? table name = some value) : (name, value) ∈ table := by
  induction table with
  | nil => cases h
  | cons entry rest ih =>
    rw [get?] at h
    split at h
    next hname =>
      cases h
      cases hname
      exact List.mem_cons_self
    next hname => exact List.mem_cons_of_mem _ (ih h)

/-- With distinct names, a lookup finds every entry. -/
theorem get?_eq_some_iff {table : Table α} (hkeys : (keys table).Nodup) {name : String}
    {value : α} : get? table name = some value ↔ (name, value) ∈ table := by
  refine ⟨mem_of_get?, ?_⟩
  intro hmem
  induction table with
  | nil => cases hmem
  | cons entry rest ih =>
    rw [keys_cons, List.nodup_cons] at hkeys
    rcases List.mem_cons.1 hmem with rfl | hmem
    · rw [get?, if_pos rfl]
    · have hne : entry.1 ≠ name := by
        intro heq
        exact hkeys.1 (heq ▸ List.mem_map_of_mem hmem)
      rw [get?, if_neg hne]
      exact ih hkeys.2 hmem

/-- A lookup in two tables, one behind the other. -/
theorem get?_append (table others : Table α) (name : String) :
    get? (table ++ others) name = (get? table name).or (get? others name) := by
  induction table with
  | nil => rfl
  | cons entry rest ih =>
    rw [List.cons_append, get?, get?]
    split
    · rfl
    · exact ih

theorem contains_iff {table : Table α} {name : String} :
    contains table name = true ↔ name ∈ keys table := by
  rw [contains, Option.isSome_iff_ne_none, ne_eq, get?_eq_none_iff, Classical.not_not]

@[simp] theorem get?_insert_self (table : Table α) (name : String) (value : α) :
    get? (insert table name value) name = some value := by
  induction table with
  | nil => simp [insert, get?]
  | cons entry rest ih =>
    by_cases h : entry.1 = name <;> simp [insert, get?, h, ih]

theorem get?_insert_of_ne {table : Table α} {name other : String} (value : α)
    (h : name ≠ other) : get? (insert table name value) other = get? table other := by
  induction table with
  | nil => simp [insert, get?, h]
  | cons entry rest ih =>
    by_cases hkey : entry.1 = name
    · have hother : entry.1 ≠ other := hkey ▸ h
      simp [insert, get?, hkey, h]
    · by_cases hother : entry.1 = other <;> simp [insert, get?, hkey, hother, h.symm, ih]

/-! ## Names -/

/-- An insertion passes over entries with other names. -/
theorem insert_append_of_not_mem {table : Table α} {name : String} (others : Table α) (value : α)
    (h : name ∉ keys table) :
    insert (table ++ others) name value = table ++ insert others name value := by
  induction table with
  | nil => rfl
  | cons entry rest ih =>
    rw [keys_cons, List.mem_cons, not_or] at h
    rw [List.cons_append, insert, if_neg (Ne.symm h.1), ih h.2, List.cons_append]

theorem insert_of_not_mem {table : Table α} {name : String} (value : α)
    (h : name ∉ keys table) : insert table name value = table ++ [(name, value)] := by
  simpa [insert] using insert_append_of_not_mem [] value h

theorem keys_insert (table : Table α) (name : String) (value : α) :
    keys (insert table name value) =
      if name ∈ keys table then keys table else keys table ++ [name] := by
  induction table with
  | nil => simp [insert]
  | cons entry rest ih =>
    by_cases h : entry.1 = name
    · simp [insert, h]
    · by_cases hrest : name ∈ keys rest <;> simp [insert, h, ih, hrest, Ne.symm h]

/-- Writing what is there already changes nothing. -/
theorem insert_of_get? {table : Table α} {name : String} {value : α}
    (h : get? table name = some value) : insert table name value = table := by
  induction table with
  | nil => cases h
  | cons entry rest ih =>
    rw [get?] at h
    rw [insert]
    split at h
    next hname =>
      cases h
      rw [if_pos hname]
    next hname => rw [if_neg hname, ih h]

/-- An insertion brings no other entry than its own. -/
theorem mem_of_mem_insert {table : Table α} {name : String} {value : α} {entry : String × α}
    (h : entry ∈ insert table name value) : entry = (name, value) ∨ entry ∈ table := by
  induction table with
  | nil => exact Or.inl (List.mem_singleton.1 h)
  | cons first rest ih =>
    rw [insert] at h
    split at h
    next hname =>
      rcases List.mem_cons.1 h with rfl | h
      · exact Or.inl (by rw [hname])
      · exact Or.inr (List.mem_cons_of_mem _ h)
    next hname =>
      rcases List.mem_cons.1 h with rfl | h
      · exact Or.inr List.mem_cons_self
      · exact (ih h).imp_right (List.mem_cons_of_mem _)

theorem nodup_keys_insert {table : Table α} (name : String) (value : α)
    (h : (keys table).Nodup) : (keys (insert table name value)).Nodup := by
  rw [keys_insert]
  split
  · exact h
  next hname =>
    rw [List.nodup_append]
    refine ⟨h, by simp, ?_⟩
    intro key hkey other hother
    simp only [List.mem_singleton] at hother
    exact fun heq => hname (hother ▸ heq ▸ hkey)

theorem nodup_keys_insertAll {table : Table α} (entries : List (String × α))
    (h : (keys table).Nodup) : (keys (insertAll table entries)).Nodup := by
  induction entries generalizing table with
  | nil => exact h
  | cons entry rest ih => exact ih (nodup_keys_insert entry.1 entry.2 h)

theorem nodup_keys_ofEntries (entries : List (String × α)) :
    (keys (ofEntries entries)).Nodup :=
  nodup_keys_insertAll entries (by simp)

/-- The names of a table are those that were inserted. -/
theorem mem_keys_insertAll {table : Table α} {entries : List (String × α)} {name : String} :
    name ∈ keys (insertAll table entries) ↔ name ∈ keys table ∨ name ∈ keys entries := by
  induction entries generalizing table with
  | nil => simp [insertAll]
  | cons entry rest ih =>
    have hstep : insertAll table (entry :: rest) =
        insertAll (insert table entry.1 entry.2) rest := rfl
    have hinsert : name ∈ keys (insert table entry.1 entry.2) ↔
        name ∈ keys table ∨ name = entry.1 := by
      rw [keys_insert]
      split
      next hmem => exact ⟨Or.inl, fun h => h.elim id fun heq => heq ▸ hmem⟩
      · simp
    rw [hstep, ih, hinsert, keys_cons, List.mem_cons, or_assoc]

/-- Names keep their first places while entries are inserted. -/
theorem keys_insertAll {table : Table α} {done : List String} (entries : List (String × α))
    (h : keys table = done.eraseDups) :
    keys (insertAll table entries) = (done ++ keys entries).eraseDups := by
  induction entries generalizing table done with
  | nil => rw [keys_nil, List.append_nil, ← h, insertAll, List.foldl_nil]
  | cons entry rest ih =>
    have hstep : keys (insert table entry.1 entry.2) = (done ++ [entry.1]).eraseDups := by
      rw [keys_insert, h, List.eraseDups_append]
      by_cases hdone : entry.1 ∈ done <;> simp [List.removeAll, List.eraseDups_cons, hdone]
    have hrest := ih hstep
    rwa [List.append_assoc, List.singleton_append] at hrest

/-- A table has the names of its entries, each at its first occurrence. -/
theorem keys_ofEntries (entries : List (String × α)) :
    keys (ofEntries entries) = (keys entries).eraseDups := by
  have h : keys ([] : Table α) = [].eraseDups := rfl
  exact keys_insertAll entries h

/-- The entries of a table are among those that were inserted. -/
theorem mem_of_mem_insertAll {table : Table α} {entries : List (String × α)}
    {entry : String × α} (h : entry ∈ insertAll table entries) :
    entry ∈ table ∨ entry ∈ entries := by
  induction entries generalizing table with
  | nil => exact Or.inl h
  | cons first rest ih =>
    rcases ih h with h | h
    · rcases mem_of_mem_insert h with rfl | h
      · exact Or.inr List.mem_cons_self
      · exact Or.inl h
    · exact Or.inr (List.mem_cons_of_mem _ h)

theorem insertAll_of_nodup {table entries : Table α}
    (h : (keys (table ++ entries)).Nodup) : insertAll table entries = table ++ entries := by
  induction entries generalizing table with
  | nil => simp [insertAll]
  | cons entry rest ih =>
    have hnew : entry.1 ∉ keys table := by
      intro hmem
      rw [keys, List.map_append, List.nodup_append] at h
      exact h.2.2 entry.1 hmem entry.1 (by simp) rfl
    have hstep : insertAll table (entry :: rest) = insertAll (table ++ [entry]) rest := by
      simp [insertAll, insert_of_not_mem entry.2 hnew]
    rw [hstep, ih (by simpa using h)]
    simp

theorem ofEntries_of_nodup {entries : Table α} (h : (keys entries).Nodup) :
    ofEntries entries = entries := by
  have h' : (keys ([] ++ entries)).Nodup := by simpa using h
  simpa [ofEntries] using insertAll_of_nodup h'

/-- No entry gets lost altogether, so a table is empty only without entries. -/
theorem ofEntries_eq_nil_iff {entries : List (String × α)} :
    ofEntries entries = [] ↔ entries = [] := by
  constructor
  · intro h
    cases entries with
    | nil => rfl
    | cons entry rest =>
      have hmem : entry.1 ∈ keys (ofEntries (entry :: rest)) :=
        mem_keys_insertAll.2 (Or.inr List.mem_cons_self)
      rw [h] at hmem
      cases hmem
  · rintro rfl
    rfl

end Table

end ComponentProps
