import ComponentProps.Proofs.Inference.Declared

/-!
# The members of a choice

A `one_of` contributes one slot for each key of its values.  Repeated values are dropped
first, and as values of different kinds may share a key, repeated keys are dropped when the
slots are collected.  The two together keep every key where it comes up first, as if the
keys had been taken alone.

* `Choice.insertAll_distinctFrom`: a value that is dropped would have changed nothing.
* `Choice.eraseDups_keys_distinct`: the keys of the values that are kept.
* `Entry.slot_oneOf_distinct`: the slots that are collected.
* `Declaration.exists_slot_oneOf`: the members of a `one_of`.
-/

namespace ComponentProps

namespace Choice

/-- A value that is dropped would have changed nothing, as its key is there already. -/
theorem insertAll_distinctFrom {α : Type} {table : Table α} {known : List Choice} {value : α}
    (choices : List Choice) (h : ∀ choice ∈ known, Table.get? table choice.key = some value) :
    Table.insertAll table ((distinctFrom known choices).map fun choice => (choice.key, value)) =
      Table.insertAll table (choices.map fun choice => (choice.key, value)) := by
  induction choices generalizing table known with
  | nil => rfl
  | cons first rest ih =>
    have hinsert (others : List Choice) :
        Table.insertAll table ((first :: others).map fun choice => (choice.key, value)) =
          Table.insertAll (Table.insert table first.key value)
            (others.map fun choice => (choice.key, value)) := rfl
    rw [distinctFrom, hinsert]
    split
    next hknown =>
      obtain ⟨other, hother, hsame⟩ := List.any_eq_true.1 hknown
      have hpresent : Table.get? table first.key = some value := by
        rw [key_eq_of_same hsame]
        exact h other hother
      rw [Table.insert_of_get? hpresent]
      exact ih h
    next hnew =>
      rw [hinsert]
      apply ih
      intro choice hchoice
      by_cases hkey : first.key = choice.key
      · rw [hkey, Table.get?_insert_self]
      · rw [Table.get?_insert_of_ne value hkey]
        rcases List.mem_cons.1 hchoice with rfl | hchoice
        · exact absurd rfl hkey
        · exact h choice hchoice

/-- The table of the distinct values is that of all values. -/
theorem ofEntries_distinct {α : Type} (choices : List Choice) (value : α) :
    Table.ofEntries ((distinct choices).map fun choice => (choice.key, value)) =
      Table.ofEntries (choices.map fun choice => (choice.key, value)) := by
  apply insertAll_distinctFrom
  intro choice hchoice
  cases hchoice

theorem keys_entries {α : Type} (choices : List Choice) (value : α) :
    Table.keys (choices.map fun choice => (choice.key, value)) = choices.map key := by
  rw [Table.keys, List.map_map]
  rfl

/-- The keys of the distinct values are those of all values, in the same order. -/
theorem eraseDups_keys_distinct (choices : List Choice) :
    ((distinct choices).map key).eraseDups = (choices.map key).eraseDups := by
  have hkeys := congrArg Table.keys (ofEntries_distinct choices ())
  rwa [Table.keys_ofEntries, Table.keys_ofEntries, keys_entries, keys_entries] at hkeys

end Choice

/-- The distinct values of a list have one leaf for each key, in the order in which the keys
come up. -/
theorem Entry.slot_oneOf_distinct {choices : List Choice} (h : choices ≠ []) :
    (oneOf (Choice.distinct choices)).slot =
      .nested ((choices.map Choice.key).eraseDups.map fun key => (key, .leaf .any)) := by
  have hdistinct : Choice.distinct choices ≠ [] := mt Choice.distinct_eq_nil_iff.1 h
  rw [slot_oneOf_of_ne_nil hdistinct, Choice.ofEntries_distinct]
  congr 1
  generalize hentries : choices.map (fun choice => (choice.key, Slot.leaf .any)) = entries
  have hleaf : ∀ entry ∈ Table.ofEntries entries, (entry.1, Slot.leaf .any) = entry := by
    intro entry hentry
    rcases Table.mem_of_mem_insertAll hentry with hentry | hentry
    · cases hentry
    · rw [← hentries] at hentry
      obtain ⟨choice, -, rfl⟩ := List.mem_map.1 hentry
      rfl
  rw [← Choice.keys_entries choices (Slot.leaf .any), hentries, ← Table.keys_ofEntries,
    Table.keys, List.map_map]
  exact ((List.map_congr_left hleaf).trans (List.map_id' _)).symm

/-- The members of a `one_of`.  A call with at least one value contributes one leaf without a
type for each key of its values, in the order in which the keys first come up, whichever
values are repeated.  Dropping repeated values before the keys are collected makes no
difference to the keys or to their order. -/
theorem Declaration.exists_slot_oneOf {choices : List Choice} (h : choices ≠ []) (prop : String)
    (more : List Argument) :
    ∃ entry, (call "one_of" (.choices choices :: more)).resolve prop = .ok entry ∧
      entry.slot =
        .nested ((choices.map Choice.key).eraseDups.map fun key => (key, .leaf .any)) ∧
      ((Choice.distinct choices).map Choice.key).eraseDups =
        (choices.map Choice.key).eraseDups := by
  refine ⟨_, rfl, ?_, ?_⟩
  · exact Entry.slot_oneOf_distinct h
  · exact Choice.eraseDups_keys_distinct choices

/-- Values of several kinds that share their keys, zeros of both signs, and two values that
are not numbers. -/
theorem Declaration.exists_slot_oneOf_shared_keys :
    ∃ entry, (call "one_of" [.choices [.text "1", .number 0, .number 1, .number (-0.0),
        .number (Float.ofBits 0x7ff8000000000000), .null, .bool true, .text "NaN", .text "true",
        .number (0.0 / 0.0), .text "null", .number 1, .text "0"]]).resolve "size" = .ok entry ∧
      entry.slot = .nested [("1", .leaf .any), ("0", .leaf .any), ("NaN", .leaf .any),
        ("null", .leaf .any), ("true", .leaf .any)] := by
  have hne := List.cons_ne_nil (Choice.text "1") [.number 0, .number 1, .number (-0.0),
    .number (Float.ofBits 0x7ff8000000000000), .null, .bool true, .text "NaN", .text "true",
    .number (0.0 / 0.0), .text "null", .number 1, .text "0"]
  obtain ⟨entry, hresolve, hslot, -⟩ := Declaration.exists_slot_oneOf hne "size" []
  have hmembers {keys : List String} (members : List String) (h : keys = members) :
      Slot.nested (keys.map fun key => (key, .leaf .any)) =
        .nested (members.map fun key => (key, .leaf .any)) := by rw [h]
  exact ⟨entry, hresolve,
    hslot.trans (hmembers ["1", "0", "NaN", "null", "true"] (by decide +kernel))⟩

end ComponentProps
