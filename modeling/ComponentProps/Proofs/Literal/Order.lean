import ComponentProps.Proofs.Literal.Properties
import Mathlib.Data.List.Perm.Basic
import Mathlib.Data.Option.Basic

/-!
# Properties added in another order

Two literals that are made from a third by adding properties to its objects may
have them in different orders.  `Literal.Rearranged` says that they differ in nothing
else: the properties that were there before stand where they stood, the added ones
are the same but for their order, and so on inside their values.

* `Literal.Rearranged`: equal up to the order of the properties that were added.
* `Literal.Rearranged.at?`: nested lookups do not see the order, as long as they do
  not end at an object.
-/

namespace ComponentProps

namespace Literal

open Properties

/-- Two values that differ at most in the order of the properties that have been
added to a third, at any depth.  In a value that was missing before, all properties
have been added. -/
inductive Rearranged : Literal → Literal → Literal → Prop
  | same (before value : Literal) : Rearranged before value value
  | object {before kept kept' added added' : Properties}
      -- the properties that were there keep their keys and their places
      (hkept : kept.map Prod.fst = before.map Prod.fst)
      (hkept' : kept'.map Prod.fst = before.map Prod.fst)
      (hvalues : ∀ (index : Nat) (old new new' : PropertyKey × Literal),
        before[index]? = some old → kept[index]? = some new → kept'[index]? = some new' →
          Rearranged old.2 new.2 new'.2)
      -- behind them there are the same new names, each once, in any order
      (hadded : (added.map Prod.fst).Perm (added'.map Prod.fst))
      (hmissing : ∀ name ∈ names added, name ∉ names before)
      (hdistinct : (names added).Nodup)
      (hnew : ∀ key new new', (key, new) ∈ added → (key, new') ∈ added' →
        Rearranged (.object []) new new') :
      Rearranged (.object before) (.object (kept ++ added)) (.object (kept' ++ added'))

theorem names_eq_of_keys {properties others : Properties}
    (h : properties.map Prod.fst = others.map Prod.fst) : names properties = names others := by
  have hnames := congrArg (List.map PropertyKey.name) h
  rwa [List.map_map, List.map_map] at hnames

/-- The value of a name that was there stands in the same place in both. -/
theorem get?_kept_cases {before kept kept' : Properties}
    {related : Literal → Literal → Literal → Prop}
    (hkept : kept.map Prod.fst = before.map Prod.fst)
    (hkept' : kept'.map Prod.fst = before.map Prod.fst)
    (hvalues : ∀ (index : Nat) (old new new' : PropertyKey × Literal),
      before[index]? = some old → kept[index]? = some new → kept'[index]? = some new' →
        related old.2 new.2 new'.2) (key : String) :
    (get? before key = none ∧ get? kept key = none ∧ get? kept' key = none) ∨
      ∃ old new new', get? before key = some old ∧ get? kept key = some new ∧
        get? kept' key = some new' ∧ related old new new' := by
  have hposition := position?_congr (names_eq_of_keys hkept) key
  have hposition' := position?_congr (names_eq_of_keys hkept') key
  rw [get?_eq_getElem?, get?_eq_getElem?, get?_eq_getElem?, hposition, hposition']
  cases hindex : position? before key with
  | none => exact Or.inl ⟨rfl, rfl, rfl⟩
  | some index =>
    have hkey {properties : Properties} (h : properties.map Prod.fst = before.map Prod.fst) :
        ∃ property, properties[index]? = some property := by
      obtain ⟨property, hproperty, -⟩ := name_of_position? hindex
      have hlength : index < properties.length := by
        rw [← List.length_map (f := Prod.fst), h, List.length_map]
        exact (List.getElem?_eq_some_iff.1 hproperty).1
      exact ⟨_, List.getElem?_eq_getElem hlength⟩
    obtain ⟨old, hold⟩ := hkey rfl
    obtain ⟨new, hnew⟩ := hkey hkept
    obtain ⟨new', hnew'⟩ := hkey hkept'
    refine Or.inr ⟨old.2, new.2, new'.2, ?_, ?_, ?_, hvalues index old new new' hold hnew hnew'⟩
    · rw [Option.bind_some, hold]
      rfl
    · rw [Option.bind_some, hnew]
      rfl
    · rw [Option.bind_some, hnew']
      rfl

/-- Nothing stands below what is missing. -/
theorem getD_at?_empty (keys : List String) :
    ((object []).at? keys).getD (.object []) = .object [] := by
  cases keys <;> rfl

/-- Under the same keys there is nothing in both, or there are values that differ
at most in the order of the properties that have been added to what was there. -/
theorem Rearranged.at? {before value value' : Literal} (h : Rearranged before value value')
    (keys : List String) :
    Option.Rel (Rearranged ((before.at? keys).getD (.object []))) (value.at? keys)
      (value'.at? keys) := by
  induction keys generalizing before value value' with
  | nil =>
    rw [at?_nil, at?_nil, at?_nil]
    exact .some h
  | cons key keys ih =>
    cases h with
    | same =>
      cases value.at? (key :: keys) with
      | none => exact .none
      | some found => exact .some (.same _ found)
    | @object before kept kept' added added' hkept hkept' hvalues hadded hmissing hdistinct hnew =>
      have hnames : (names added).Perm (names added') := by
        have hperm := hadded.map PropertyKey.name
        rwa [List.map_map, List.map_map] at hperm
      rw [at?_object_cons, at?_object_cons, at?_object_cons, get?_append, get?_append]
      by_cases hname : key ∈ names added
      · obtain ⟨property, hproperty, rfl⟩ := List.mem_map.1 hname
        obtain ⟨property', hproperty', hkey⟩ :=
          List.mem_map.1 (hadded.mem_iff.1 (List.mem_map_of_mem hproperty))
        have hget' := get?_of_mem (hnames.nodup_iff.1 hdistinct) hproperty'
        rw [hkey] at hget'
        rw [if_pos hname, if_pos (hnames.mem_iff.1 hname), get?_of_mem hdistinct hproperty, hget',
          get?_eq_none_iff.2 (hmissing _ hname)]
        have hinner : Rearranged (.object []) property.2 property'.2 := by
          refine hnew property.1 _ _ hproperty ?_
          rw [← hkey]
          exact hproperty'
        have hlookups := ih hinner
        rwa [getD_at?_empty] at hlookups
      · rw [if_neg hname, if_neg (mt hnames.mem_iff.2 hname)]
        rcases get?_kept_cases hkept hkept' hvalues key with
          ⟨-, hnone, hnone'⟩ | ⟨old, new, new', hold, hfound, hfound', hrearranged⟩
        · rw [hnone, hnone']
          exact .none
        · rw [hold, hfound, hfound']
          exact ih hrearranged

end Literal

end ComponentProps
