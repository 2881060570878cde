import ComponentProps.Proofs.Accessor.Order
import ComponentProps.Proofs.Declaration.Order
import ComponentProps.Proofs.Inference.Filled
import ComponentProps.Proofs.Inference.Leaves

/-!
# Inference in another order

The order of the reads and of the declarations decides in which order a shape
lists its properties, and nothing else.

A shape is known by its leaves, since no object in it is empty
(`Slot.same_of_sameLeaves`), and the leaves are read off the reads and the
declarations (`at?_level_iff_leafAt`).  So it is enough to find every leaf again
in the other order, which `Inference.LeafAt.reordered` does.

* `Accessors.Reordered`: reads in another order, in either form.
* `Inference.Agree`: results that are equal but for the order of properties.
* `infer_reordered`: inputs in another order give such results.
-/

namespace ComponentProps

/-! ## Reads -/

/-- The reads of a component in another order.  Dotted paths may also be repeated. -/
inductive Accessors.Reordered : Accessors → Accessors → Prop
  | tree {reads others : Table Access} (h : Access.Reordered reads others) :
      Reordered (.tree reads) (.tree others)
  | dotted {paths others : List String} (h : ∀ path, path ∈ paths ↔ path ∈ others) :
      Reordered (.dotted paths) (.dotted others)

theorem Accessors.Reordered.reads {accessors others : Accessors}
    (h : accessors.Reordered others) : Access.Reordered accessors.reads others.reads := by
  cases h with
  | tree h => exact h
  | dotted h => exact Access.reordered_ofPaths h

namespace Inference

/-! ## Leaves -/

variable {deep : Bool} {reads reads' : List (String × Access)}
  {declarations declarations' : List (String × Declaration)}

/-- Every leaf is found again in another order. -/
theorem LeafAt.reordered (hreads : Access.Reordered reads reads')
    (hdeclarations : Declaration.ReorderedTable declarations declarations')
    {keys : List String} {tag : Tag} (h : LeafAt deep declarations reads keys tag) :
    LeafAt deep declarations' reads' keys tag := by
  have hlevels {names : List String} {below : List (String × Access)}
      (hlevel : Expanded deep (Table.keys declarations) reads names below) :
      ∃ below', Expanded deep (Table.keys declarations') reads' names below' ∧
        Access.Reordered below below' :=
    hlevel.counterpart (fun h => h.exists_mem) id
      (fun _ hname => hdeclarations.names.mem_iff.2 hname) hreads
  cases h with
  | read hlevel hread hname hplain =>
    obtain ⟨below', hlevel', hbelow⟩ := hlevels hlevel
    obtain ⟨other, hother, hchildren⟩ := hbelow.exists_mem hread
    refine .read hlevel' hother (fun h => hname (hdeclarations.names.mem_iff.2 h)) ?_
    intro hexpands
    exact hplain ⟨hexpands.1, fun hnone => hexpands.2 (hchildren.eq_nil_iff.1 hnone)⟩
  | declared hlevel hdeclaration htag =>
    obtain ⟨below', hlevel', -⟩ := hlevels hlevel
    obtain ⟨other, hother, hreordered⟩ := hdeclarations.exists_mem hdeclaration
    exact .declared hlevel' hother (hreordered.declares htag)

/-- Levels of the same reads and declarations in another order are the same up to
the order of their keys. -/
theorem same_level (hreads : Access.WellFormedTable reads)
    (hnodup : (Table.keys declarations).Nodup)
    (hfields : ∀ entry ∈ declarations, entry.2.DistinctFields)
    (hreordered : Access.Reordered reads reads')
    (hdeclarations : Declaration.ReorderedTable declarations declarations')
    (hsome : reads ≠ [] ∨ declarations ≠ []) {declared declared' : List (String × Slot)}
    (hdeclared : resolveAll declarations = .ok declared)
    (hdeclared' : resolveAll declarations' = .ok declared') :
    Shape.same (level deep declared reads) (level deep declared' reads') = true := by
  have hreads' : Access.WellFormedTable reads' := hreordered.wellFormed hreads
  have hnodup' : (Table.keys declarations').Nodup := hdeclarations.names.nodup_iff.1 hnodup
  have hfields' : ∀ entry ∈ declarations', entry.2.DistinctFields :=
    hdeclarations.distinctFields hfields
  have hleaves : (Slot.nested (level deep declared reads)).SameLeaves
      (.nested (level deep declared' reads')) := by
    intro keys tag
    rw [at?_level_iff_leafAt hreads hnodup hfields hdeclared,
      at?_level_iff_leafAt hreads' hnodup' hfields' hdeclared']
    exact ⟨.reordered hreordered hdeclarations, .reordered hreordered.symm hdeclarations.symm⟩
  have hsome' : reads' ≠ [] ∨ declarations' ≠ [] :=
    hsome.imp (mt hreordered.eq_nil_iff.2) (mt (Table.eq_nil_iff_of_perm hdeclarations.names).2)
  have hlevel : (Slot.nested (level deep declared reads)).WellFormed :=
    wellFormed_level (wellFormed_of_resolveAll hfields hdeclared) reads
  have hlevel' : (Slot.nested (level deep declared' reads')).WellFormed :=
    wellFormed_level (wellFormed_of_resolveAll hfields' hdeclared') reads'
  exact Slot.same_of_sameLeaves hlevel hlevel' (filled_level_of_resolveAll hsome hdeclared)
    (filled_level_of_resolveAll hsome' hdeclared') hleaves

/-! ## Results -/

/-- Two results of inference agree: both fail, both give no shape, or both give
shapes that are equal but for the order of properties. -/
inductive Agree : Except UnsupportedField (Option Shape) →
    Except UnsupportedField (Option Shape) → Prop
  | fails (error error' : UnsupportedField) : Agree (.error error) (.error error')
  | nothing : Agree (.ok none) (.ok none)
  | shapes {shape shape' : Shape} (h : shape.same shape' = true) :
      Agree (.ok (some shape)) (.ok (some shape'))

end Inference

/-! ## The shape of a component -/

open Inference

/-- Inference does not depend on the order of the reads on any level, of the
declared properties, of the fields of a `shape` or of the values of a `one_of`,
and neither on the order of dotted paths nor on how often each comes up: both
inputs fail, or both give no shape, or the shapes that they give are equal but for
the order of properties. -/
theorem infer_reordered (deep : Bool) {accessors accessors' : Accessors}
    (hreads : Access.WellFormedTable accessors.reads)
    (hreordered : accessors.Reordered accessors') {declarations declarations' : Table Declaration}
    (hnodup : (Table.keys declarations).Nodup)
    (hfields : ∀ entry ∈ declarations, entry.2.DistinctFields)
    (hdeclarations : Declaration.ReorderedTable declarations declarations') :
    Agree (infer deep accessors.reads declarations)
      (infer deep accessors'.reads declarations') := by
  have hreads' := hreordered.reads.eq_nil_iff
  have hdeclarations' := Table.eq_nil_iff_of_perm hdeclarations.names
  by_cases hnone : accessors.reads = [] ∧ declarations = []
  · rw [infer_eq_none_iff.2 hnone, infer_eq_none_iff.2 (hnone.imp hreads'.1 hdeclarations'.1)]
    exact .nothing
  · rw [not_and_or] at hnone
    rw [infer_of_ne_nil hnone, infer_of_ne_nil (hnone.imp (mt hreads'.2) (mt hdeclarations'.2))]
    cases hdeclared : resolveAll declarations with
    | error error =>
      cases hdeclared' : resolveAll declarations' with
      | error error' => exact .fails error error'
      | ok declared' =>
        obtain ⟨declared, h⟩ := hdeclarations.symm.resolves ⟨declared', hdeclared'⟩
        cases hdeclared.symm.trans h
    | ok declared =>
      obtain ⟨declared', hdeclared'⟩ := hdeclarations.resolves ⟨declared, hdeclared⟩
      rw [hdeclared']
      exact .shapes (same_level hreads hnodup hfields hreordered.reads hdeclarations hnone
        hdeclared hdeclared')

/-- Dotted paths in another order and repeated, values with one key, and fields in
another order: the shapes list their properties in different orders on every
level. -/
theorem infer_reordered_dotted_paths :
    let accessors : Accessors := .dotted ["user.name", "user.size.unit", "kind"]
    let accessors' : Accessors := .dotted ["kind", "user.size.unit", "user.name", "kind"]
    let fields : List (String × Declaration) := [("x", .tag .number), ("y", .unrecognized "custom")]
    let choices : List Choice := [.null, .bool true, .text "null"]
    let declarations : Table Declaration :=
      [("size", .call "one_of" [.choices choices]), ("box", .call "shape" [.fields fields])]
    let declarations' : Table Declaration :=
      [("box", .call "shape" [.fields fields.reverse]),
        ("size", .call "one_of" [.choices choices.reverse])]
    Access.WellFormedTable accessors.reads ∧ accessors.Reordered accessors' ∧
      (Table.keys declarations).Nodup ∧ (∀ entry ∈ declarations, entry.2.DistinctFields) ∧
      Declaration.ReorderedTable declarations declarations' ∧
      ∃ shape shape', infer true accessors.reads declarations = .ok (some shape) ∧
        infer true accessors'.reads declarations' = .ok (some shape') ∧
        Table.keys shape = ["user", "kind", "size", "box"] ∧
        Table.keys shape' = ["kind", "user", "box", "size"] ∧ shape.same shape' = true := by
  intro accessors accessors' fields choices declarations declarations'
  have hreads : Access.WellFormedTable accessors.reads := Access.wellFormedTable_ofPaths _
  have hreordered : accessors.Reordered accessors' := by
    refine .dotted ?_
    intro path
    simp only [List.mem_cons, List.not_mem_nil, or_false]
    tauto
  have hnodup : (Table.keys declarations).Nodup := by simp [declarations]
  have hfields : ∀ entry ∈ declarations, entry.2.DistinctFields := by
    simp [declarations, fields, Declaration.DistinctFields]
  have hdeclarations : Declaration.ReorderedTable declarations declarations' := by
    refine ⟨.swap _ _ _, ?_⟩
    intro name declaration other hdeclaration hother
    simp only [declarations, declarations', List.mem_cons, Prod.mk.injEq, List.not_mem_nil,
      or_false] at hdeclaration hother
    rcases hdeclaration with ⟨rfl, rfl⟩ | ⟨rfl, rfl⟩
    · obtain ⟨hname, -⟩ | ⟨-, rfl⟩ := hother
      · simp at hname
      · exact .choices choices.reverse_perm.symm
    · obtain ⟨-, rfl⟩ | ⟨hname, -⟩ := hother
      · exact .of_perm fields.reverse_perm.symm (by simp [fields]) _ _
      · simp at hname
  have hagree := infer_reordered true hreads hreordered hnodup hfields hdeclarations
  have hshape : infer true accessors.reads declarations = .ok (some _) := rfl
  have hshape' : infer true accessors'.reads declarations' = .ok (some _) := rfl
  rw [hshape, hshape'] at hagree
  cases hagree with
  | shapes hsame =>
    exact ⟨hreads, hreordered, hnodup, hfields, hdeclarations, _, _, hshape, hshape', rfl, rfl,
      hsame⟩

end ComponentProps
