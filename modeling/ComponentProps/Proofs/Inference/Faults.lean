import ComponentProps.Proofs.Declaration.Resolving

/-!
# When inference fails

All declarations are resolved before anything is joined, and the only declaration that does
not resolve is a shape with a description as a field.

* `infer_eq_error_iff_resolveAll`: inference fails exactly with the error of resolving the
  declarations.
* `infer_fault`: what has to be declared for that, and which property and field the error
  names.
-/

namespace ComponentProps

open Inference

/-- Reads never make inference fail, nor does anything behind the resolving of declarations. -/
theorem infer_eq_error_iff_resolveAll {deep : Bool} {reads : Table Access}
    {declarations : Table Declaration} {error : UnsupportedField} :
    infer deep reads declarations = .error error ↔ resolveAll declarations = .error error := by
  unfold infer
  split
  next hempty =>
    rw [Bool.and_eq_true, List.isEmpty_iff, List.isEmpty_iff] at hempty
    rw [hempty.2]
    simp [resolveAll]
  next => simp [Except.map_eq_error_iff]

/-- Inference fails exactly if some property is declared as a shape with a field that is
itself a description.  The error then names the first such property in the order of the
declarations, and the first such field in the order of its fields.  Neither the reads nor
whether they are followed deeply have any part in it. -/
theorem infer_fault (deep : Bool) (reads : Table Access) (declarations : Table Declaration) :
    ((∃ error, infer deep reads declarations = .error error) ↔
        ∃ entry ∈ declarations, ∃ fields more,
          entry.2 = .call "shape" (.fields fields :: more) ∧
            ∃ field ∈ fields, field.2.IsDescription) ∧
      (∀ error, infer deep reads declarations = .error error ↔
        ∃ declaration,
          IsFirst (fun entry => ∃ field, entry.2.DescribesField field) declarations
              (error.prop, declaration) ∧
            declaration.DescribesField error.field) ∧
      ∀ otherDeep otherReads,
        (∀ error, infer otherDeep otherReads declarations = .error error ↔
          infer deep reads declarations = .error error) := by
  simp only [infer_eq_error_iff_resolveAll, implies_true, and_true]
  refine ⟨?_, fun error => resolveAll_eq_error_iff⟩
  simp only [← Declaration.exists_describesField_iff, resolveAll_eq_error_iff]
  rw [← exists_isFirst_iff]
  constructor
  · intro h
    obtain ⟨error, declaration, hfirst, -⟩ := h
    exact ⟨_, hfirst⟩
  · intro h
    obtain ⟨entry, hfirst⟩ := h
    obtain ⟨field, hfield⟩ := hfirst.holds
    exact ⟨⟨entry.1, field⟩, entry.2, hfirst, hfield⟩

example :
    infer true [("a", .into [("b", .plain)])]
        [("a", .conditional),
          ("b", .call "array_of" [.fields [("x", .unknowable)]]),
          ("c", .call "shape" [.fields [("x", .tag .string), ("y", .unknowable),
            ("z", .conditional)]]),
          ("d", .call "shape" [.fields [("x", .conditional)]])] = .error ⟨"c", "y"⟩ := rfl

end ComponentProps
