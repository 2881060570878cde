import ComponentProps.Accessor.Basic
import ComponentProps.Declaration.Basic

/-!
# Inferring the shape of a component

The shape of a component joins the reads observed in its body with the types
it declares.  A level of the shape lists the reads that are not declared, in
the order of the reads, and then every declared property, in the order of the
declarations.  A read is a leaf without a type; with deep reads, one whose
value is read further is a nested level, which again ends with every declared
property.

All declarations are resolved before anything is joined, so whether inference
fails does not depend on the reads.

* `infer`: the shape, or nothing when there are neither reads nor
  declarations.
* `level`: one level of a shape.
* `undeclared_induction`: what holds of the slots of the reads of a level.
-/

namespace ComponentProps

namespace Inference

/-- What the declared properties contribute to each level, in order. -/
def resolveAll : List (String × Declaration) → Except UnsupportedField (List (String × Slot))
  | [] => .ok []
  | (prop, declaration) :: rest => do
    let entry ← declaration.resolve prop
    let slots ← resolveAll rest
    pure ((prop, entry.slot) :: slots)

mutual

/-- The slot of a read that is not declared. -/
def readSlot (deep : Bool) (declared : List (String × Slot)) : Access → Slot
  | .into (child :: rest) =>
    if deep then
      .nested (Table.ofEntries (undeclared deep declared (child :: rest) ++ declared))
    else .leaf .any
  | _ => .leaf .any

/-- The reads of a level that are not declared, with their slots. -/
def undeclared (deep : Bool) (declared : List (String × Slot)) :
    List (String × Access) → List (String × Slot)
  | [] => []
  | (name, access) :: rest =>
    if Table.contains declared name then undeclared deep declared rest
    else (name, readSlot deep declared access) :: undeclared deep declared rest

end

/-- One level of a shape: the reads that are not declared, then the declared
properties. -/
def level (deep : Bool) (declared : List (String × Slot)) (reads : List (String × Access)) :
    Shape :=
  Table.ofEntries (undeclared deep declared reads ++ declared)

/-! ## Induction over the reads of a level -/

section Induction

variable {deep : Bool} {declared : List (String × Slot)} {motive : Slot → Prop}

mutual

/-- What holds of leaves without a type, and of a level if it holds of its
undeclared reads, holds of the slot of every read. -/
theorem readSlot_induction (hany : motive (.leaf .any))
    (hlevel : ∀ reads, reads ≠ [] → (∀ entry ∈ undeclared deep declared reads, motive entry.2) →
      motive (.nested (level deep declared reads))) :
    (access : Access) → motive (readSlot deep declared access)
  | .plain => by
    unfold readSlot
    exact hany
  | .into [] => by
    unfold readSlot
    exact hany
  | .into (child :: rest) => by
    unfold readSlot
    split
    · exact hlevel (child :: rest) (List.cons_ne_nil _ _)
        (undeclared_induction hany hlevel (child :: rest))
    · exact hany

theorem undeclared_induction (hany : motive (.leaf .any))
    (hlevel : ∀ reads, reads ≠ [] → (∀ entry ∈ undeclared deep declared reads, motive entry.2) →
      motive (.nested (level deep declared reads))) :
    (reads : List (String × Access)) → ∀ entry ∈ undeclared deep declared reads, motive entry.2
  | [] => by
    unfold undeclared
    simp
  | (_, access) :: rest => by
    unfold undeclared
    have hrest := undeclared_induction hany hlevel rest
    split
    · exact hrest
    · exact List.forall_mem_cons.2 ⟨readSlot_induction hany hlevel access, hrest⟩

end

end Induction

/-- The entries of a level are its undeclared reads and what is declared. -/
theorem mem_of_mem_level {deep : Bool} {declared : List (String × Slot)}
    {reads : List (String × Access)} {entry : String × Slot}
    (h : entry ∈ level deep declared reads) :
    entry ∈ undeclared deep declared reads ∨ entry ∈ declared := by
  rcases Table.mem_of_mem_insertAll h with h | h
  · cases h
  · exact List.mem_append.1 h

end Inference

/-- The shape of a component with these reads and declarations, or nothing when
it has neither. -/
def infer (deep : Bool) (reads : Table Access) (declarations : Table Declaration) :
    Except UnsupportedField (Option Shape) :=
  if reads.isEmpty && declarations.isEmpty then .ok none
  else do
    let declared ← Inference.resolveAll declarations
    pure (some (Inference.level deep declared reads))

end ComponentProps
