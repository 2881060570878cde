import ComponentProps.Tag

/-!
# Shapes

A shape lists the properties that a component reads, in order.  A property is
either a leaf with a tag, or holds an object whose properties are again listed.

* `Slot.induction`: what holds of leaves and is kept by nesting.
* `Slot.same`, `Shape.same`: equality that does not look at the order of
  properties, at any depth; `Shape.agrees_iff` says what it compares.
* `Shape.leafCount`: the number of leaves at any depth.
-/

namespace ComponentProps

/-- What a shape says about one property. -/
inductive Slot where
  | leaf (tag : Tag)
  | nested (slots : List (String × Slot))

instance : Inhabited Slot := ⟨.leaf .any⟩

/-- The properties of a component, in order. -/
abbrev Shape := Table Slot

/-- What holds of leaves, and of an object if it holds of the slots in it, holds
of every slot. -/
@[induction_eliminator]
theorem Slot.induction {motive : Slot → Prop} (leaf : ∀ tag, motive (.leaf tag))
    (nested : ∀ slots, (∀ entry ∈ slots, motive entry.2) → motive (.nested slots)) :
    (slot : Slot) → motive slot
  | .leaf tag => leaf tag
  | .nested slots => by
    refine nested slots ?_
    intro (key, slot) hentry
    have hslot : sizeOf slot < 1 + sizeOf slots := by
      have hlt : sizeOf (key, slot) < sizeOf slots := List.sizeOf_lt_of_mem hentry
      rw [Prod.mk.sizeOf_spec] at hlt
      omega
    exact Slot.induction leaf nested slot
termination_by slot => sizeOf slot

mutual

/-- The number of leaves in a slot. -/
def Slot.leafCount : Slot → Nat
  | .leaf _ => 1
  | .nested slots => Shape.leafCount slots

/-- The number of leaves of a shape, at any depth. -/
def Shape.leafCount : List (String × Slot) → Nat
  | [] => 0
  | (_, slot) :: rest => slot.leafCount + Shape.leafCount rest

end

mutual

/-- Whether two slots are equal but for the order of properties. -/
def Slot.same : Slot → Slot → Bool
  | .leaf tag, .leaf other => tag == other
  | .nested slots, .nested others =>
    slots.length == others.length && Shape.agrees slots others
  | _, _ => false

/-- Whether every property of one shape has the same slot in the other. -/
def Shape.agrees : List (String × Slot) → List (String × Slot) → Bool
  | [], _ => true
  | (name, slot) :: rest, others =>
    (match Table.get? others name with
      | some other => slot.same other
      | none => false) && Shape.agrees rest others

end

/-- Whether two shapes are equal but for the order of properties. -/
def Shape.same (shape other : Shape) : Bool :=
  shape.length == other.length && Shape.agrees shape other

/-- A shape agrees with another if each of its slots has the same one there. -/
theorem Shape.agrees_iff {slots others : List (String × Slot)} :
    Shape.agrees slots others = true ↔
      ∀ entry ∈ slots, ∃ other, Table.get? others entry.1 = some other ∧
        entry.2.same other = true := by
  induction slots with
  | nil => simp [Shape.agrees]
  | cons entry rest ih =>
    obtain ⟨name, slot⟩ := entry
    rw [Shape.agrees, Bool.and_eq_true, ih, List.forall_mem_cons]
    refine and_congr_left fun _ => ?_
    cases Table.get? others name <;> simp

end ComponentProps
