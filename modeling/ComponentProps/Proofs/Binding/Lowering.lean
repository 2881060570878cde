import ComponentProps.Lowering
import ComponentProps.Proofs.Binding.Aliasing

/-!
# Binding into an empty object

A shape that is bound into an empty object adds all of its properties, in order.  What
comes out is the literal of the shape, which has the name of a tag at every leaf, with
a placeholder instead of each name.

* `Literal.mark`: a literal with a placeholder in the place of every tag.
* `Shape.fill_of_not_mem`: filling an object that has none of the keys of a shape adds
  the marked literal of the shape behind it.  The induction is over the shape, and the
  object takes up the properties that have been added before.
* `bind_empty`: what binding into an empty object comes to.
-/

namespace ComponentProps

open Binding Properties

mutual

/-- A literal with a placeholder in the place of every tag.  A placeholder is named by
the dotted path to it, and has the kind for the tag whose name stood there. -/
def Literal.mark (path : String) : Literal → Literal
  | .text word =>
    .placeholder ⟨((Tag.ofName? word).map PlaceholderKind.ofTag).getD .unknown, path⟩
  | .object properties => .object (Properties.mark path properties)
  | value => value

/-- The properties of an object with a placeholder in the place of every tag. -/
def Properties.mark (path : String) : List (PropertyKey × Literal) → Properties
  | [] => []
  | (key, value) :: rest =>
    (key, value.mark (child path key.name)) :: Properties.mark path rest

end

/-! ## Filling new properties -/

mutual

/-- A new property is filled with the marked literal of its slot. -/
theorem Slot.fill_fresh (path : String) :
    (slot : Slot) → slot.WellFormed → slot.fill path (fresh slot) = slot.lower.mark path
  | .leaf tag, _ => by
    rw [Slot.fill_leaf, Slot.lower, Literal.mark, Tag.ofName?_name]
    rfl
  | .nested slots, hslots => by
    rw [fresh, Slot.fill_nested_object, Slot.lower, Literal.mark,
      Shape.fill_of_not_mem path slots hslots [] (by simp), List.nil_append]

/-- The keys of a shape that an object has none of come behind its properties. -/
theorem Shape.fill_of_not_mem (path : String) :
    (slots : List (String × Slot)) → Shape.WellFormed slots → (before : Properties) →
      (∀ key ∈ Table.keys slots, key ∉ names before) →
        Shape.fill path slots before =
          before ++ Properties.mark path (Shape.lowerSlots slots)
  | [], _, before, _ => by rw [Shape.fill, Shape.lowerSlots, Properties.mark, List.append_nil]
  | (key, slot) :: rest, hslots, before, hnew => by
    obtain ⟨hkey, hslot, hrest⟩ := hslots
    rw [Table.keys_cons, List.forall_mem_cons] at hnew
    have hmissing : get? before key = none := get?_eq_none_iff.2 hnew.1
    have hadded : put before key (slot.fill (child path key) (fresh slot)) =
        before ++ [(.ofName key, slot.lower.mark (child path key))] := by
      rw [put_of_not_mem hnew.1, Slot.fill_fresh (child path key) slot hslot]
    have hnew' : ∀ other ∈ Table.keys rest,
        other ∉ names (before ++ [(.ofName key, slot.lower.mark (child path key))]) := by
      intro other hother hmem
      rw [names, List.map_append, List.mem_append] at hmem
      rcases hmem with hmem | hmem
      · exact hnew.2 other hother hmem
      · have heq : other = key := by simpa using hmem
        exact hkey (heq ▸ hother)
    rw [Shape.fill, hmissing, Option.getD_none, hadded,
      Shape.fill_of_not_mem path rest hrest _ hnew', Shape.lowerSlots, Properties.mark,
      PropertyKey.name_ofName, List.append_assoc, List.singleton_append]

end

/-! ## The outcome of binding -/

/-- Binding a shape into an empty object, with a new mint, never meets a value that is no
object, and succeeds exactly if no two leaves of the shape have the same path.  The bound
object is then the literal of the shape with a placeholder in the place of every tag. -/
theorem bind_empty {shape : Shape} (hshape : Shape.WellFormed shape) (root : String) :
    let bound := shape.bind root [] Mint.empty
    (∀ path found, bound.obstacle ≠ some (.notAnObject path found)) ∧
    (bound.obstacle = none ↔
      ∀ keys tag others other,
        Site.leaf keys tag ∈ Shape.sites shape → Site.leaf others other ∈ Shape.sites shape →
          dottedPath root keys = dottedPath root others → keys = others) ∧
    (bound.obstacle = none → Literal.object bound.target = shape.lower.mark root) := by
  intro bound
  refine ⟨?_, ?_, ?_⟩
  · intro path found hstop
    rcases obstacle_cases hshape hstop with ⟨hfits, -⟩ | ⟨_, _, _, _, -, -, -, -, herror⟩
    · exact hfits (fits_empty shape)
    · cases herror
  · exact (obstacle_eq_none_iff hshape).trans (and_iff_right (fits_empty shape))
  · intro hfree
    have htarget : bound.target = Shape.fill root shape [] :=
      bindSlots_target root shape [] Mint.empty hfree
    rw [htarget, Shape.fill_of_not_mem root shape hshape [] (by simp), List.nil_append,
      Shape.lower, Literal.mark]

/-- An empty object at a nested position is added, too, and a key that is no identifier
is quoted in both. -/
theorem bind_empty_nested :
    let shape : Shape :=
      [("a", .nested [("data-id", .leaf .stringRequired), ("e", .nested [])]), ("b", .leaf .func)]
    let bound := shape.bind "props" [] Mint.empty
    Shape.WellFormed shape ∧ bound.obstacle = none ∧
      shape.lower =
        .object [(.identifier "a", .object [(.quoted "data-id", .text "string_isRequired"),
          (.identifier "e", .object [])]), (.identifier "b", .text "func")] ∧
      bound.target =
        [(.identifier "a", .object [
          (.quoted "data-id", .placeholder ⟨.string, "props.a.data-id"⟩),
          (.identifier "e", .object [])]), (.identifier "b", .placeholder ⟨.unknown, "props.b"⟩)] ∧
      Literal.object bound.target = shape.lower.mark "props" := by
  intro shape bound
  have hshape : Shape.WellFormed shape := by simp [shape]
  have hfree : bound.obstacle = none := by decide
  exact ⟨hshape, hfree, rfl, rfl, (bind_empty hshape "props").2.2 hfree⟩

end ComponentProps
