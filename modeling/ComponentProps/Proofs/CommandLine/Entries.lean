import ComponentProps.Proofs.CommandLine.Rendering
import ComponentProps.Proofs.Component.WellFormed
import ComponentProps.Proofs.Json.Printed
import ComponentProps.Proofs.Shape.Decoding
import Mathlib

/-!
# Reading the output for components

The output in JSON is a list with an entry for each component.  It is read back as
the list that was written, unless a shape in it is nested too deep: around a shape
there are its entry and the list, and the reader takes no more than
`Json.maxDepth` lists and objects inside each other.  Nothing limits the shapes.

* The data of shapes.  `Slot.numberFree_toJson` and `Slot.distinct_toJson` say why
  it can be read.
* Entries.  `Component.CarriedBy`: an entry has the name and the shape of a
  component.  `Component.FitsReader`: the shape leaves room for its entry and the
  list.  `carriedBy_of_shapeEntry` is what an entry is like.
* Long paths.  A path that is read deeply gives a shape that is nested as deep as
  the path is long, so `fitsReader_reading_iff` says which paths are too long.
* The output.  `parse_output` is what becomes of it for well-formed components, and
  `Product.render_entries_read` for those of a document.
-/

namespace ComponentProps

/-! ## The data of shapes -/

theorem Slot.numberFree_toJson (slot : Slot) : slot.toJson.NumberFree := by
  induction slot with
  | leaf tag => exact .text tag.name
  | nested slots ih =>
    refine .object ?_
    intro member hmember
    obtain ⟨entry, hentry, rfl⟩ := Shape.exists_of_mem_membersJson hmember
    exact ih entry hentry

theorem Shape.keys_membersJson (slots : List (String × Slot)) :
    Table.keys (Shape.membersJson slots) = Table.keys slots := by
  induction slots with
  | nil => rfl
  | cons entry rest ih => rw [Shape.membersJson, Table.keys_cons, Table.keys_cons, ih]

/-- The data of a well-formed slot repeats no key. -/
theorem Slot.distinct_toJson {slot : Slot} (h : slot.WellFormed) :
    slot.toJson.distinct = slot.toJson := by
  induction slot with
  | leaf tag => rfl
  | nested slots ih =>
    rw [Slot.wellFormed_nested_iff] at h
    rw [Slot.toJson, Json.distinct_object_iff, Shape.keys_membersJson]
    refine ⟨(Shape.wellFormed_iff.1 h).1, ?_⟩
    intro member hmember
    obtain ⟨entry, hentry, rfl⟩ := Shape.exists_of_mem_membersJson hmember
    exact ih entry hentry (h.of_mem hentry)

/-! ## Entries -/

/-- The entry of a component with a name and a shape, or with none. -/
def entryOf (name : String) (shape : Option Shape) : Json :=
  .object [("name", .text name), ("shape", (shape.map Shape.toJson).getD .null)]

section Entry

variable (name : String) {shape : Option Shape}

theorem numberFree_entryOf : (entryOf name shape).NumberFree := by
  refine .object (List.forall_mem_cons.2 ⟨.text name, List.forall_mem_singleton.2 ?_⟩)
  cases shape with
  | none => exact .null
  | some shape => exact (Slot.nested shape).numberFree_toJson

theorem distinct_entryOf (h : ∀ found, shape = some found → Shape.WellFormed found) :
    (entryOf name shape).distinct = entryOf name shape := by
  refine Json.distinct_object_iff.2 ⟨by simp, ?_⟩
  refine List.forall_mem_cons.2 ⟨rfl, List.forall_mem_singleton.2 ?_⟩
  cases shape with
  | none => rfl
  | some shape =>
    have hshape : (Slot.nested shape).WellFormed := h shape rfl
    exact Slot.distinct_toJson hshape

theorem nesting_entryOf_le_iff {depth : Nat} :
    (entryOf name shape).nesting ≤ depth + 1 ↔
      ∀ found, shape = some found → (Shape.toJson found).nesting ≤ depth := by
  rw [entryOf, Json.nesting_object_le_iff, List.forall_mem_cons, List.forall_mem_singleton]
  cases shape <;> simp [Json.nesting]

/-- A shape is decoded from its data, and none from null. -/
theorem optional_ofJson (h : ∀ found, shape = some found → Shape.WellFormed found) :
    Shape.form.optional.ofJson ((shape.map Shape.toJson).getD .null) = .ok shape := by
  cases shape with
  | none => rfl
  | some shape =>
    have hshape : (Slot.nested shape).WellFormed := h shape rfl
    have hspelled := Slot.spelled_nested_iff.1 (Slot.nested shape).spelled_toJson
    have hread := (Shape.ofJson_eq_ok_iff (Slot.distinct_toJson hshape)).2 hspelled
    rw [Json.Form.ofJson_eq_ok_iff] at hread ⊢
    exact Except.map_eq_ok_iff.2 ⟨shape, hread, rfl⟩

end Entry

namespace Component

/-- An entry has the name of a component, and a value that decodes as the shape of
the component, or as none if it has none. -/
inductive CarriedBy (deep : Option Bool) (component : Component) : Json → Prop
  | entry {shape : Option Shape} {value : Json} (hshape : component.shape deep = .ok shape)
      (hvalue : Shape.form.optional.ofJson value = .ok shape) :
      CarriedBy deep component (.object [("name", .text component.name), ("shape", value)])

/-- The shape of a component, if it has one, can be read with an entry and a list
around it. -/
def FitsReader (deep : Option Bool) (component : Component) : Prop :=
  ∀ shape, component.shape deep = .ok (some shape) →
    (Shape.toJson shape).nesting + 2 ≤ Json.maxDepth

theorem shapeEntry_eq_ok_iff {component : Component} {deep : Option Bool} {entry : Json} :
    component.shapeEntry deep = .ok entry ↔
      ∃ shape, component.shape deep = .ok shape ∧ entryOf component.name shape = entry := by
  have hmap : component.shapeEntry deep = entryOf component.name <$> component.shape deep := by
    rw [shapeEntry]
    cases component.shape deep <;> rfl
  rw [hmap, Except.map_eq_ok_iff]

/-- What the entry of a well-formed component is like. -/
theorem carriedBy_of_shapeEntry {component : Component} (hwell : component.WellFormed)
    {deep : Option Bool} {entry : Json} (h : component.shapeEntry deep = .ok entry) :
    component.CarriedBy deep entry ∧ entry.NumberFree ∧ entry.distinct = entry ∧
      (entry.nesting + 1 ≤ Json.maxDepth ↔ component.FitsReader deep) := by
  obtain ⟨shape, hshape, rfl⟩ := shapeEntry_eq_ok_iff.1 h
  have hfound : ∀ found, shape = some found → Shape.WellFormed found := by
    intro found hfound
    rw [hfound] at hshape
    exact wellFormed_of_shape hwell hshape
  refine ⟨.entry hshape (optional_ofJson hfound), numberFree_entryOf _,
    distinct_entryOf _ hfound, ?_⟩
  rw [Json.maxDepth, Nat.add_le_add_iff_right, nesting_entryOf_le_iff, FitsReader, hshape]
  simp [Json.maxDepth]

end Component

/-! ## Long paths -/

namespace Inference

/-- The level of one path that is read deeply is nested as deep as the path is
long.  The induction is on the path. -/
theorem nesting_level_addPath {segments : List String} (h : segments ≠ []) :
    (Shape.toJson (level true [] (Access.addPath segments []))).nesting = segments.length := by
  induction segments with
  | nil => exact absurd rfl h
  | cons segment rest ih =>
    cases rest with
    | nil => rfl
    | cons next others =>
      have hlevel : level true [] (Access.addPath (segment :: next :: others) []) =
          [(segment, .nested (level true [] (Access.addPath (next :: others) [])))] := rfl
      rw [hlevel, Shape.toJson, Shape.membersJson, Shape.membersJson, Slot.toJson]
      have hinner := ih (List.cons_ne_nil _ _)
      rw [Shape.toJson] at hinner
      rw [Json.nesting, Json.nestingMembers, Json.nestingMembers, hinner, Nat.max_zero]
      rfl

end Inference

namespace Component

/-- The component that reads one path, and each value on it further. -/
def reading (path : String) : Component :=
  { accessors := some (.dotted [path]), deep := true }

/-- A document for it. -/
def readingJson (path : String) : Json :=
  .object [("accessors", .list [.text path]), ("deepAccessors", .bool true)]

theorem load_readingJson (path : String) :
    load (readingJson path).pretty none = .ok [reading path] := by
  have hfree : (readingJson path).NumberFree :=
    .object (List.forall_mem_cons.2 ⟨.list (List.forall_mem_singleton.2 (.text path)),
      List.forall_mem_singleton.2 (.bool true)⟩)
  have hnesting : (readingJson path).nesting = 2 := rfl
  have hparse := (Json.parse_pretty hfree "").1 (by rw [hnesting]; decide)
  rw [String.append_empty] at hparse
  rw [load, hparse]
  rfl

theorem shape_reading {path : String} (h : Access.segments path ≠ []) :
    (reading path).shape none =
      .ok (some (Inference.level true [] (Access.addPath (Access.segments path) []))) := by
  have hreads : Access.ofPaths [path] = Access.addPath (Access.segments path) [] :=
    Access.ofPaths_eq_foldl [path]
  show infer true (Access.ofPaths [path]) [] = _
  rw [hreads]
  cases hsegments : Access.segments path with
  | nil => exact absurd hsegments h
  | cons segment rest => rfl

/-- Its shape leaves room for the output exactly if the path is not too long. -/
theorem fitsReader_reading_iff {path : String} (h : Access.segments path ≠ []) :
    (reading path).FitsReader none ↔ (Access.segments path).length + 2 ≤ Json.maxDepth := by
  rw [← Inference.nesting_level_addPath h, FitsReader, shape_reading h]
  simp

end Component

/-! ## The output -/

namespace CommandLine

/-- The entries of well-formed components. -/
theorem carriedBy_entries {components : List Component} {deep : Option Bool}
    {entries : List Json} (hwell : ∀ component ∈ components, component.WellFormed)
    (h : List.Forall₂ (fun component entry => component.shapeEntry deep = .ok entry)
      components entries) :
    List.Forall₂ (Component.CarriedBy deep) components entries ∧
      (∀ entry ∈ entries, entry.NumberFree) ∧ Json.distinctItems entries = entries ∧
      ((∀ entry ∈ entries, entry.nesting + 1 ≤ Json.maxDepth) ↔
        ∀ component ∈ components, component.FitsReader deep) := by
  induction h with
  | nil => exact ⟨.nil, by simp, rfl, by simp⟩
  | cons hentry _ ih =>
    rw [List.forall_mem_cons] at hwell
    obtain ⟨hcarried, hfree, hdistinct, hfits⟩ :=
      Component.carriedBy_of_shapeEntry hwell.1 hentry
    obtain ⟨hothers, hrest, hitems, hall⟩ := ih hwell.2
    refine ⟨.cons hcarried hothers, List.forall_mem_cons.2 ⟨hfree, hrest⟩, ?_, ?_⟩
    · rw [Json.distinctItems, hdistinct, hitems]
    · rw [List.forall_mem_cons, List.forall_mem_cons, hfits, hall]

/-- The output for well-formed components is read as the entries that were written
if the shapes leave room for them, and refused as nested too deep otherwise. -/
theorem parse_output {components : List Component} {deep : Option Bool} {output : String}
    (hwell : ∀ component ∈ components, component.WellFormed)
    (h : (Product.shapes .json).render deep components = .ok output) :
    ((∀ component ∈ components, component.FitsReader deep) →
      ∃ entries, Json.parse output = .ok (.list entries) ∧
        List.Forall₂ (Component.CarriedBy deep) components entries) ∧
    ((¬ ∀ component ∈ components, component.FitsReader deep) →
      ∃ path position, Json.parse output = .error (.decode path (.flaw .tooDeep) position)) := by
  obtain ⟨entries, hentries, rfl⟩ := (output_eq_ok_iff _ _ _).1 h
  obtain ⟨hcarried, hfree, hdistinct, hfits⟩ := carriedBy_entries hwell hentries
  obtain ⟨hread, hdeep⟩ := Json.parse_pretty (.list hfree) "\n"
  have hnesting : (Json.list entries).nesting ≤ Json.maxDepth ↔
      ∀ component ∈ components, component.FitsReader deep := by
    rw [← hfits]
    show (Json.list entries).nesting ≤ 126 + 1 ↔ _
    simp only [Json.nesting_list_le_iff, Json.maxDepth, Nat.reduceLeDiff]
  constructor
  · intro hall
    refine ⟨entries, ?_, hcarried⟩
    rw [hread (hnesting.2 hall), Json.distinct, hdistinct]
  · intro hsome
    exact hdeep (Nat.lt_of_not_le fun hle => hsome (hnesting.1 hle))

/-- What is made of components if each of them has a shape or none. -/
theorem exists_render {components : List Component} {deep : Option Bool}
    (h : ∀ component ∈ components, ∃ shape, component.shape deep = .ok shape) :
    ∃ output, (Product.shapes .json).render deep components = .ok output := by
  rcases Product.render_cases (.shapes .json) deep components with
    ⟨-, output, houtput, -⟩ | ⟨hcomplaints, -⟩
  · exact ⟨output, houtput⟩
  · refine absurd (List.filterMap_eq_nil_iff.2 ?_) hcomplaints
    intro component hcomponent
    obtain ⟨shape, hshape⟩ := h component hcomponent
    simp only [Product.complaint?, CommandLine.complaint?, hshape]

/-- The output in JSON for the components of a document, each of which has a shape
or none, is read back as a list with one entry for each component, in their order,
which carries the name of the component and its shape or null.  This takes that no
shape is nested so deep that its entry and the list around it are too much for the
reader.  If one is, the reader refuses the output as nested too deep. -/
theorem Product.render_entries_read {text : String} {pointer : Option String}
    {components : List Component} (hload : Component.load text pointer = .ok components)
    {deep : Option Bool}
    (hshapes : ∀ component ∈ components, ∃ shape, component.shape deep = .ok shape) :
    ∃ output, (Product.shapes .json).render deep components = .ok output ∧
      ((∀ component ∈ components, component.FitsReader deep) →
        ∃ entries, Json.parse output = .ok (.list entries) ∧
          List.Forall₂ (Component.CarriedBy deep) components entries) ∧
      ((¬ ∀ component ∈ components, component.FitsReader deep) →
        ∃ path position,
          Json.parse output = .error (.decode path (.flaw .tooDeep) position)) := by
  obtain ⟨output, houtput⟩ := exists_render hshapes
  exact ⟨output, houtput, parse_output (Component.wellFormed_of_load hload) houtput⟩

/-- A component with a nested shape, and one without properties. -/
theorem Product.render_entries_read_nested :
    let text :=
      "[\x7b\"name\":\"A\",\"accessors\":[\"a.b\"],\"deepAccessors\":true\x7d,\x7b\"name\":\"B\"\x7d]"
    let components : List Component :=
      [{ name := "A", accessors := some (.dotted ["a.b"]), deep := true }, { name := "B" }]
    Component.load text none = .ok components ∧
      (∀ component ∈ components, ∃ shape, component.shape none = .ok shape) ∧
      ∃ output entries, (Product.shapes .json).render none components = .ok output ∧
        Json.parse output = .ok (.list entries) ∧
        List.Forall₂ (Component.CarriedBy none) components entries := by
  intro text components
  have hload : Component.load text none = .ok components := by
    unfold text components
    cbv
  have hshapes : ∀ component ∈ components, ∃ shape, component.shape none = .ok shape := by
    simp only [components, List.forall_mem_cons]
    exact ⟨⟨some [("a", .nested [("b", .leaf .any)])], rfl⟩, ⟨none, rfl⟩, by simp⟩
  have hfits : ∀ component ∈ components, component.FitsReader none := by
    simp only [components, List.forall_mem_cons]
    refine ⟨?_, ?_, by simp⟩
    · intro shape hshape
      cases hshape
      decide
    · intro shape hshape
      cases hshape
  obtain ⟨output, houtput, hread, -⟩ := Product.render_entries_read hload hshapes
  obtain ⟨entries, hparse, hcarried⟩ := hread hfits
  exact ⟨hload, hshapes, output, entries, houtput, hparse, hcarried⟩

/-- A path of 126 keys is too long for its shape to be read in the output. -/
theorem Product.render_entries_too_deep :
    let path := String.intercalate "." (List.replicate 126 "a")
    let components := [Component.reading path]
    Component.load (Component.readingJson path).pretty none = .ok components ∧
      (∀ component ∈ components, ∃ shape, component.shape none = .ok shape) ∧
      ∃ output place position, (Product.shapes .json).render none components = .ok output ∧
        Json.parse output = .error (.decode place (.flaw .tooDeep) position) := by
  intro path components
  have hlength : (Access.segments path).length = 126 := by decide +kernel
  have hne : Access.segments path ≠ [] := by
    intro hnil
    rw [hnil] at hlength
    cases hlength
  have hload : Component.load (Component.readingJson path).pretty none = .ok components :=
    Component.load_readingJson path
  have hshapes : ∀ component ∈ components, ∃ shape, component.shape none = .ok shape :=
    List.forall_mem_singleton.2 ⟨_, Component.shape_reading hne⟩
  have hdeep : ¬ ∀ component ∈ components, component.FitsReader none := by
    rw [List.forall_mem_singleton, Component.fitsReader_reading_iff hne, hlength]
    decide
  obtain ⟨output, houtput⟩ := exists_render hshapes
  obtain ⟨place, position, hparse⟩ :=
    (parse_output (Component.wellFormed_of_load hload) houtput).2 hdeep
  exact ⟨hload, hshapes, output, place, position, houtput, hparse⟩

end CommandLine

end ComponentProps
