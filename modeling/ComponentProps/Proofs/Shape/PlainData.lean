import ComponentProps.Lowering
import ComponentProps.Proofs.Json.Forms
import ComponentProps.Proofs.Shape.WellFormed
import Mathlib

/-!
# Shapes as plain data

What becomes of a shape that is written as plain JSON data.

There are two groups.

* Literals.  `Shape.lowerPlain_toJson`: lowering the data and lowering the shape
  give the same literal.
* Decoding.  `Tag.ofJson?_object_eq_some_iff` says which objects a tag can be
  read from: those with null under its name and nothing else.  The data of a
  shape holds no null, so no nested shape is taken for a leaf, and
  `Shape.ofJson_toJson` gives the shape back.
-/

namespace ComponentProps

/-! ## Literals -/

/-- Members are lowered one by one, wherever they stand. -/
theorem Shape.lowerPlainMembers_membersJson {slots : List (String × Slot)}
    (h : ∀ entry ∈ slots, ∀ path, lowerPlainValue path entry.2.toJson = .ok entry.2.lower)
    (path : String) :
    lowerPlainMembers path (Shape.membersJson slots) = .ok (Shape.lowerSlots slots) := by
  induction slots with
  | nil => rfl
  | cons entry rest ih =>
    obtain ⟨key, slot⟩ := entry
    have hslot := h (key, slot) List.mem_cons_self (plainPath path key)
    have hrest := ih fun entry hentry => h entry (List.mem_cons_of_mem _ hentry)
    rw [Shape.membersJson, lowerPlainMembers, hslot, hrest]
    rfl

/-- The data of a slot is lowered without an error, on whatever path it stands. -/
theorem Slot.lowerPlainValue_toJson (slot : Slot) (path : String) :
    lowerPlainValue path slot.toJson = .ok slot.lower := by
  induction slot generalizing path with
  | leaf tag => rfl
  | nested slots ih =>
    rw [Slot.toJson, lowerPlainValue, Shape.lowerPlainMembers_membersJson ih]
    rfl

/-- Lowering the data of a shape succeeds and gives the literal of the shape. -/
theorem Shape.lowerPlain_toJson (shape : Shape) : lowerPlain shape.toJson = .ok shape.lower := by
  have hmembers : lowerPlainMembers "" (Shape.membersJson shape) =
      .ok (Shape.lowerSlots shape) :=
    Shape.lowerPlainMembers_membersJson (fun entry _ => entry.2.lowerPlainValue_toJson) ""
  rw [Shape.toJson, lowerPlain, hmembers]
  rfl

/-! ## Decoding -/

theorem Tag.ofJson?_text (word : String) : Tag.ofJson? (.text word) = Tag.ofName? word := by
  unfold Tag.ofJson? Tag.form Json.Form.variant
  dsimp only
  cases Tag.ofName? word <;> rfl

/-- A tag is read from an object only if the object has null under the name of the
tag, and nothing else. -/
theorem Tag.ofJson?_object_eq_some_iff {members : List (String × Json)} {tag : Tag} :
    Tag.ofJson? (.object members) = some tag ↔ members = [(tag.name, .null)] := by
  constructor
  · intro h
    match members with
    | [] => cases h
    | _ :: _ :: _ => cases h
    | [(name, value)] =>
      unfold Tag.ofJson? Tag.form Json.Form.variant at h
      dsimp only at h
      cases hname : Tag.ofName? name with
      | none =>
        rw [hname] at h
        cases h
      | some found =>
        rw [hname] at h
        cases value with
        | null =>
          cases h
          rw [Tag.name_of_ofName? hname]
        | _ => cases h
  · rintro rfl
    unfold Tag.ofJson? Tag.form Json.Form.variant
    dsimp only
    rw [Tag.ofName?_name]
    rfl

/-- The data of a slot is a string or an object. -/
theorem Slot.toJson_ne_null (slot : Slot) : slot.toJson ≠ .null := by
  cases slot <;> nofun

/-- No data of slots is taken for a tag, be its only key the name of one. -/
theorem Tag.ofJson?_membersJson (slots : List (String × Slot)) :
    Tag.ofJson? (.object (Shape.membersJson slots)) = none := by
  rw [Option.eq_none_iff_forall_ne_some]
  intro tag h
  rw [Tag.ofJson?_object_eq_some_iff] at h
  match slots with
  | [] => cases h
  | (key, slot) :: rest =>
    have hnull : slot.toJson = .null := congrArg Prod.snd (List.cons_eq_cons.1 h).1
    exact slot.toJson_ne_null hnull

theorem Shape.ofMembers?_membersJson {slots : List (String × Slot)}
    (h : ∀ entry ∈ slots, Slot.ofJson? entry.2.toJson = some entry.2) :
    Shape.ofMembers? (Shape.membersJson slots) = some slots := by
  induction slots with
  | nil => rfl
  | cons entry rest ih =>
    obtain ⟨key, slot⟩ := entry
    have hslot := h (key, slot) List.mem_cons_self
    have hrest := ih fun entry hentry => h entry (List.mem_cons_of_mem _ hentry)
    rw [Shape.membersJson, Shape.ofMembers?, hslot, hrest]

/-- A slot is read back from its data. -/
theorem Slot.ofJson?_toJson {slot : Slot} (h : slot.WellFormed) :
    Slot.ofJson? slot.toJson = some slot := by
  induction slot with
  | leaf tag =>
    rw [Slot.toJson, Slot.ofJson?, Tag.ofJson?_text, Tag.ofName?_name]
    · rfl
    · intro members h
      cases h
  | nested slots ih =>
    rw [Slot.wellFormed_nested_iff] at h
    have hslots : Shape.ofMembers? (Shape.membersJson slots) = some slots :=
      Shape.ofMembers?_membersJson fun entry hentry => ih entry hentry (h.of_mem hentry)
    rw [Slot.toJson, Slot.ofJson?, Tag.ofJson?_membersJson, hslots]
    show some (Slot.nested (Table.ofEntries slots)) = some (.nested slots)
    rw [Table.ofEntries_of_nodup (Shape.wellFormed_iff.1 h).1]

theorem Slot.decode_toJson {slot : Slot} (h : slot.WellFormed) :
    Slot.form.decode slot.toJson = .ok slot :=
  Json.Form.decode_alternatives_eq_ok_iff.2 (Slot.ofJson?_toJson h)

/-- The members of a shape are decoded one by one into a table. -/
theorem Shape.decodeMembers_membersJson {slots : List (String × Slot)}
    (h : ∀ entry ∈ slots, entry.2.WellFormed) (table : Table Slot) :
    Slot.form.decodeMembers table (Shape.membersJson slots) =
      .ok (Table.insertAll table slots) := by
  induction slots generalizing table with
  | nil => rfl
  | cons entry rest ih =>
    obtain ⟨key, slot⟩ := entry
    have hslot := Slot.decode_toJson (h (key, slot) List.mem_cons_self)
    have hrest := ih (fun entry hentry => h entry (List.mem_cons_of_mem _ hentry))
      (Table.insert table key slot)
    rw [Shape.membersJson, Json.Form.decodeMembers, hslot]
    exact hrest

/-- A shape is read back from its data, with its keys in their order at every
level.  In particular an object whose only key names a tag is nested where it is
the data of a nested slot. -/
theorem Shape.ofJson_toJson {shape : Shape} (h : Shape.WellFormed shape) :
    Shape.form.ofJson shape.toJson = .ok shape ∧
      ∀ (tag : Tag) (slot : Slot), slot.WellFormed →
        Slot.form.ofJson (.object [(tag.name, slot.toJson)]) =
          .ok (.nested [(tag.name, slot)]) := by
  constructor
  · have hslots := (Shape.wellFormed_iff.1 h).2
    have hdecode : Shape.form.decode shape.toJson = .ok shape := by
      show Slot.form.decodeMembers [] (Shape.membersJson shape) = .ok shape
      rw [Shape.decodeMembers_membersJson hslots]
      exact congrArg Except.ok (Table.ofEntries_of_nodup (Shape.wellFormed_iff.1 h).1)
    rw [Json.Form.ofJson, hdecode]
  · intro tag slot hslot
    have hnested : (Slot.nested [(tag.name, slot)]).WellFormed :=
      ⟨by simp, hslot, trivial⟩
    have hdecode : Slot.form.decode (.object [(tag.name, slot.toJson)]) =
        .ok (.nested [(tag.name, slot)]) := Slot.decode_toJson hnested
    rw [Json.Form.ofJson, hdecode]

/-- Keys that name tags, over leaves and over nested shapes, one of them empty. -/
theorem Shape.ofJson_toJson_tag_keys :
    let shape : Shape :=
      [("any", .nested [("any", .leaf .bool)]), ("x", .nested [("shape", .nested [])])]
    Shape.WellFormed shape ∧
      Shape.form.ofJson (.object
        [("any", .object [("any", .text "bool")]), ("x", .object [("shape", .object [])])]) =
        .ok shape ∧
      Slot.form.ofJson (.object [("shape", .object [])]) =
        .ok (.nested [("shape", .nested [])]) := by
  intro shape
  have hshape : Shape.WellFormed shape := by simp [shape]
  obtain ⟨hback, hnested⟩ := Shape.ofJson_toJson hshape
  exact ⟨hshape, hback, hnested .shape (.nested []) trivial⟩

end ComponentProps
