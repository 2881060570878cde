import ComponentProps.Declaration.Json
import ComponentProps.Proofs.Declaration.Resolving
import ComponentProps.Proofs.Json.Forms
import ComponentProps.Shape.Json

/-!
# Well-formed shapes

A shape is well formed if no level of it repeats a key.  Shapes are tables, and
tables that are built by insertion have distinct keys, so this holds of every
shape that is decoded or inferred.

* `Slot.WellFormed`, `Shape.WellFormed`: no level repeats a key.
* `Shape.wellFormed_iff`: the same for one level and what is below it.
* `Shape.wellFormed_ofEntries`: tables of well-formed slots are well formed.
* `Shape.wellFormed_of_decode`: decoded shapes are well formed.
* `infer_wellFormed`: inferred shapes are well formed, if no declaration repeats
  a field.
* `Declaration.distinctFields_of_ofJson?`: no decoded declaration does.
-/

namespace ComponentProps

mutual

/-- No level of a slot repeats a key. -/
def Slot.WellFormed : Slot → Prop
  | .leaf _ => True
  | .nested slots => Shape.WellFormed slots

/-- No level of a shape repeats a key. -/
def Shape.WellFormed : List (String × Slot) → Prop
  | [] => True
  | (key, slot) :: rest =>
    key ∉ Table.keys rest ∧ slot.WellFormed ∧ Shape.WellFormed rest

end

@[simp] theorem Slot.wellFormed_leaf (tag : Tag) : (Slot.leaf tag).WellFormed := trivial

@[simp] theorem Slot.wellFormed_nested_iff (slots : List (String × Slot)) :
    (Slot.nested slots).WellFormed ↔ Shape.WellFormed slots := Iff.rfl

@[simp] theorem Shape.wellFormed_nil : Shape.WellFormed [] := trivial

@[simp] theorem Shape.wellFormed_cons_iff (key : String) (slot : Slot)
    (rest : List (String × Slot)) :
    Shape.WellFormed ((key, slot) :: rest) ↔
      key ∉ Table.keys rest ∧ slot.WellFormed ∧ Shape.WellFormed rest := Iff.rfl

/-- A shape is well formed if its keys are distinct and its slots well formed. -/
theorem Shape.wellFormed_iff {slots : List (String × Slot)} :
    Shape.WellFormed slots ↔
      (Table.keys slots).Nodup ∧ ∀ entry ∈ slots, entry.2.WellFormed := by
  induction slots with
  | nil => simp
  | cons entry rest ih =>
    obtain ⟨key, slot⟩ := entry
    rw [Shape.wellFormed_cons_iff, ih, Table.keys_cons, List.nodup_cons]
    constructor
    · intro h
      obtain ⟨hnew, hslot, hkeys, hrest⟩ := h
      refine ⟨⟨hnew, hkeys⟩, ?_⟩
      intro entry hentry
      rcases List.mem_cons.mp hentry with rfl | hentry
      · exact hslot
      · exact hrest entry hentry
    · intro h
      obtain ⟨⟨hnew, hkeys⟩, hslots⟩ := h
      exact ⟨hnew, hslots _ List.mem_cons_self, hkeys,
        fun entry hentry => hslots entry (List.mem_cons_of_mem _ hentry)⟩

theorem Shape.WellFormed.of_mem {slots : List (String × Slot)} (h : Shape.WellFormed slots)
    {key : String} {slot : Slot} (hmem : (key, slot) ∈ slots) : slot.WellFormed :=
  (Shape.wellFormed_iff.mp h).2 _ hmem

/-! ## Tables -/

theorem Shape.wellFormed_ofEntries {entries : List (String × Slot)}
    (hentries : ∀ entry ∈ entries, entry.2.WellFormed) :
    Shape.WellFormed (Table.ofEntries entries) := by
  rw [Shape.wellFormed_iff]
  refine ⟨Table.nodup_keys_ofEntries entries, ?_⟩
  intro entry hentry
  rcases Table.mem_of_mem_insertAll hentry with hentry | hentry
  · cases hentry
  · exact hentries entry hentry

/-- Leaves under distinct keys. -/
theorem Shape.wellFormed_leaves {α : Type} {fields : Table α} (h : (Table.keys fields).Nodup)
    (tag : α → Tag) :
    Shape.WellFormed (fields.map fun field => (field.1, .leaf (tag field.2))) := by
  rw [Shape.wellFormed_iff]
  constructor
  · have hkeys : Table.keys (fields.map fun field => (field.1, Slot.leaf (tag field.2))) =
        Table.keys fields := by
      rw [Table.keys, Table.keys, List.map_map]
      rfl
    rw [hkeys]
    exact h
  · intro entry hentry
    obtain ⟨field, -, rfl⟩ := List.mem_map.mp hentry
    trivial

/-! ## Decoded shapes -/

mutual

theorem Slot.wellFormed_of_ofJson? :
    (value : Json) → (slot : Slot) → Slot.ofJson? value = some slot → slot.WellFormed
  | .object members, slot, h => by
    unfold Slot.ofJson? at h
    split at h
    · cases h
      trivial
    · obtain ⟨slots, hslots, rfl⟩ := Option.map_eq_some_iff.mp h
      exact Shape.wellFormed_ofEntries (Shape.wellFormed_of_ofMembers? members slots hslots)
  | .null, slot, h | .bool _, slot, h | .number _, slot, h | .text _, slot, h
  | .list _, slot, h => by
    unfold Slot.ofJson? at h
    obtain ⟨tag, -, rfl⟩ := Option.map_eq_some_iff.mp h
    trivial

theorem Shape.wellFormed_of_ofMembers? :
    (members : List (String × Json)) → (slots : List (String × Slot)) →
      Shape.ofMembers? members = some slots → ∀ entry ∈ slots, entry.2.WellFormed
  | [], slots, h => by
    unfold Shape.ofMembers? at h
    cases h
    intro entry hentry
    cases hentry
  | (name, value) :: rest, slots, h => by
    unfold Shape.ofMembers? at h
    split at h
    · next slot others hslot hothers =>
      cases h
      intro entry hentry
      rcases List.mem_cons.mp hentry with rfl | hentry
      · exact Slot.wellFormed_of_ofJson? value slot hslot
      · exact Shape.wellFormed_of_ofMembers? rest others hothers entry hentry
    · cases h

end

theorem Slot.wellFormed_of_decode {value : Json} {slot : Slot}
    (h : Slot.form.decode value = .ok slot) : slot.WellFormed :=
  Slot.wellFormed_of_ofJson? value slot (Json.Form.decode_alternatives_eq_ok_iff.1 h)

/-- A decoded shape is well formed. -/
theorem Shape.wellFormed_of_decode {value : Json} {shape : Shape}
    (h : Shape.form.decode value = .ok shape) : Shape.WellFormed shape := by
  have hslots : Slot.form.Gives Slot.WellFormed := fun _ _ => Slot.wellFormed_of_decode
  exact Shape.wellFormed_iff.2 (hslots.table value shape h)

/-! ## Inferred shapes -/

/-- A declaration names no field of its first argument twice. -/
def Declaration.DistinctFields : Declaration → Prop
  | .call _ (.fields fields :: _) => (Table.keys fields).Nodup
  | _ => True

namespace Declaration

theorem nodup_of_argumentOf {value : Json} {fields : List (String × Declaration)}
    (h : argumentOf value = .fields fields) : (Table.keys fields).Nodup := by
  cases value with
  | object members =>
    unfold argumentOf at h
    split at h
    · cases h
      exact Table.nodup_keys_ofEntries _
    · cases h
  | list items =>
    unfold argumentOf at h
    split at h <;> cases h
  | _ =>
    unfold argumentOf at h
    cases h

theorem distinctFields_of_argumentsOf (callee : String) (items : List Json) :
    (Declaration.call callee (argumentsOf items)).DistinctFields := by
  cases items with
  | nil =>
    unfold argumentsOf
    trivial
  | cons item rest =>
    unfold argumentsOf
    cases hitem : argumentOf item with
    | fields fields => exact nodup_of_argumentOf hitem
    | _ => trivial

theorem distinctFields_of_argumentsOf? {value : Json} {arguments : List Argument}
    (h : argumentsOf? value = some arguments) (callee : String) :
    (Declaration.call callee arguments).DistinctFields := by
  cases value with
  | list items =>
    unfold argumentsOf? at h
    cases h
    exact distinctFields_of_argumentsOf callee items
  | _ =>
    unfold argumentsOf? at h
    cases h

/-- The arguments that a description lists have been read from a JSON value. -/
theorem exists_of_mem_describe {members : List (String × Json)} {arguments : List Argument}
    (h : some arguments ∈ (describe members).arguments) :
    ∃ value, argumentsOf? value = some arguments := by
  induction members with
  | nil =>
    unfold describe at h
    cases h
  | cons entry rest ih =>
    obtain ⟨key, value⟩ := entry
    unfold describe at h
    dsimp only at h
    split at h
    · exact ih h
    split at h
    · exact ih h
    split at h
    · rcases List.mem_cons.mp h with heq | h
      · exact ⟨value, heq.symm⟩
      · exact ih h
    · exact ih h

/-- A decoded declaration names no field twice. -/
theorem distinctFields_of_ofJson? {value : Json} {declaration : Declaration}
    (h : ofJson? value = some declaration) : declaration.DistinctFields := by
  cases value with
  | text word =>
    unfold ofJson? at h
    split at h
    · cases h
      trivial
    · cases h
      trivial
  | object members =>
    unfold ofJson? at h
    split at h
    · cases h
      trivial
    unfold ofDescription? at h
    split at h
    · cases h
      trivial
    · cases h
      trivial
    · split at h
      · cases h
        trivial
      · next callee arguments _ harguments =>
        cases h
        have hlisted : some arguments ∈ (describe members).arguments := by
          rw [harguments]
          exact List.mem_singleton.mpr rfl
        obtain ⟨value, hvalue⟩ := exists_of_mem_describe hlisted
        exact distinctFields_of_argumentsOf? hvalue callee
      · cases h
    · cases h
  | list items =>
    unfold ofJson? ofItems? at h
    split at h
    · split at h
      · cases h
        trivial
      · cases h
        trivial
      · cases h
    · split at h
      · cases h
        trivial
      · cases h
    · split at h
      · next callee arguments _ _ harguments =>
        cases h
        exact distinctFields_of_argumentsOf? harguments callee
      · cases h
    · cases h
  | _ =>
    unfold ofJson? at h
    cases h

end Declaration

theorem Entry.wellFormed_slot_shape {fields : Table Tag} (h : (Table.keys fields).Nodup) :
    (Entry.shape fields).slot.WellFormed := by
  cases fields with
  | nil => trivial
  | cons field rest => exact Shape.wellFormed_leaves h fun tag => tag

theorem Entry.wellFormed_slot_oneOf (choices : List Choice) :
    (Entry.oneOf choices).slot.WellFormed := by
  cases choices with
  | nil => trivial
  | cons choice rest =>
    refine Shape.wellFormed_ofEntries ?_
    intro entry hentry
    obtain ⟨choice', -, rfl⟩ := List.mem_map.mp hentry
    trivial

/-- What a declaration contributes to a level is well formed. -/
theorem wellFormed_of_resolve {prop : String} {declaration : Declaration}
    (hfields : declaration.DistinctFields) {entry : Entry}
    (h : declaration.resolve prop = .ok entry) : entry.slot.WellFormed := by
  rcases Declaration.resolve_cases h with ⟨known, -, hslot⟩ | ⟨choices, more, rfl, rfl⟩ |
    ⟨fields, more, tags, rfl, htags, rfl⟩ | ⟨-, hslot⟩
  · rw [hslot]
    trivial
  · exact Entry.wellFormed_slot_oneOf _
  · apply Entry.wellFormed_slot_shape
    rw [keys_scalarFields htags]
    exact hfields
  · rw [hslot]
    trivial

namespace Inference

theorem wellFormed_of_resolveAll {declarations : List (String × Declaration)}
    (hfields : ∀ entry ∈ declarations, entry.2.DistinctFields)
    {declared : List (String × Slot)} (h : resolveAll declarations = .ok declared) :
    ∀ entry ∈ declared, entry.2.WellFormed := by
  rintro ⟨name, slot⟩ hslot
  obtain ⟨declaration, entry, hdeclaration, hentry, rfl⟩ := (mem_of_resolveAll_iff h).1 hslot
  exact wellFormed_of_resolve (hfields _ hdeclaration) hentry

variable {deep : Bool} {declared : List (String × Slot)}

/-- The keys of a level are distinct by its construction, so that it is well
formed if its slots are. -/
theorem wellFormed_level_of_undeclared (hdeclared : ∀ entry ∈ declared, entry.2.WellFormed)
    {reads : List (String × Access)}
    (hreads : ∀ entry ∈ undeclared deep declared reads, entry.2.WellFormed) :
    Shape.WellFormed (level deep declared reads) := by
  refine Shape.wellFormed_ofEntries ?_
  intro entry hentry
  rcases List.mem_append.mp hentry with hentry | hentry
  · exact hreads entry hentry
  · exact hdeclared entry hentry

theorem wellFormed_level (hdeclared : ∀ entry ∈ declared, entry.2.WellFormed)
    (reads : List (String × Access)) : Shape.WellFormed (level deep declared reads) :=
  wellFormed_level_of_undeclared hdeclared
    (undeclared_induction trivial (fun _ _ => wellFormed_level_of_undeclared hdeclared) reads)

end Inference

/-- An inferred shape is well formed. -/
theorem infer_wellFormed {deep : Bool} {reads : Table Access} {declarations : Table Declaration}
    (hfields : ∀ entry ∈ declarations, entry.2.DistinctFields) {shape : Shape}
    (h : infer deep reads declarations = .ok (some shape)) : Shape.WellFormed shape := by
  unfold infer at h
  split at h
  · cases h
  · cases hdeclared : Inference.resolveAll declarations with
    | error error =>
      rw [hdeclared] at h
      cases h
    | ok declared =>
      rw [hdeclared] at h
      cases h
      exact Inference.wellFormed_level (Inference.wellFormed_of_resolveAll hfields hdeclared) reads

end ComponentProps
