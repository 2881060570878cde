import ComponentProps.Proofs.Shape.PlainData
import Mathlib

/-!
# Which values are read as shapes

Shapes are written as plain data: objects all the way down to strings that name
tags.  The decoder takes one form more.  A tag is also read from an object that
has null under the name of the tag and nothing else, and such an object may stand
wherever a leaf may.

* `Json.IsSlotData`, `Json.IsShapeData`: plain data.  It is what slots and shapes
  are written as (`Json.isSlotData_iff`).
* `Json.SpellsSlot`, `Json.SpellsShape`: what the decoder takes.
* `Slot.Spelled`, `Shape.Spelled`: what is read from a value, with the keys in
  their order.
* `Slot.ofJson?_eq_some_iff`, `Shape.ofJson_eq_ok_iff`: the decoder reads just
  this, from values whose objects repeat no key.
* `Shape.ofJson_iff`: which values are read, and from which of them the shape is
  written back as the same value.
-/

namespace ComponentProps

/-! ## Forms of values -/

/-- The plain data of a slot: the name of a tag, or an object of such data. -/
inductive Json.IsSlotData : Json → Prop
  | tag (tag : Tag) : IsSlotData (.text tag.name)
  | object {members : List (String × Json)} (h : ∀ member ∈ members, IsSlotData member.2) :
      IsSlotData (.object members)

/-- The plain data of a shape: an object whose values are plain data of slots. -/
def Json.IsShapeData (value : Json) : Prop :=
  ∃ members, value = .object members ∧ ∀ member ∈ members, member.2.IsSlotData

/-- The values that a slot is read from.  Besides plain data this is null, in an
object of its own under the name of a tag. -/
inductive Json.SpellsSlot : Json → Prop
  | tag (tag : Tag) : SpellsSlot (.text tag.name)
  | unit (tag : Tag) : SpellsSlot (.object [(tag.name, .null)])
  | object {members : List (String × Json)} (h : ∀ member ∈ members, SpellsSlot member.2) :
      SpellsSlot (.object members)

/-- The values that a shape is read from: objects of values for slots. -/
def Json.SpellsShape (value : Json) : Prop :=
  ∃ members, value = .object members ∧ ∀ member ∈ members, member.2.SpellsSlot

mutual

/-- A slot is read from a value. -/
def Slot.Spelled : Slot → Json → Prop
  | .leaf tag, value => value = .text tag.name ∨ value = .object [(tag.name, .null)]
  | .nested slots, value => ∃ members, value = .object members ∧ Shape.Spelled slots members

/-- A shape is read from the members of an object, one slot from each and in
their order. -/
def Shape.Spelled : List (String × Slot) → List (String × Json) → Prop
  | [], members => members = []
  | (key, slot) :: rest, members =>
    ∃ value others, members = (key, value) :: others ∧ slot.Spelled value ∧
      Shape.Spelled rest others

end

theorem Shape.spelled_nil_iff {members : List (String × Json)} :
    Shape.Spelled [] members ↔ members = [] := by
  rw [Shape.Spelled]

theorem Shape.spelled_cons_iff {key : String} {slot : Slot} {rest : List (String × Slot)}
    {members : List (String × Json)} :
    Shape.Spelled ((key, slot) :: rest) members ↔
      ∃ value others, members = (key, value) :: others ∧ slot.Spelled value ∧
        Shape.Spelled rest others := by
  rw [Shape.Spelled]

theorem Slot.spelled_nested_iff {slots : List (String × Slot)} {value : Json} :
    (Slot.nested slots).Spelled value ↔
      ∃ members, value = .object members ∧ Shape.Spelled slots members := by
  rw [Slot.Spelled]

/-- Null alone spells nothing. -/
theorem Slot.not_spelled_null (slot : Slot) : ¬ slot.Spelled .null := by
  intro h
  cases slot with
  | leaf tag =>
    rw [Slot.Spelled] at h
    rcases h with h | h <;> cases h
  | nested slots =>
    obtain ⟨members, hmembers, -⟩ := Slot.spelled_nested_iff.1 h
    cases hmembers

/-- A shape has the keys of the members that it is read from. -/
theorem Shape.Spelled.keys_eq {slots : List (String × Slot)} {members : List (String × Json)}
    (h : Shape.Spelled slots members) : Table.keys slots = Table.keys members := by
  induction slots generalizing members with
  | nil => rw [Shape.spelled_nil_iff.1 h]; rfl
  | cons entry rest ih =>
    obtain ⟨value, others, rfl, -, hrest⟩ := Shape.spelled_cons_iff.1 h
    rw [Table.keys_cons, Table.keys_cons, ih hrest]

/-! ## Slots of some kind -/

/-- Every member that a shape is read from is the value of one of its slots. -/
theorem Shape.Spelled.exists_slot {slots : List (String × Slot)}
    {members : List (String × Json)} (h : Shape.Spelled slots members) :
    ∀ member ∈ members, ∃ entry ∈ slots, entry.2.Spelled member.2 := by
  induction slots generalizing members with
  | nil =>
    rw [Shape.spelled_nil_iff.1 h]
    intro member hmember
    cases hmember
  | cons entry rest ih =>
    obtain ⟨value, others, rfl, hslot, hrest⟩ := Shape.spelled_cons_iff.1 h
    intro member hmember
    rcases List.mem_cons.1 hmember with rfl | hmember
    · exact ⟨entry, List.mem_cons_self, hslot⟩
    · obtain ⟨other, hother, hspelled⟩ := ih hrest member hmember
      exact ⟨other, List.mem_cons_of_mem _ hother, hspelled⟩

theorem Shape.exists_spelled {members : List (String × Json)}
    (h : ∀ member ∈ members, ∃ slot : Slot, slot.Spelled member.2) :
    ∃ slots, Shape.Spelled slots members := by
  induction members with
  | nil => exact ⟨[], Shape.spelled_nil_iff.2 rfl⟩
  | cons member rest ih =>
    rw [List.forall_mem_cons] at h
    obtain ⟨⟨slot, hslot⟩, hrest⟩ := h
    obtain ⟨slots, hslots⟩ := ih hrest
    exact ⟨(member.1, slot) :: slots, Shape.spelled_cons_iff.2 ⟨_, rest, rfl, hslot, hslots⟩⟩

/-- The values that some slot is read from. -/
theorem Json.spellsSlot_iff {value : Json} :
    value.SpellsSlot ↔ ∃ slot : Slot, slot.Spelled value := by
  constructor
  · intro h
    induction h with
    | tag tag => exact ⟨.leaf tag, by rw [Slot.Spelled]; exact Or.inl rfl⟩
    | unit tag => exact ⟨.leaf tag, by rw [Slot.Spelled]; exact Or.inr rfl⟩
    | object _ ih =>
      obtain ⟨slots, hslots⟩ := Shape.exists_spelled ih
      exact ⟨.nested slots, Slot.spelled_nested_iff.2 ⟨_, rfl, hslots⟩⟩
  · intro h
    obtain ⟨slot, hslot⟩ := h
    induction slot generalizing value with
    | leaf tag =>
      rw [Slot.Spelled] at hslot
      rcases hslot with rfl | rfl
      · exact .tag tag
      · exact .unit tag
    | nested slots ih =>
      obtain ⟨members, rfl, hslots⟩ := Slot.spelled_nested_iff.1 hslot
      refine .object ?_
      intro member hmember
      obtain ⟨entry, hentry, hspelled⟩ := hslots.exists_slot member hmember
      exact ih entry hentry hspelled

theorem Shape.exists_membersJson {members : List (String × Json)}
    (h : ∀ member ∈ members, ∃ slot : Slot, slot.toJson = member.2) :
    ∃ slots, Shape.membersJson slots = members := by
  induction members with
  | nil => exact ⟨[], rfl⟩
  | cons member rest ih =>
    rw [List.forall_mem_cons] at h
    obtain ⟨⟨slot, hslot⟩, hrest⟩ := h
    obtain ⟨slots, hslots⟩ := ih hrest
    exact ⟨(member.1, slot) :: slots, by rw [Shape.membersJson, hslot, hslots]⟩

theorem Shape.exists_of_mem_membersJson {slots : List (String × Slot)}
    {member : String × Json} (h : member ∈ Shape.membersJson slots) :
    ∃ entry ∈ slots, member = (entry.1, entry.2.toJson) := by
  induction slots with
  | nil => cases h
  | cons entry rest ih =>
    rw [Shape.membersJson, List.mem_cons] at h
    rcases h with rfl | h
    · exact ⟨entry, List.mem_cons_self, rfl⟩
    · obtain ⟨other, hother, hmember⟩ := ih h
      exact ⟨other, List.mem_cons_of_mem _ hother, hmember⟩

/-- Plain data is what slots are written as. -/
theorem Json.isSlotData_iff {value : Json} :
    value.IsSlotData ↔ ∃ slot : Slot, slot.toJson = value := by
  constructor
  · intro h
    induction h with
    | tag tag => exact ⟨.leaf tag, rfl⟩
    | object _ ih =>
      obtain ⟨slots, rfl⟩ := Shape.exists_membersJson ih
      exact ⟨.nested slots, rfl⟩
  · intro h
    obtain ⟨slot, rfl⟩ := h
    induction slot with
    | leaf tag => exact .tag tag
    | nested slots ih =>
      refine .object ?_
      intro member hmember
      obtain ⟨entry, hentry, rfl⟩ := Shape.exists_of_mem_membersJson hmember
      exact ih entry hentry

/-- A slot is read from what it is written as. -/
theorem Slot.spelled_toJson (slot : Slot) : slot.Spelled slot.toJson := by
  induction slot with
  | leaf tag =>
    rw [Slot.Spelled]
    exact Or.inl rfl
  | nested slots ih =>
    refine Slot.spelled_nested_iff.2 ⟨_, rfl, ?_⟩
    induction slots with
    | nil => exact Shape.spelled_nil_iff.2 rfl
    | cons entry rest ihrest =>
      rw [List.forall_mem_cons] at ih
      exact Shape.spelled_cons_iff.2 ⟨_, _, rfl, ih.1, ihrest ih.2⟩

/-! ## Decoding -/

/-- The values of an object without repetitions are without them, and so are its
keys. -/
theorem Json.distinct_object_iff {members : List (String × Json)} :
    (Json.object members).distinct = .object members ↔
      (Table.keys members).Nodup ∧ ∀ member ∈ members, member.2.distinct = member.2 := by
  have hkeys (members : List (String × Json)) :
      Table.keys (Json.distinctMembers members) = Table.keys members := by
    induction members with
    | nil => rfl
    | cons member rest ih => rw [Json.distinctMembers, Table.keys_cons, Table.keys_cons, ih]
  have hvalues (members : List (String × Json)) :
      Json.distinctMembers members = members ↔
        ∀ member ∈ members, member.2.distinct = member.2 := by
    induction members with
    | nil => simp [Json.distinctMembers]
    | cons member rest ih =>
      rw [Json.distinctMembers, List.cons_eq_cons, List.forall_mem_cons, ih, Prod.ext_iff]
      simp
  rw [Json.distinct, Json.object.injEq, ← hvalues]
  constructor
  · intro h
    have hnodup : (Table.keys members).Nodup := by
      rw [← h]
      exact Table.nodup_keys_ofEntries _
    refine ⟨hnodup, ?_⟩
    rw [← hkeys] at hnodup
    rw [Table.ofEntries_of_nodup hnodup] at h
    exact h
  · intro h
    obtain ⟨hnodup, hmembers⟩ := h
    rw [hmembers, Table.ofEntries_of_nodup hnodup]

mutual

theorem Slot.spelled_of_ofJson? :
    (value : Json) → value.distinct = value → (slot : Slot) → Slot.ofJson? value = some slot →
      slot.Spelled value
  | .object members, hvalue, slot, h => by
    rw [Slot.ofJson?] at h
    split at h
    next tag htag =>
      cases h
      rw [Tag.ofJson?_object_eq_some_iff] at htag
      rw [Slot.Spelled, htag]
      exact Or.inr rfl
    next =>
      obtain ⟨slots, hslots, rfl⟩ := Option.map_eq_some_iff.1 h
      obtain ⟨hkeys, hmembers⟩ := Json.distinct_object_iff.1 hvalue
      have hspelled := Shape.spelled_of_ofMembers? members hmembers slots hslots
      rw [← hspelled.keys_eq] at hkeys
      rw [Table.ofEntries_of_nodup hkeys]
      exact Slot.spelled_nested_iff.2 ⟨members, rfl, hspelled⟩
  | .text word, _, slot, h => by
    rw [Slot.ofJson?, Tag.ofJson?_text] at h
    · obtain ⟨tag, htag, rfl⟩ := Option.map_eq_some_iff.1 h
      rw [Slot.Spelled, Tag.name_of_ofName? htag]
      exact Or.inl rfl
    · intro members heq
      cases heq
  | .null, _, slot, h | .bool _, _, slot, h | .number _, _, slot, h | .list _, _, slot, h => by
    cases h

theorem Shape.spelled_of_ofMembers? :
    (members : List (String × Json)) → (∀ member ∈ members, member.2.distinct = member.2) →
      (slots : List (String × Slot)) → Shape.ofMembers? members = some slots →
        Shape.Spelled slots members
  | [], _, slots, h => by
    cases h
    exact Shape.spelled_nil_iff.2 rfl
  | (key, value) :: rest, hmembers, slots, h => by
    rw [List.forall_mem_cons] at hmembers
    rw [Shape.ofMembers?] at h
    split at h
    next slot others hslot hothers =>
      cases h
      have hvalue := Slot.spelled_of_ofJson? value hmembers.1 slot hslot
      have hrest := Shape.spelled_of_ofMembers? rest hmembers.2 others hothers
      exact Shape.spelled_cons_iff.2 ⟨value, rest, rfl, hvalue, hrest⟩
    next => cases h

end

theorem Shape.ofMembers?_of_spelled {slots : List (String × Slot)}
    {members : List (String × Json)}
    (hslots : ∀ entry ∈ slots, ∀ value : Json, value.distinct = value → entry.2.Spelled value →
      Slot.ofJson? value = some entry.2)
    (hmembers : ∀ member ∈ members, member.2.distinct = member.2)
    (h : Shape.Spelled slots members) : Shape.ofMembers? members = some slots := by
  induction slots generalizing members with
  | nil =>
    rw [Shape.spelled_nil_iff.1 h]
    rfl
  | cons entry rest ih =>
    obtain ⟨value, others, rfl, hslot, hrest⟩ := Shape.spelled_cons_iff.1 h
    rw [List.forall_mem_cons] at hslots hmembers
    rw [Shape.ofMembers?, hslots.1 value hmembers.1 hslot, ih hslots.2 hmembers.2 hrest]

/-- What is read from a value whose objects repeat no key. -/
theorem Slot.ofJson?_eq_some_iff {value : Json} (hvalue : value.distinct = value)
    {slot : Slot} : Slot.ofJson? value = some slot ↔ slot.Spelled value := by
  refine ⟨Slot.spelled_of_ofJson? value hvalue slot, ?_⟩
  intro h
  induction slot generalizing value with
  | leaf tag =>
    rw [Slot.Spelled] at h
    rcases h with rfl | rfl
    · rw [Slot.ofJson?, Tag.ofJson?_text, Tag.ofName?_name]
      · rfl
      · intro members heq
        cases heq
    · rw [Slot.ofJson?, Tag.ofJson?_object_eq_some_iff.2 rfl]
  | nested slots ih =>
    obtain ⟨members, rfl, hspelled⟩ := Slot.spelled_nested_iff.1 h
    obtain ⟨hkeys, hmembers⟩ := Json.distinct_object_iff.1 hvalue
    -- null is no slot, so the members are not those that a tag is read from
    have htag : Tag.ofJson? (.object members) = none := by
      rw [Option.eq_none_iff_forall_ne_some]
      intro tag htag
      rw [Tag.ofJson?_object_eq_some_iff] at htag
      rw [htag] at hspelled
      obtain ⟨entry, -, hnull⟩ := hspelled.exists_slot _ List.mem_cons_self
      exact entry.2.not_spelled_null hnull
    have hslots : Shape.ofMembers? members = some slots :=
      Shape.ofMembers?_of_spelled (fun entry hentry _ hvalue h => ih entry hentry hvalue h)
        hmembers hspelled
    rw [← hspelled.keys_eq] at hkeys
    rw [Slot.ofJson?, htag, hslots]
    exact congrArg (fun slots => some (Slot.nested slots)) (Table.ofEntries_of_nodup hkeys)

theorem Shape.decodeMembers_eq_ok_iff {members : List (String × Json)} {table shape : Table Slot} :
    Slot.form.decodeMembers table members = .ok shape ↔
      ∃ slots, Shape.ofMembers? members = some slots ∧ Table.insertAll table slots = shape := by
  induction members generalizing table with
  | nil => simp [Json.Form.decodeMembers, Shape.ofMembers?, Table.insertAll]
  | cons member rest ih =>
    obtain ⟨key, value⟩ := member
    rw [Json.Form.decodeMembers, Shape.ofMembers?, Except.bind_eq_ok_iff]
    simp only [Json.within_eq_ok_iff, ih]
    have hslot (slot : Slot) :
        Slot.form.decode value = .ok slot ↔ Slot.ofJson? value = some slot :=
      Json.Form.decode_alternatives_eq_ok_iff
    simp only [hslot]
    cases Slot.ofJson? value with
    | none => simp
    | some slot =>
      cases Shape.ofMembers? rest with
      | none => simp
      | some slots => simp [Table.insertAll]

/-- What is read from a value whose objects repeat no key. -/
theorem Shape.ofJson_eq_ok_iff {value : Json} (hvalue : value.distinct = value)
    {shape : Shape} :
    Shape.form.ofJson value = .ok shape ↔
      ∃ members, value = .object members ∧ Shape.Spelled shape members := by
  rw [Json.Form.ofJson_eq_ok_iff]
  constructor
  · intro h
    cases value with
    | object members =>
      obtain ⟨hkeys, hmembers⟩ := Json.distinct_object_iff.1 hvalue
      obtain ⟨slots, hslots, rfl⟩ := Shape.decodeMembers_eq_ok_iff.1 h
      have hspelled := Shape.spelled_of_ofMembers? members hmembers slots hslots
      rw [← hspelled.keys_eq] at hkeys
      have htable : Table.insertAll [] slots = slots := Table.ofEntries_of_nodup hkeys
      rw [htable]
      exact ⟨members, rfl, hspelled⟩
    | _ => cases h
  · intro h
    obtain ⟨members, rfl, hspelled⟩ := h
    obtain ⟨hkeys, hmembers⟩ := Json.distinct_object_iff.1 hvalue
    have hslots : Shape.ofMembers? members = some shape :=
      Shape.ofMembers?_of_spelled
        (fun _ _ _ hvalue h => (Slot.ofJson?_eq_some_iff hvalue).2 h) hmembers hspelled
    rw [← hspelled.keys_eq] at hkeys
    exact Shape.decodeMembers_eq_ok_iff.2 ⟨shape, hslots, Table.ofEntries_of_nodup hkeys⟩

/-! ## The values of shapes -/

/-- A shape is read from an object of strings that name tags, of objects with null
alone under the name of a tag, and of objects of the same kind again, and from
nothing else.  It has one slot for each member, in the order of the members.  It
is written back as the value that it was read from exactly if the value is plain
data, which does without the null. -/
theorem Shape.ofJson_iff {value : Json} (hvalue : value.distinct = value) :
    ((∃ shape, Shape.form.ofJson value = .ok shape) ↔ value.SpellsShape) ∧
      (∀ shape, Shape.form.ofJson value = .ok shape ↔
        ∃ members, value = .object members ∧ Shape.Spelled shape members) ∧
      ((∃ shape, Shape.form.ofJson value = .ok shape ∧ Shape.toJson shape = value) ↔
        value.IsShapeData) := by
  refine ⟨?_, fun shape => Shape.ofJson_eq_ok_iff hvalue, ?_⟩
  · simp only [Shape.ofJson_eq_ok_iff hvalue]
    constructor
    · intro h
      obtain ⟨shape, members, hmembers, hspelled⟩ := h
      refine ⟨members, hmembers, ?_⟩
      intro member hmember
      obtain ⟨entry, -, hentry⟩ := hspelled.exists_slot member hmember
      exact Json.spellsSlot_iff.2 ⟨entry.2, hentry⟩
    · intro h
      obtain ⟨members, hmembers, hspells⟩ := h
      obtain ⟨shape, hshape⟩ := Shape.exists_spelled fun member hmember =>
        Json.spellsSlot_iff.1 (hspells member hmember)
      exact ⟨shape, members, hmembers, hshape⟩
  · simp only [Shape.ofJson_eq_ok_iff hvalue]
    constructor
    · intro h
      obtain ⟨shape, -, rfl⟩ := h
      refine ⟨Shape.membersJson shape, rfl, ?_⟩
      intro member hmember
      obtain ⟨entry, -, rfl⟩ := Shape.exists_of_mem_membersJson hmember
      exact Json.isSlotData_iff.2 ⟨entry.2, rfl⟩
    · intro h
      obtain ⟨members, rfl, hdata⟩ := h
      obtain ⟨shape, rfl⟩ := Shape.exists_membersJson fun member hmember =>
        Json.isSlotData_iff.1 (hdata member hmember)
      obtain ⟨others, hothers, hspelled⟩ :=
        Slot.spelled_nested_iff.1 (Slot.spelled_toJson (.nested shape))
      cases hothers
      exact ⟨shape, ⟨_, rfl, hspelled⟩, rfl⟩

/-- Null under the name of a tag is taken for the tag, next to plain data. -/
theorem Shape.ofJson_beside_unit :
    let value : Json :=
      .object [("a", .object [("any", .null)]), ("b", .object [("any", .text "bool")])]
    value.distinct = value ∧
      Shape.form.ofJson value = .ok [("a", .leaf .any), ("b", .nested [("any", .leaf .bool)])] ∧
      ∃ shape, Shape.form.ofJson value = .ok shape := by
  intro value
  have hvalue : value.distinct = value := rfl
  obtain ⟨hread, hshape, -⟩ := Shape.ofJson_iff hvalue
  refine ⟨hvalue, (hshape _).2 ⟨_, rfl, ?_⟩, hread.2 ⟨_, rfl, ?_⟩⟩
  · simp [Shape.Spelled, Slot.Spelled, Tag.name]
  · have hunit : (Json.object [("any", .null)]).SpellsSlot := .unit .any
    have hnested : (Json.object [("any", .text "bool")]).SpellsSlot := by
      refine .object ?_
      intro member hmember
      rw [List.mem_singleton.1 hmember]
      exact .tag .bool
    intro member hmember
    rcases List.mem_cons.1 hmember with rfl | hmember
    · exact hunit
    · rw [List.mem_singleton.1 hmember]
      exact hnested

/-- The decoder takes an object with a null in it, which is no plain data, and the
shape that it reads is written as another value. -/
theorem Shape.ofJson_unit :
    (Json.object [("a", .object [("any", .null)])]).distinct =
        .object [("a", .object [("any", .null)])] ∧
      Shape.form.ofJson (.object [("a", .object [("any", .null)])]) = .ok [("a", .leaf .any)] ∧
      ¬ (Json.object [("a", .object [("any", .null)])]).IsShapeData ∧
      Shape.toJson [("a", .leaf .any)] ≠ .object [("a", .object [("any", .null)])] := by
  refine ⟨rfl, rfl, ?_, ?_⟩
  · intro h
    obtain ⟨members, hmembers, hdata⟩ := h
    cases hmembers
    cases hdata _ List.mem_cons_self with
    | object hinner => cases hinner _ List.mem_cons_self
  · intro h
    cases h

end ComponentProps
