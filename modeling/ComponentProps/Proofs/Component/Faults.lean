import ComponentProps.Proofs.Component.Document
import Mathlib

/-!
# Where a list of components is at fault

A document that is a list can be decoded in two ways: in one go, with one path from
the root of the list to the fault, or item by item, where the path inside the item is
put behind the position of the item.  The two give the same components and find the
same fault.  They spell its path alike unless the path inside the item begins with a
position, as it does in an item that lists the values of its fields.

There are four groups.

* Paths.  Inside an item, a path goes on behind the position of the item: with
  nothing at the root of the item, with a dot at a key, and with nothing at a
  position, where `DecodeError.within` writes a dot as well.
* Records.  `Form.record_error_cases`: the path of a fault begins with the key of a
  field in an object, and with a position in a list.
* Lists.  `Form.FirstFault` is the first item that does not have the form, where every
  way of decoding a list stops.
* Documents.  `Component.load_list` compares the two ways.
-/

namespace ComponentProps

namespace Json

/-! ## Paths -/

/-- The position of an item, as it stands in a path. -/
def indexText (position : Nat) : String := "[" ++ toString position ++ "]"

/-- The path of a fault that was found inside an item, put behind the position of the
item. -/
def rerooted (position : Nat) (path : List Segment) : String :=
  if pathText path = "." then indexText position else indexText position ++ "." ++ pathText path

theorem within_indexText (position : Nat) (fault : Fault) :
    (DecodeError.ofFault [] fault).within (indexText position) =
      .decode (rerooted position fault.path) fault.problem (fault.mark.map (Mark.position [])) :=
  rfl

theorem pathText_key_ne {key : String} (hempty : key ≠ "") (hdot : key ≠ ".")
    (path : List Segment) : pathText (.key key :: path) ≠ "." := by
  intro h
  have hchars : key.toList ++ (segmentsText false path).toList = ['.'] := by
    have htext := congrArg String.toList h
    simpa [pathText, segmentsText] using htext
  rcases List.append_eq_singleton_iff.1 hchars with hkey | hkey
  · exact hempty (by simpa using hkey.1)
  · exact hdot (String.toList_injective hkey.1)

theorem pathText_index_ne (position : Nat) (path : List Segment) :
    pathText (.index position :: path) ≠ "." := by
  intro h
  have htext := congrArg String.toList h
  simp [pathText, segmentsText] at htext

theorem rerooted_nil (position : Nat) :
    rerooted position [] = pathText [.index position] := by
  simp [rerooted, pathText, segmentsText, indexText]

/-- A path that begins with a key goes on behind a dot. -/
theorem rerooted_key {key : String} (hempty : key ≠ "") (hdot : key ≠ ".") (position : Nat)
    (path : List Segment) :
    rerooted position (.key key :: path) = pathText (.index position :: .key key :: path) := by
  have hbehind : "." ++ pathText (.key key :: path) = segmentsText false (.key key :: path) := by
    simp [pathText, segmentsText, String.append_assoc]
  rw [rerooted, if_neg (pathText_key_ne hempty hdot path), String.append_assoc, hbehind]
  rfl

/-- A path that begins with a position goes on without a dot, but is put behind one. -/
theorem rerooted_index (position below : Nat) (path : List Segment) :
    rerooted position (.index below :: path) =
        indexText position ++ "." ++ pathText (.index below :: path) ∧
      pathText (.index position :: .index below :: path) =
        indexText position ++ pathText (.index below :: path) := by
  constructor
  · rw [rerooted, if_neg (pathText_index_ne below path)]
  · simp [pathText, segmentsText, indexText]

theorem rerooted_index_ne (position below : Nat) (path : List Segment) :
    rerooted position (.index below :: path) ≠
      pathText (.index position :: .index below :: path) := by
  obtain ⟨hrerooted, hpath⟩ := rerooted_index position below path
  rw [hrerooted, hpath]
  intro h
  have hlength := congrArg String.length h
  simp at hlength

namespace Form

variable {α : Type}

/-! ## Records -/

/-- A fault in a member of a record is reached by the key of a field. -/
theorem decodeFields_error {fields : List (Field α)} {start : α} {members : List (String × Json)}
    {fault : Fault} (h : decodeFields fields start members = .error fault) :
    ∃ field ∈ fields, ∃ path, fault.path = .key field.name :: path := by
  induction members generalizing start with
  | nil => cases h
  | cons member rest ih =>
    obtain ⟨key, value⟩ := member
    rw [decodeFields] at h
    split at h
    · exact ih h
    next field hfield =>
      rcases Except.bind_eq_error_iff.1 h with h | h
      · obtain ⟨inner, -, rfl⟩ := within_eq_error_iff.1 h
        have hname : field.name = key := by simpa using List.find?_some hfield
        exact ⟨field, List.mem_of_find?_eq_some hfield, inner.path, by rw [hname]; rfl⟩
      · obtain ⟨change, -, h⟩ := h
        exact ih h

/-- A fault in a record that lists its values is reached by a position, unless there
are too many of them. -/
theorem decodePositions_error {fields : List (Field α)} {position : Nat} {start : α}
    {items : List Json} {fault : Fault}
    (h : decodePositions position fields start items = .error fault) :
    fault.path = [] ∨ ∃ below path, fault.path = .index below :: path := by
  induction items generalizing fields position start with
  | nil => cases fields <;> cases h
  | cons item rest ih =>
    cases fields with
    | nil =>
      cases h
      exact Or.inl rfl
    | cons field more =>
      rw [decodePositions] at h
      rcases Except.bind_eq_error_iff.1 h with h | h
      · obtain ⟨inner, -, rfl⟩ := within_eq_error_iff.1 h
        exact Or.inr ⟨position, inner.path, rfl⟩
      · obtain ⟨change, -, h⟩ := h
        exact ih h

/-- A fault of a record is one of the record itself, one under the key of a field, or
one at a position of a record that lists its values. -/
theorem record_error_cases {name : String} {fields : List (Field α)} {start : α} {value : Json}
    {fault : Fault} (h : (record name fields start).decode value = .error fault) :
    fault.path = [] ∨
      (∃ members, value = .object members) ∧
        (∃ field ∈ fields, ∃ path, fault.path = .key field.name :: path) ∨
      (∃ items, value = .list items) ∧ ∃ below path, fault.path = .index below :: path := by
  cases value with
  | object members => exact Or.inr (Or.inl ⟨⟨members, rfl⟩, decodeFields_error h⟩)
  | list items =>
    rcases decodePositions_error h with hpath | hpath
    · exact Or.inl hpath
    · exact Or.inr (Or.inr ⟨⟨items, rfl⟩, hpath⟩)
  | _ =>
    cases h
    exact Or.inl rfl

/-! ## Lists -/

/-- The first of some items that does not have a form, with its position and its
fault. -/
inductive FirstFault (form : Form α) : List Json → Nat → Json → Fault → Prop
  | here {item : Json} {rest : List Json} {fault : Fault} (h : form.decode item = .error fault) :
      FirstFault form (item :: rest) 0 item fault
  | later {item faulty : Json} {value : α} {rest : List Json} {position : Nat} {fault : Fault}
      (hitem : form.decode item = .ok value) (hrest : FirstFault form rest position faulty fault) :
      FirstFault form (item :: rest) (position + 1) faulty fault

variable {form : Form α} {items : List Json} {position : Nat} {faulty : Json} {fault : Fault}

theorem FirstFault.decode (h : form.FirstFault items position faulty fault) :
    form.decode faulty = .error fault := by
  induction h with
  | here h => exact h
  | later _ _ ih => exact ih

/-- All of some items have a form, or there is a first one that does not. -/
theorem decode_all_or_firstFault (form : Form α) (items : List Json) :
    (∃ values, List.Forall₂ (fun item value => form.decode item = .ok value) items values) ∨
      ∃ position faulty fault, form.FirstFault items position faulty fault := by
  induction items with
  | nil => exact Or.inl ⟨[], .nil⟩
  | cons item rest ih =>
    cases hitem : form.decode item with
    | error fault => exact Or.inr ⟨0, item, fault, .here hitem⟩
    | ok value =>
      rcases ih with hall | hfirst
      · obtain ⟨values, hvalues⟩ := hall
        exact Or.inl ⟨value :: values, .cons hitem hvalues⟩
      · obtain ⟨position, faulty, fault, hfault⟩ := hfirst
        exact Or.inr ⟨position + 1, faulty, fault, .later hitem hfault⟩

theorem decodeItems_of_forall₂ {values : List α}
    (h : List.Forall₂ (fun item value => form.decode item = .ok value) items values)
    (start : Nat) : form.decodeItems start items = .ok values := by
  induction h generalizing start with
  | nil => rfl
  | cons hitem _ ih =>
    rw [decodeItems, hitem, within, ih]
    rfl

theorem FirstFault.decodeItems (h : form.FirstFault items position faulty fault) (start : Nat) :
    form.decodeItems start items = .error (fault.inside (.index (start + position))) := by
  induction h generalizing start with
  | here h =>
    rw [Form.decodeItems, h]
    rfl
  | later hitem _ ih =>
    rw [Form.decodeItems, hitem, within, ih, Nat.add_assoc, Nat.add_comm 1]
    rfl

end Form

end Json

namespace Component

/-! ## Documents -/

variable {items : List Json} {position : Nat} {faulty : Json} {fault : Json.Fault}

theorem loadItems_of_firstFault (h : form.FirstFault items position faulty fault) (start : Nat) :
    loadItems start items =
      .error ((Json.DecodeError.ofFault [] fault).within (Json.indexText (start + position))) := by
  induction h generalizing start with
  | here h =>
    rw [loadItems, Json.Form.ofJson, h]
    rfl
  | later hitem _ ih =>
    rw [loadItems, Json.Form.ofJson, hitem]
    dsimp only
    rw [ih, Nat.add_assoc, Nat.add_comm 1]
    rfl

/-- The item lists the values of its fields, and the fault is in one of them. -/
def ListedValue (item : Json) (fault : Json.Fault) : Prop :=
  (∃ values, item = .list values) ∧ fault.path ≠ []

/-- The path of a fault in a component is that of the component itself, begins with
the key of a field, or begins with a position, in a value that is listed. -/
theorem fault_cases (h : form.decode faulty = .error fault) :
    ¬ ListedValue faulty fault ∧
        (fault.path = [] ∨
          ∃ key path, key ≠ "" ∧ key ≠ "." ∧ fault.path = .key key :: path) ∨
      ListedValue faulty fault ∧ ∃ below path, fault.path = .index below :: path := by
  rcases Json.Form.record_error_cases h with hpath | hkey | hindex
  · exact Or.inl ⟨fun hlisted => hlisted.2 hpath, Or.inl hpath⟩
  · obtain ⟨⟨members, rfl⟩, field, hfield, path, hpath⟩ := hkey
    have hname : field.name ≠ "" ∧ field.name ≠ "." := by
      simp only [List.mem_cons, List.not_mem_nil, or_false] at hfield
      rcases hfield with rfl | rfl | rfl | rfl | rfl | rfl <;> decide
    refine Or.inl ⟨?_, Or.inr ⟨field.name, path, hname.1, hname.2, hpath⟩⟩
    intro hlisted
    obtain ⟨⟨values, hvalues⟩, -⟩ := hlisted
    cases hvalues
  · obtain ⟨hvalues, below, path, hpath⟩ := hindex
    exact Or.inr ⟨⟨hvalues, by simp [hpath]⟩, below, path, hpath⟩

/-- Put behind the position of a component, the path of a fault is spelled as it is
from the root of the list, unless the fault is in a listed value. -/
theorem rerooted_eq_iff (h : form.decode faulty = .error fault) (position : Nat) :
    Json.rerooted position fault.path = Json.pathText (.index position :: fault.path) ↔
      ¬ ListedValue faulty fault := by
  rcases fault_cases h with ⟨hfield, hpath | hkey⟩ | ⟨hlisted, below, path, hpath⟩
  · rw [hpath]
    simp [Json.rerooted_nil, hfield]
  · obtain ⟨key, path, hempty, hdot, hpath⟩ := hkey
    rw [hpath]
    simp [Json.rerooted_key hempty hdot, hfield]
  · rw [hpath]
    simp [Json.rerooted_index_ne, hlisted]

theorem load_of_select {text : String} {pointer : Option String} {document : Json}
    (hparse : Json.parse text = .ok document)
    (hselect : Json.select document pointer = .ok (.list items)) :
    load text pointer = loadItems 0 items := by
  have hvalue : ofValue document pointer = loadItems 0 items := by
    unfold ofValue
    rw [hselect]
    rfl
  rw [load_eq_bind, hparse]
  exact hvalue

/-- A document that is a list loads as it decodes in one go: as the same components,
or with the same problem, at the first item that is not a component.  The two spell
the path of the fault alike, unless the item lists the values of its fields and the
fault is in one of them.  Then loading puts a dot between the two positions. -/
theorem load_list {text : String} {pointer : Option String} {document : Json}
    (hparse : Json.parse text = .ok document)
    (hselect : Json.select document pointer = .ok (.list items)) :
    let loaded := load text pointer
    let decoded := listForm.ofJson (.list items)
    (∃ components, loaded = .ok components ∧ decoded = .ok components) ∨
      ∃ position faulty fault path path' place,
        form.FirstFault items position faulty fault ∧
        loaded = .error (.decode path fault.problem place) ∧
        decoded = .error (.decode path' fault.problem place) ∧
        (loaded = decoded ↔ ¬ ListedValue faulty fault) ∧
        (ListedValue faulty fault →
          path = Json.indexText position ++ "." ++ Json.pathText fault.path ∧
            path' = Json.indexText position ++ Json.pathText fault.path) := by
  intro loaded decoded
  have hload : loaded = loadItems 0 items := load_of_select hparse hselect
  rcases Json.Form.decode_all_or_firstFault form items with hall | hfirst
  · obtain ⟨components, hcomponents⟩ := hall
    refine Or.inl ⟨components, ?_, ?_⟩
    · rw [hload, loadItems_eq_ok_iff]
      simpa only [Json.Form.ofJson_eq_ok_iff] using hcomponents
    · exact Json.Form.ofJson_eq_ok_iff.2 (Json.Form.decodeItems_of_forall₂ hcomponents 0)
  · obtain ⟨position, faulty, fault, hfault⟩ := hfirst
    have hloaded : loaded = .error (.decode (Json.rerooted position fault.path) fault.problem
        (fault.mark.map (Json.Mark.position []))) := by
      rw [hload, loadItems_of_firstFault hfault 0, Nat.zero_add, Json.within_indexText]
    have hdecoded : decoded = .error (.decode (Json.pathText (.index position :: fault.path))
        fault.problem (fault.mark.map (Json.Mark.position []))) := by
      have hitems := hfault.decodeItems 0
      rw [Nat.zero_add] at hitems
      simp only [decoded, Json.Form.ofJson, listForm, Json.Form.list, hitems]
      rfl
    refine Or.inr ⟨position, faulty, fault, _, _, _, hfault, hloaded, hdecoded, ?_, ?_⟩
    · rw [hloaded, hdecoded, ← rerooted_eq_iff hfault.decode position]
      simp
    · intro hlisted
      rcases fault_cases hfault.decode with ⟨hfield, -⟩ | ⟨-, below, path, hpath⟩
      · exact absurd hlisted hfield
      · rw [hpath]
        exact Json.rerooted_index position below path

/-- In an object, a fault is found under the key of a field, and the two ways agree. -/
theorem load_list_named_field :
    let text := "[\x7b\"name\":\"A\"\x7d,\x7b\"name\":true\x7d]"
    let document : Json := .list [.object [("name", .text "A")], .object [("name", .bool true)]]
    Json.parse text = .ok document ∧ Json.select document none = .ok document ∧
      load text none = listForm.ofJson document ∧
      load text none = .error (.decode "[1].name" (.mismatch (.bool true) .text) none) := by
  intro text document
  have hparse : Json.parse text = .ok document := by cbv
  have hselect : Json.select document none = .ok document := rfl
  have hdecoded : listForm.ofJson document =
      .error (.decode "[1].name" (.mismatch (.bool true) .text) none) := rfl
  have hagree : load text none = listForm.ofJson document := by
    rcases load_list hparse hselect with hloaded | hfailed
    · obtain ⟨components, hloaded, hdecoded⟩ := hloaded
      exact hloaded.trans hdecoded.symm
    · obtain ⟨position, faulty, fault, _, _, _, hfirst, -, -, hiff, -⟩ := hfailed
      refine hiff.2 ?_
      intro hlisted
      obtain ⟨⟨values, rfl⟩, -⟩ := hlisted
      -- neither of the two items is a list
      cases hfirst with
      | later _ hrest =>
        cases hrest with
        | later _ hnone => cases hnone
  exact ⟨hparse, hselect, hagree, hagree.trans hdecoded⟩

/-- In a listed value, loading puts a dot between the two positions. -/
theorem load_list_listed_value :
    let document : Json := .list [.list [.bool true]]
    Json.parse "[[true]]" = .ok document ∧ Json.select document none = .ok document ∧
      load "[[true]]" none = .error (.decode "[0].[0]" (.mismatch (.bool true) .text) none) ∧
      listForm.ofJson document = .error (.decode "[0][0]" (.mismatch (.bool true) .text) none) := by
  intro document
  have hparse : Json.parse "[[true]]" = .ok document := by cbv
  refine ⟨hparse, rfl, ?_, ?_⟩
  · rw [load_of_select hparse rfl]
    rfl
  · rfl

end Component

end ComponentProps
