import ComponentProps.Component
import ComponentProps.Proofs.Json.Forms
import ComponentProps.Proofs.Json.Values
import Mathlib

/-!
# Documents of components and what follows them

A document of components is loaded from the front of a text.  Only lists and
objects hold components, and those are read up to their closing bracket, so what
stands behind it decides nothing.

* `Component.load_document`: a text that loads begins with a document, in front
  of any text at all that document loads as the same components, and the two
  together are one document only if the text behind is blank.
* `Component.load_trailing_iff`: which texts load without being documents.
* `Component.load_iff_heldBy`: which components a document holds, in which order.
-/

namespace ComponentProps

namespace Component

open Json.Grammar (Document Blank)
open Json.Reader (IsEnclosed)

/-! ## The value at the root -/

theorem isEnclosed_distinct {value : Json} (h : IsEnclosed value.distinct) :
    IsEnclosed value := by
  cases value <;> simp_all [Json.distinct, IsEnclosed]

/-- A pointer leads into lists and objects only. -/
theorem isEnclosed_of_find? {pointer : String} {value part : Json}
    (hpart : Json.Pointer.find? pointer value = some part) (henclosed : IsEnclosed part) :
    IsEnclosed value := by
  unfold Json.Pointer.find? at hpart
  split at hpart
  · next tokens htokens =>
    cases htail : tokens.map Json.Pointer.unescape with
    | nil =>
      rw [htail] at hpart
      cases hpart
      exact henclosed
    | cons token more =>
      rw [htail, List.foldlM_cons] at hpart
      cases value with
      | list items => trivial
      | object members => trivial
      | _ => cases hpart
  · cases hpart

theorem isEnclosed_of_select {pointer : Option String} {value part : Json}
    (hpart : Json.select value pointer = .ok part) (henclosed : IsEnclosed part) :
    IsEnclosed value := by
  cases pointer with
  | none =>
    cases hpart
    exact henclosed
  | some pointer =>
    simp only [Json.select] at hpart
    split at hpart
    · next part' hfind =>
      cases hpart
      exact isEnclosed_of_find? hfind henclosed
    · cases hpart

/-- The components of a value that has been read from a text. -/
def ofValue (document : Json) (pointer : Option String) :
    Except Json.DecodeError (List Component) := do
  match ← Json.select document pointer with
  | .list items => loadItems 0 items
  | document => (fun component => [component]) <$> form.ofJson document

theorem load_eq_bind (text : String) (pointer : Option String) :
    load text pointer = (Json.parse text >>= fun document => ofValue document pointer) := rfl

theorem load_eq_ok_iff {text : String} {pointer : Option String}
    {components : List Component} :
    load text pointer = .ok components ↔
      ∃ value rest, Json.Reader.value Json.maxDepth text.toList = .ok value rest ∧
        ofValue value.distinct pointer = .ok components := by
  rw [load_eq_bind]
  unfold Json.parse
  cases Json.Reader.value Json.maxDepth text.toList with
  | ok value rest =>
    constructor
    · intro h
      exact ⟨value, rest, rfl, h⟩
    · intro h
      obtain ⟨_, _, heq, h⟩ := h
      cases heq
      exact h
  | error fault rest =>
    constructor
    · intro h
      cases h
    · intro h
      obtain ⟨_, _, heq, -⟩ := h
      cases heq

/-- Components stand in a list or an object, or deeper. -/
theorem isEnclosed_of_ofValue {document : Json} {pointer : Option String}
    {components : List Component} (h : ofValue document pointer = .ok components) :
    IsEnclosed document := by
  unfold ofValue at h
  cases hselect : Json.select document pointer with
  | error error =>
    rw [hselect] at h
    cases h
  | ok part =>
    rw [hselect] at h
    refine isEnclosed_of_select hselect ?_
    -- no scalar is decoded as a component
    cases part with
    | list items => trivial
    | object members => trivial
    | _ => cases h

/-! ## What follows a document -/

/-- The front of a text that loads is a document of its own.  It loads as the
same components in front of any other text, and stays a single document in
front of blanks only. -/
theorem load_document {text : String} {pointer : Option String}
    {components : List Component} (hload : load text pointer = .ok components) :
    ∃ document rest, text.toList = document ++ rest ∧ Document document ∧
      (∀ tail, load (String.ofList (document ++ tail)) pointer = .ok components) ∧
      ∀ tail, Document (document ++ tail) ↔ Blank tail := by
  obtain ⟨value, rest, hvalue, hcomponents⟩ := load_eq_ok_iff.mp hload
  have henclosed : IsEnclosed value := isEnclosed_distinct (isEnclosed_of_ofValue hcomponents)
  obtain ⟨bracket, before, body, htext, hbefore, hbody, hagain⟩ :=
    Json.Reader.value_enclosed hvalue henclosed
  have hsingle : ∀ tail,
      Document (before ++ (Json.Grammar.opening bracket :: body) ++ tail) ↔ Blank tail :=
    fun tail => Json.Grammar.document_append_iff hbefore hbody
  refine ⟨before ++ (Json.Grammar.opening bracket :: body), rest, htext, ?_, ?_, hsingle⟩
  · have hempty := (hsingle []).mpr Json.Grammar.blank_nil
    rwa [List.append_nil] at hempty
  · intro tail
    refine load_eq_ok_iff.mpr ⟨value, tail, ?_, hcomponents⟩
    rw [String.toList_ofList]
    exact hagain tail

/-- A text loads without being a single document exactly if it is a document
that loads by itself, with text behind it that is not blank. -/
theorem load_trailing_iff (text : String) (pointer : Option String)
    (components : List Component) :
    load text pointer = .ok components ∧ ¬ Document text.toList ↔
      ∃ document tail, text.toList = document ++ tail ∧ Document document ∧
        load (String.ofList document) pointer = .ok components ∧ ¬ Blank tail := by
  constructor
  · intro h
    obtain ⟨hload, hmany⟩ := h
    obtain ⟨document, rest, htext, hdocument, hagain, hsingle⟩ := load_document hload
    have halone := hagain []
    rw [List.append_nil] at halone
    refine ⟨document, rest, htext, hdocument, halone, ?_⟩
    intro hblank
    rw [htext] at hmany
    exact hmany ((hsingle rest).mpr hblank)
  · intro h
    obtain ⟨document, tail, htext, hdocument, hload, htail⟩ := h
    obtain ⟨front, gap, hfront, -, hagain, hsingle⟩ := load_document hload
    rw [String.toList_ofList] at hfront
    subst hfront
    rw [List.append_assoc] at htext
    constructor
    · have hfull := hagain (gap ++ tail)
      rwa [← htext, String.ofList_toList] at hfull
    · intro hwhole
      rw [htext] at hwhole
      have hblank : Blank (gap ++ tail) := (hsingle _).mp hwhole
      exact htail fun c hc => hblank c (List.mem_append_right gap hc)

/-- Of two components one behind the other, the second is lost. -/
theorem load_two_components :
    load "\x7b\x7d \x7b\"name\":\"B\"\x7d" none = .ok [{}] ∧
      ¬ Document "\x7b\x7d \x7b\"name\":\"B\"\x7d".toList := by
  constructor
  · cbv
  · intro hdocument
    have hbody : Json.Grammar.Body .object true ['}'] := .close Json.Grammar.blank_nil
    have hblank : Blank " \x7b\"name\":\"B\"\x7d".toList :=
      (Json.Grammar.document_append_iff Json.Grammar.blank_nil hbody).mp hdocument
    exact absurd (hblank '{' (by decide)) (by decide)

/-! ## The components of a document -/

/-- The components that a part of a document holds: those of the items of a list, in
their order, and otherwise the one that it is. -/
inductive HeldBy : Json → List Component → Prop
  | items {items : List Json} {components : List Component}
      (h : List.Forall₂ (fun item component => form.ofJson item = .ok component)
        items components) : HeldBy (.list items) components
  | one {part : Json} {component : Component} (hpart : ∀ items, part ≠ .list items)
      (h : form.ofJson part = .ok component) : HeldBy part [component]

theorem loadItems_eq_ok_iff {position : Nat} {items : List Json} {components : List Component} :
    loadItems position items = .ok components ↔
      List.Forall₂ (fun item component => form.ofJson item = .ok component) items components := by
  induction items generalizing position components with
  | nil => simp [loadItems, eq_comm]
  | cons item rest ih =>
    rw [loadItems, List.forall₂_cons_left_iff]
    cases hitem : form.ofJson item with
    | error error => simp
    | ok component =>
      simp only [Except.bind_eq_ok_iff, ih]
      constructor
      · rintro ⟨others, hothers, hlist⟩
        cases hlist
        exact ⟨component, others, rfl, hothers, rfl⟩
      · rintro ⟨component', others, hcomponent, hothers, rfl⟩
        cases hcomponent
        exact ⟨others, hothers, rfl⟩

/-- A document holds the components of the part that is selected. -/
theorem load_iff_heldBy {text : String} {pointer : Option String}
    {components : List Component} :
    load text pointer = .ok components ↔
      ∃ document part, Json.parse text = .ok document ∧
        Json.select document pointer = .ok part ∧ HeldBy part components := by
  unfold load
  simp only [Except.bind_eq_ok_iff, exists_and_left]
  refine exists_congr fun document => and_congr_right fun _ => ?_
  refine exists_congr fun part => and_congr_right fun _ => ?_
  split
  next items _ =>
    rw [loadItems_eq_ok_iff]
    constructor
    · exact .items
    · intro h
      cases h with
      | items h => exact h
      | one hpart _ => exact absurd rfl (hpart items)
  next hpart =>
    rw [Except.map_eq_ok_iff]
    constructor
    · rintro ⟨component, hcomponent, rfl⟩
      exact .one hpart hcomponent
    · intro h
      cases h with
      | items _ => exact absurd rfl (hpart _)
      | one _ hcomponent => exact ⟨_, hcomponent, rfl⟩

end Component

end ComponentProps
