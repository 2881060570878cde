import ComponentProps.Component
import ComponentProps.Proofs.Accessor.WellFormed
import ComponentProps.Proofs.Shape.WellFormed

/-!
# Well-formed components

The reads and the declarations of a component are maps, at every level: no name
comes up twice among the reads of one level, the declared properties, or the
fields of a declared shape.  Every component of a document that loads is well
formed, and the shape of a well-formed component is.

* `Component.WellFormed`: no name comes up twice.
* `Component.wellFormed_of_load`: the components of a document are well formed.
* `Component.wellFormed_of_shape`: so are their shapes.
-/

namespace ComponentProps

namespace Component

/-- The reads of a component, as a tree. -/
def reads (component : Component) : Table Access :=
  (component.accessors.map Accessors.reads).getD []

/-- The declared properties of a component. -/
def declared (component : Component) : Table Declaration := component.declarations.getD []

/-- No level of a component repeats a name. -/
structure WellFormed (component : Component) : Prop where
  reads : Access.WellFormedTable component.reads
  names : (Table.keys component.declared).Nodup
  fields : ∀ entry ∈ component.declared, entry.2.DistinctFields

/-- The shape of a well-formed component is well formed. -/
theorem wellFormed_of_shape {component : Component} (h : component.WellFormed)
    {deep : Option Bool} {shape : Shape} (hshape : component.shape deep = .ok (some shape)) :
    Shape.WellFormed shape :=
  infer_wellFormed h.fields hshape

/-! ## Documents -/

theorem gives_accessors : Accessors.form.Gives fun accessors =>
    Access.WellFormedTable accessors.reads := by
  intro value accessors h
  have hread : Access.form.Gives Access.WellFormed := Access.wellFormed_of_decode
  have hchosen : Accessors.ofJson? value = some accessors :=
    Json.Form.decode_alternatives_eq_ok_iff.1 h
  unfold Accessors.ofJson? at hchosen
  split at hchosen
  next reads hreads =>
    cases hchosen
    exact Access.wellFormedTable_iff.2 (hread.table value reads hreads)
  next =>
    split at hchosen
    · cases hchosen
      exact Access.wellFormedTable_ofPaths _
    · cases hchosen

theorem gives_declarations : Declaration.tableForm.Gives fun declarations =>
    (Table.keys declarations).Nodup ∧ ∀ entry ∈ declarations, entry.2.DistinctFields := by
  refine Json.Form.Gives.table ?_
  intro value declaration h
  exact Declaration.distinctFields_of_ofJson? (Json.Form.decode_alternatives_eq_ok_iff.1 h)

/-- Decoded components are well formed. -/
theorem gives_wellFormed : form.Gives WellFormed := by
  have hany {α : Type} (form : Json.Form α) : form.Gives fun _ => True := fun _ _ _ => trivial
  refine Json.Form.gives_record ?_ ⟨trivial, List.nodup_nil, by simp [declared]⟩ _
  simp only [List.forall_mem_cons, List.not_mem_nil, false_imp_iff, implies_true, and_true]
  refine ⟨(hany _).keeps ?_, gives_accessors.optional.keeps ?_,
    gives_declarations.optional.keeps ?_, (hany _).keeps ?_, (hany _).keeps ?_,
    (hany _).keeps ?_⟩
  · exact fun _ _ _ h => ⟨h.reads, h.names, h.fields⟩
  · intro accessors component haccessors h
    refine ⟨?_, h.names, h.fields⟩
    cases accessors with
    | none => trivial
    | some accessors => exact haccessors accessors rfl
  · intro declarations component hdeclarations h
    cases declarations with
    | none => exact ⟨h.reads, List.nodup_nil, by simp [declared]⟩
    | some declarations =>
      obtain ⟨hnames, hfields⟩ := hdeclarations declarations rfl
      exact ⟨h.reads, hnames, hfields⟩
  · exact fun _ _ _ h => ⟨h.reads, h.names, h.fields⟩
  · exact fun _ _ _ h => ⟨h.reads, h.names, h.fields⟩
  · exact fun _ _ _ h => ⟨h.reads, h.names, h.fields⟩

theorem wellFormed_of_ofJson {value : Json} {component : Component}
    (h : form.ofJson value = .ok component) : component.WellFormed :=
  gives_wellFormed _ _ (Json.Form.ofJson_eq_ok_iff.1 h)

theorem wellFormed_of_loadItems {position : Nat} {items : List Json}
    {components : List Component} (h : loadItems position items = .ok components) :
    ∀ component ∈ components, component.WellFormed := by
  induction items generalizing position components with
  | nil =>
    cases h
    simp
  | cons item rest ih =>
    rw [loadItems] at h
    split at h
    · cases h
    next component hcomponent =>
      obtain ⟨others, hothers, hpure⟩ := Except.bind_eq_ok_iff.1 h
      cases hpure
      rw [List.forall_mem_cons]
      exact ⟨wellFormed_of_ofJson hcomponent, ih hothers⟩

/-- The components of a document are well formed. -/
theorem wellFormed_of_load {text : String} {pointer : Option String}
    {components : List Component} (h : load text pointer = .ok components) :
    ∀ component ∈ components, component.WellFormed := by
  obtain ⟨document, -, h⟩ := Except.bind_eq_ok_iff.1 h
  obtain ⟨part, -, h⟩ := Except.bind_eq_ok_iff.1 h
  split at h
  next items => exact wellFormed_of_loadItems h
  · obtain ⟨component, hcomponent, rfl⟩ := Except.map_eq_ok_iff.1 h
    simpa using wellFormed_of_ofJson hcomponent

end Component

end ComponentProps
