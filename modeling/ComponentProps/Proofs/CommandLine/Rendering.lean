import ComponentProps.CommandLine.Run
import ComponentProps.Proofs.Json.Forms
import Mathlib.Data.List.Forall2
import Mathlib.Data.List.ReduceOption

/-!
# Making the output for components

Either something is made of every component, and the output lists all of it in
their order, or there are complaints, one about each component of which nothing
can be made.

There are three groups.

* The two outcomes.  `makeAll_cases` is the induction over the components, and
  `Product.render_cases` says what it means for each product.  `makeAll_eq_ok_iff` and
  `Product.render_eq_ok_iff` say when there are no complaints.
* Workers.  Components may be worked on side by side.  What a worker hands in is
  kept at the position of its component, so `inOrder_of_perm` gives the same list
  in whatever order they finish.
* Lines.  `lineFeeds_complaints_iff`: when complaints take one line each.
-/

namespace ComponentProps

namespace CommandLine

/-! ## The two outcomes -/

/-- The complaint about a component, if nothing can be made of it. -/
def complaint? {ε α : Type} (reason : ε → String) (make : Component → Except ε α)
    (component : Component) : Option Complaint :=
  match make component with
  | .ok _ => none
  | .error error => some ⟨component.name, reason error⟩

/-- Without complaints something is made of every component, and otherwise the
complaints are all there is. -/
theorem makeAll_cases {ε α : Type} (reason : ε → String) (make : Component → Except ε α)
    (components : List Component) :
    (components.filterMap (complaint? reason make) = [] ∧
      ∃ made, makeAll reason make components = .ok made ∧
        List.Forall₂ (fun component one => make component = .ok one) components made) ∨
    (components.filterMap (complaint? reason make) ≠ [] ∧
      makeAll reason make components = .error (components.filterMap (complaint? reason make))) := by
  induction components with
  | nil => exact Or.inl ⟨rfl, [], rfl, .nil⟩
  | cons component rest ih =>
    rw [makeAll, List.filterMap_cons, complaint?]
    cases hone : make component with
    | ok one =>
      rcases ih with ⟨hnone, made, hmade, hall⟩ | ⟨hsome, hcomplaints⟩
      · rw [hmade]
        exact Or.inl ⟨hnone, one :: made, rfl, .cons hone hall⟩
      · rw [hcomplaints]
        exact Or.inr ⟨hsome, rfl⟩
    | error error =>
      refine Or.inr ⟨List.cons_ne_nil _ _, ?_⟩
      rcases ih with ⟨hnone, made, hmade, -⟩ | ⟨-, hcomplaints⟩
      · rw [hmade, hnone]
      · rw [hcomplaints]

/-- The same for an output that is put together from what is made. -/
theorem output_cases {ε α : Type} (reason : ε → String) (make : Component → Except ε α)
    (output : List α → String) (components : List Component) {Shows : String → Prop}
    (hshows : ∀ made, List.Forall₂ (fun component one => make component = .ok one)
      components made → Shows (output made)) :
    (components.filterMap (complaint? reason make) = [] ∧
      ∃ text, output <$> makeAll reason make components = .ok text ∧ Shows text) ∨
    (components.filterMap (complaint? reason make) ≠ [] ∧
      output <$> makeAll reason make components =
        .error (components.filterMap (complaint? reason make))) := by
  rcases makeAll_cases reason make components with
    ⟨hnone, made, hmade, hall⟩ | ⟨hsome, hcomplaints⟩
  · rw [hmade]
    exact Or.inl ⟨hnone, output made, rfl, hshows made hall⟩
  · rw [hcomplaints]
    exact Or.inr ⟨hsome, rfl⟩

/-- Everything is made if something is made of each component. -/
theorem makeAll_eq_ok_iff {ε α : Type} (reason : ε → String) (make : Component → Except ε α)
    {components : List Component} {made : List α} :
    makeAll reason make components = .ok made ↔
      List.Forall₂ (fun component one => make component = .ok one) components made := by
  induction components generalizing made with
  | nil => simp [makeAll, eq_comm]
  | cons component rest ih =>
    rw [List.forall₂_cons_left_iff, makeAll]
    constructor
    · intro h
      cases hone : make component with
      | error error => cases hrest : makeAll reason make rest <;> simp [hone, hrest] at h
      | ok one =>
        cases hrest : makeAll reason make rest with
        | error complaints => simp [hone, hrest] at h
        | ok others =>
          rw [hone, hrest] at h
          cases h
          exact ⟨one, others, rfl, ih.1 hrest, rfl⟩
    · rintro ⟨one, others, hone, hrest, rfl⟩
      rw [hone, ih.2 hrest]

/-- The same for an output that is put together from what is made. -/
theorem output_eq_ok_iff {ε α : Type} (reason : ε → String) (make : Component → Except ε α)
    (output : List α → String) {components : List Component} {text : String} :
    output <$> makeAll reason make components = .ok text ↔
      ∃ made, List.Forall₂ (fun component one => make component = .ok one) components made ∧
        output made = text := by
  rw [Except.map_eq_ok_iff]
  simp only [makeAll_eq_ok_iff]

/-- The complaint about a component of which a product cannot be made: inference
fails, or binding does. -/
def Product.complaint? (product : Product) (deep : Option Bool) :
    Component → Option Complaint :=
  match product with
  | .shapes _ => CommandLine.complaint? UnsupportedField.message (·.shape deep)
  | .bindings root => CommandLine.complaint? ComponentError.message (·.bind deep root)

/-- The output for components: what is made of each of them, in their order. -/
inductive Product.Renders (deep : Option Bool) (components : List Component) :
    Product → String → Prop
  | listings {listings : List String}
      (h : List.Forall₂ (fun component listing => component.shapeListing deep = .ok listing)
        components listings) :
      Renders deep components (.shapes .literal) (String.join listings)
  | entries {entries : List Json}
      (h : List.Forall₂ (fun component entry => component.shapeEntry deep = .ok entry)
        components entries) :
      Renders deep components (.shapes .json) ((Json.list entries).pretty ++ "\n")
  | bindings {root : Option String} {listings : List String}
      (h : List.Forall₂ (fun component listing => component.bindListing deep root = .ok listing)
        components listings) :
      Renders deep components (.bindings root) (String.join listings)

/-- A listing fails only where its shape does. -/
theorem complaint?_shapeListing (deep : Option Bool) :
    complaint? UnsupportedField.message (·.shapeListing deep) =
      complaint? UnsupportedField.message (·.shape deep) := by
  funext component
  rw [complaint?, complaint?, Component.shapeListing]
  cases component.shape deep with
  | error error => rfl
  | ok shape => cases shape <;> rfl

theorem complaint?_shapeEntry (deep : Option Bool) :
    complaint? UnsupportedField.message (·.shapeEntry deep) =
      complaint? UnsupportedField.message (·.shape deep) := by
  funext component
  rw [complaint?, complaint?, Component.shapeEntry]
  cases component.shape deep <;> rfl

theorem complaint?_bindListing (deep : Option Bool) (root : Option String) :
    complaint? ComponentError.message (·.bindListing deep root) =
      complaint? ComponentError.message (·.bind deep root) := by
  funext component
  rw [complaint?, complaint?, Component.bindListing]
  cases component.bind deep root <;> rfl

/-- The output for components is made of all of them, or there is none, but a
complaint about each that fails. -/
theorem Product.render_cases (product : Product) (deep : Option Bool)
    (components : List Component) :
    (components.filterMap (product.complaint? deep) = [] ∧
      ∃ text, product.render deep components = .ok text ∧
        product.Renders deep components text) ∨
    (components.filterMap (product.complaint? deep) ≠ [] ∧
      product.render deep components =
        .error (components.filterMap (product.complaint? deep))) := by
  cases product with
  | shapes format =>
    cases format with
    | literal =>
      have hcases := output_cases UnsupportedField.message (·.shapeListing deep) String.join
        components fun _ hall => Renders.listings hall
      rwa [complaint?_shapeListing] at hcases
    | json =>
      have hcases := output_cases UnsupportedField.message (·.shapeEntry deep)
        (fun entries => (Json.list entries).pretty ++ "\n") components
        fun _ hall => Renders.entries hall
      rwa [complaint?_shapeEntry] at hcases
  | bindings root =>
    have hcases := output_cases ComponentError.message (·.bindListing deep root) String.join
      components fun _ hall => Renders.bindings hall
    rwa [complaint?_bindListing] at hcases

/-- The output for components is what a product renders. -/
theorem Product.render_eq_ok_iff {product : Product} {deep : Option Bool}
    {components : List Component} {text : String} :
    product.render deep components = .ok text ↔ product.Renders deep components text := by
  constructor
  · intro h
    rcases product.render_cases deep components with ⟨-, other, hother, hrenders⟩ | ⟨-, hcomplaints⟩
    · rw [hother] at h
      cases h
      exact hrenders
    · rw [hcomplaints] at h
      cases h
  · intro h
    cases h with
    | listings h =>
      exact (output_eq_ok_iff UnsupportedField.message (·.shapeListing deep) String.join).2
        ⟨_, h, rfl⟩
    | entries h =>
      exact (output_eq_ok_iff UnsupportedField.message (·.shapeEntry deep)
        (fun entries => (Json.list entries).pretty ++ "\n")).2 ⟨_, h, rfl⟩
    | @bindings root _ h =>
      exact (output_eq_ok_iff ComponentError.message (·.bindListing deep root) String.join).2
        ⟨_, h, rfl⟩

/-! ## Workers -/

/-- Whether one result comes before another, by the positions of what they are of. -/
def comesBefore {α : Type} (one other : α × Nat) : Bool := decide (one.2 ≤ other.2)

/-- What workers have handed in, each with the position of what it worked on, in
the order of the positions. -/
def inOrder {α : Type} (finished : List (α × Nat)) : List α :=
  (finished.mergeSort comesBefore).map Prod.fst

/-- The order in which workers finish does not count. -/
theorem inOrder_of_perm {α : Type} {results : List α} {finished : List (α × Nat)}
    (h : finished.Perm results.zipIdx) : inOrder finished = results := by
  have hperm : (finished.mergeSort comesBefore).Perm results.zipIdx :=
    (List.mergeSort_perm finished comesBefore).trans h
  have hsorted : (finished.mergeSort comesBefore).Pairwise fun one other =>
      comesBefore one other = true := by
    refine List.pairwise_mergeSort ?_ ?_ finished
    · intro one other third
      simp only [comesBefore, decide_eq_true_eq]
      omega
    · intro one other
      simp only [comesBefore, Bool.or_eq_true, decide_eq_true_eq]
      omega
  have hpositions : results.zipIdx.Pairwise fun one other => comesBefore one other = true := by
    rw [List.pairwise_iff_getElem]
    intro i j hi hj hlt
    simp only [comesBefore, List.getElem_zipIdx, decide_eq_true_eq]
    omega
  -- each position comes up once, so no two results can change places
  have hunique : ∀ one other, one ∈ finished.mergeSort comesBefore → other ∈ results.zipIdx →
      comesBefore one other = true → comesBefore other one = true → one = other := by
    intro one other hone hother hle hge
    simp only [comesBefore, decide_eq_true_eq] at hle hge
    have hposition : one.2 = other.2 := Nat.le_antisymm hle hge
    have hone' := List.mem_zipIdx_iff_getElem?.1 (hperm.mem_iff.1 hone)
    have hother' := List.mem_zipIdx_iff_getElem?.1 hother
    rw [hposition, hother'] at hone'
    exact Prod.ext (Option.some.inj hone').symm hposition
  rw [inOrder, List.Perm.eq_of_pairwise hunique hsorted hpositions hperm, List.zipIdx_map_fst]

/-! ## Lines -/

/-- The number of line feeds in a text. -/
def lineFeeds (text : String) : Nat := text.toList.count '\n'

theorem lineFeeds_append (text more : String) :
    lineFeeds (text ++ more) = lineFeeds text + lineFeeds more := by
  rw [lineFeeds, String.toList_append, List.count_append]
  rfl

/-- Of the fixed parts of a complaint, only the end has a line feed. -/
theorem lineFeeds_fixed : lineFeeds "error: component `" = 0 ∧ lineFeeds "`: " = 0 ∧
    lineFeeds "\n" = 1 := by
  decide +kernel

/-- A complaint ends its line, and goes over more of them only if its name or its
reason does. -/
theorem Complaint.lineFeeds_line (complaint : Complaint) :
    lineFeeds complaint.line = lineFeeds complaint.name + lineFeeds complaint.reason + 1 := by
  obtain ⟨hstart, hmiddle, hend⟩ := lineFeeds_fixed
  unfold line
  simp only [lineFeeds_append, hstart, hmiddle, hend, Nat.zero_add, Nat.add_zero]

/-- The complaints take one line each exactly if no name and no reason among them
holds a line feed. -/
theorem lineFeeds_complaints_iff (complaints : List Complaint) :
    lineFeeds (String.join (complaints.map Complaint.line)) = complaints.length ↔
      ∀ complaint ∈ complaints,
        lineFeeds complaint.name = 0 ∧ lineFeeds complaint.reason = 0 := by
  have hle (complaints : List Complaint) :
      complaints.length ≤ lineFeeds (String.join (complaints.map Complaint.line)) := by
    induction complaints with
    | nil => exact Nat.zero_le _
    | cons complaint rest ih =>
      rw [List.map_cons, String.join_cons, lineFeeds_append, complaint.lineFeeds_line,
        List.length_cons]
      omega
  induction complaints with
  | nil => simp [lineFeeds]
  | cons complaint rest ih =>
    have hrest := hle rest
    rw [List.map_cons, String.join_cons, lineFeeds_append, complaint.lineFeeds_line,
      List.length_cons, List.forall_mem_cons]
    refine Iff.trans ?_ (and_congr_right fun _ => ih)
    omega

end CommandLine

end ComponentProps
