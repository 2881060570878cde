import ComponentProps.CommandLine.Run
import ComponentProps.Proofs.Component.Document
import ComponentProps.Proofs.Files.Search

/-!
# Loading the components of a request

Inputs stand for the paths of documents, and documents hold components, each in
an order of their own.  `Sources.Loads` says which components that makes for a
request.

* `StandsFor`, `DocumentHolds`: what one input stands for, and what one document
  holds; `InputFault` and `DocumentFault` say why there is nothing.
* `gather_cases`: a step that is taken for every item gives all results in order,
  or ends with the fault of some item.
* `Sources.Loads.run_load`, `Sources.load_cases`: the components of the documents
  are loaded, or something is at fault.
-/

namespace ComponentProps

namespace CommandLine

variable {tree : Files.Tree}

/-! ## Inputs and documents -/

/-- The paths of documents that an input stands for: itself, or what it matches if
it is a pattern. -/
inductive StandsFor (tree : Files.Tree) (input : String) : List String → Prop
  | path (h : Glob.isPattern input = false) : StandsFor tree input [input]
  | pattern {pattern : Glob.Pattern} {paths : List String} (h : Glob.isPattern input = true)
      (hpattern : Glob.Pattern.ofText input = .ok pattern)
      (hpaths : (pattern.paths tree.reading).run = .ok paths) (hsome : paths ≠ []) :
      StandsFor tree input paths

/-- Why an input stands for no documents.  The folders of a tree can all be searched. -/
inductive InputFault (tree : Files.Tree) (input : String) : Failure → Prop
  | badPattern {fault : Glob.Fault} (h : Glob.isPattern input = true)
      (hpattern : Glob.Pattern.ofText input = .error fault) :
      InputFault tree input (.badPattern input fault)
  | noMatch {pattern : Glob.Pattern} (h : Glob.isPattern input = true)
      (hpattern : Glob.Pattern.ofText input = .ok pattern)
      (hnone : (pattern.paths tree.reading).run = .ok []) :
      InputFault tree input (.noMatch input)

/-- The document at a path holds some components, in its order. -/
def DocumentHolds (tree : Files.Tree) (pointer : Option String) (path : String)
    (components : List Component) : Prop :=
  ∃ text document part, tree.text path = .ok text ∧ Json.parse text = .ok document ∧
    Json.select document pointer = .ok part ∧ Component.HeldBy part components

/-- Why a document holds no components. -/
inductive DocumentFault (tree : Files.Tree) (pointer : Option String) (path : String) :
    Failure → Prop
  | unreadable {fault : Files.Fault} (htext : tree.text path = .error fault) :
      DocumentFault tree pointer path (.unreadable path fault)
  | undecodable {text : String} {error : Json.DecodeError} (htext : tree.text path = .ok text)
      (hload : Component.load text pointer = .error error) :
      DocumentFault tree pointer path (.undecodable path error)

/-- The documents of a request hold some components: the inputs stand for their
paths in the order of the inputs, and each document lists its components. -/
inductive Sources.Loads (tree : Files.Tree) (sources : Sources) : List Component → Prop
  | intro {paths : List (List String)} {documents : List (List Component)}
      (hpaths : List.Forall₂ (StandsFor tree) sources.inputs paths)
      (hdocuments : List.Forall₂ (DocumentHolds tree sources.pointer) paths.flatten documents) :
      Loads tree sources documents.flatten

/-- Why the documents of a request cannot be loaded. -/
inductive Sources.Fault (tree : Files.Tree) (sources : Sources) : Failure → Prop
  | input {input : String} {failure : Failure} (hinput : input ∈ sources.inputs)
      (hfault : InputFault tree input failure) : Fault tree sources failure
  | document {paths : List (List String)} {path : String} {failure : Failure}
      (hpaths : List.Forall₂ (StandsFor tree) sources.inputs paths) (hpath : path ∈ paths.flatten)
      (hfault : DocumentFault tree sources.pointer path failure) : Fault tree sources failure

/-! ## Steps for every item -/

/-- If a step gives something for every item, all of it is gathered in order. -/
theorem run_gather {α β : Type} {one : α → Id (Except Failure (List β))} {items : List α}
    {lists : List (List β)}
    (h : List.Forall₂ (fun item list => (one item).run = .ok list) items lists) :
    (gather one items).run = .ok lists.flatten := by
  induction h with
  | nil => rfl
  | cons hone _ ih =>
    rw [gather]
    simp only [Id.run_bind, Id.run_pure, hone, ih, List.flatten_cons]

/-- A step gives something for every item, or its fault at some item is that of the
whole. -/
theorem gather_cases {α β : Type} {one : α → Id (Except Failure (List β))}
    {Gives : α → List β → Prop} {Fault : α → Failure → Prop}
    (hgives : ∀ item list, Gives item list → (one item).run = .ok list)
    (hone : ∀ item, (∃ list, Gives item list) ∨
      ∃ failure, (one item).run = .error failure ∧ Fault item failure) (items : List α) :
    (∃ lists, List.Forall₂ Gives items lists) ∨
      ∃ item ∈ items, ∃ failure, (gather one items).run = .error failure ∧ Fault item failure := by
  induction items with
  | nil => exact Or.inl ⟨[], .nil⟩
  | cons item rest ih =>
    rcases hone item with ⟨list, hlist⟩ | ⟨failure, hfailure, hfault⟩
    · rcases ih with ⟨lists, hlists⟩ | ⟨other, hother, failure, hfailure, hfault⟩
      · exact Or.inl ⟨list :: lists, .cons hlist hlists⟩
      · refine Or.inr ⟨other, List.mem_cons_of_mem _ hother, failure, ?_, hfault⟩
        rw [gather]
        simp only [Id.run_bind, Id.run_pure, hgives item list hlist, hfailure]
    · refine Or.inr ⟨item, List.mem_cons_self, failure, ?_, hfault⟩
      rw [gather]
      simp only [Id.run_bind, Id.run_pure, hfailure]

/-! ## The components of all documents -/

theorem StandsFor.run_inputPaths {input : String} {paths : List String}
    (h : StandsFor tree input paths) : (inputPaths tree.reading input).run = .ok paths := by
  unfold inputPaths
  cases h with
  | path h =>
    rw [h]
    rfl
  | pattern h hpattern hpaths hsome =>
    rw [if_pos h, hpattern]
    simp [hpaths, hsome]

theorem inputPaths_cases (tree : Files.Tree) (input : String) :
    (∃ paths, StandsFor tree input paths) ∨
      ∃ failure, (inputPaths tree.reading input).run = .error failure ∧
        InputFault tree input failure := by
  unfold inputPaths
  cases h : Glob.isPattern input with
  | false => exact Or.inl ⟨[input], .path h⟩
  | true =>
    rw [if_pos rfl]
    cases hpattern : Glob.Pattern.ofText input with
    | error fault => exact Or.inr ⟨_, rfl, .badPattern h hpattern⟩
    | ok pattern =>
      obtain ⟨paths, hpaths⟩ := pattern.exists_paths tree
      by_cases hnone : paths = []
      · subst hnone
        refine Or.inr ⟨_, ?_, .noMatch h hpattern hpaths⟩
        simp [hpaths]
      · exact Or.inl ⟨paths, .pattern h hpattern hpaths hnone⟩

theorem documentComponents_eq (tree : Files.Tree) (pointer : Option String) (path : String) :
    documentComponents tree.reading pointer path =
      match tree.text path with
      | .error fault => pure (.error (.unreadable path fault))
      | .ok text =>
        match Component.load text pointer with
        | .error error => pure (.error (.undecodable path error))
        | .ok components => pure (.ok components) := rfl

theorem documentHolds_iff {pointer : Option String} {path : String}
    {components : List Component} :
    DocumentHolds tree pointer path components ↔
      ∃ text, tree.text path = .ok text ∧ Component.load text pointer = .ok components := by
  simp only [DocumentHolds, Component.load_iff_heldBy, exists_and_left]

theorem DocumentHolds.run_documentComponents {pointer : Option String} {path : String}
    {components : List Component} (h : DocumentHolds tree pointer path components) :
    (documentComponents tree.reading pointer path).run = .ok components := by
  obtain ⟨text, htext, hload⟩ := documentHolds_iff.1 h
  rw [documentComponents_eq, htext]
  simp only [hload, Id.run_pure]

theorem documentComponents_cases (tree : Files.Tree) (pointer : Option String) (path : String) :
    (∃ components, DocumentHolds tree pointer path components) ∨
      ∃ failure, (documentComponents tree.reading pointer path).run = .error failure ∧
        DocumentFault tree pointer path failure := by
  rw [documentComponents_eq]
  cases htext : tree.text path with
  | error fault => exact Or.inr ⟨_, rfl, .unreadable htext⟩
  | ok text =>
    cases hload : Component.load text pointer with
    | error error => exact Or.inr ⟨_, by simp only [hload, Id.run_pure], .undecodable htext hload⟩
    | ok components => exact Or.inl ⟨components, documentHolds_iff.2 ⟨text, htext, hload⟩⟩

/-- What the documents hold is loaded; so they do not hold anything else. -/
theorem Sources.Loads.run_load {sources : Sources} {components : List Component}
    (h : sources.Loads tree components) : (sources.load tree.reading).run = .ok components := by
  obtain ⟨hpaths, hdocuments⟩ := h
  have hgathered := run_gather (hpaths.imp fun _ _ h => h.run_inputPaths)
  unfold load
  simp only [Id.run_bind, hgathered]
  exact run_gather (hdocuments.imp fun _ _ h => h.run_documentComponents)

/-- The documents hold some components, or something is at fault. -/
theorem Sources.load_cases (tree : Files.Tree) (sources : Sources) :
    (∃ components, sources.Loads tree components) ∨
      ∃ failure, (sources.load tree.reading).run = .error failure ∧
        sources.Fault tree failure := by
  unfold load
  rcases gather_cases (fun _ _ h => h.run_inputPaths) (inputPaths_cases tree) sources.inputs with
    ⟨paths, hpaths⟩ | ⟨input, hinput, failure, hfailure, hfault⟩
  · have hgathered := run_gather (hpaths.imp fun _ _ h => h.run_inputPaths)
    simp only [Id.run_bind, hgathered]
    rcases gather_cases (fun _ _ h => h.run_documentComponents)
      (documentComponents_cases tree sources.pointer) paths.flatten with
      ⟨documents, hdocuments⟩ | ⟨path, hpath, failure, hfailure, hfault⟩
    · exact Or.inl ⟨documents.flatten, .intro hpaths hdocuments⟩
    · exact Or.inr ⟨failure, hfailure, .document hpaths hpath hfault⟩
  · simp only [Id.run_bind, hfailure, Id.run_pure]
    exact Or.inr ⟨failure, rfl, .input hinput hfault⟩

end CommandLine

end ComponentProps
