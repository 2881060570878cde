import ComponentProps.Proofs.CommandLine.Run
import Mathlib

/-!
# Runs on more inputs

The inputs of a request are independent of each other.  Where the output consists of
listings, a run on the inputs of two requests succeeds if both requests do, and its
output is that of the first followed by that of the second.

There are four groups, one for each stage of a run.

* Loading.  `Sources.loads_append_iff`: the components of more inputs are those of the
  first ones, then those of the others.
* Rendering.  `Product.Lists` is what a product makes of one component, and
  `Product.renders_append_iff` cuts the output where the components are cut.
* Delivering.  `deliver_fst`: whether a text is delivered does not depend on the text.
* Runs.  A run succeeds if each stage does (`Request.produces_of_renders`,
  `Request.exists_of_succeeds`), and `Request.run_append` compares the runs on all
  inputs and on either part of them.
-/

namespace ComponentProps

namespace CommandLine

variable {tree : Files.Tree}

/-! ## Loading -/

theorem forall₂_append_iff {α β : Type} {R : α → β → Prop} {items others : List α}
    {results : List β} :
    List.Forall₂ R (items ++ others) results ↔
      ∃ first second, List.Forall₂ R items first ∧ List.Forall₂ R others second ∧
        results = first ++ second := by
  constructor
  · intro h
    induction items generalizing results with
    | nil => exact ⟨[], results, .nil, h, rfl⟩
    | cons item rest ih =>
      obtain ⟨result, more, hresult, hmore, rfl⟩ := List.forall₂_cons_left_iff.1 h
      obtain ⟨first, second, hfirst, hsecond, rfl⟩ := ih hmore
      exact ⟨result :: first, second, .cons hresult hfirst, hsecond, rfl⟩
  · intro h
    obtain ⟨first, second, hfirst, hsecond, rfl⟩ := h
    exact List.rel_append hfirst hsecond

/-- The same sources with other inputs. -/
def Sources.withInputs (sources : Sources) (inputs : List String) : Sources :=
  { sources with inputs }

/-- The components of more inputs are those of the first, then those of the others. -/
theorem Sources.loads_append_iff {sources : Sources} {inputs others : List String}
    {components : List Component} :
    (sources.withInputs (inputs ++ others)).Loads tree components ↔
      ∃ first second, (sources.withInputs inputs).Loads tree first ∧
        (sources.withInputs others).Loads tree second ∧ components = first ++ second := by
  constructor
  · intro h
    obtain ⟨hpaths, hdocuments⟩ := h
    obtain ⟨paths, more, hfirst, hsecond, rfl⟩ := forall₂_append_iff.1 hpaths
    rw [List.flatten_append] at hdocuments
    obtain ⟨documents, rest, hheld, hrest, rfl⟩ := forall₂_append_iff.1 hdocuments
    exact ⟨documents.flatten, rest.flatten, .intro hfirst hheld, .intro hsecond hrest,
      List.flatten_append⟩
  · intro h
    obtain ⟨first, second, hfirst, hsecond, rfl⟩ := h
    obtain ⟨hpaths, hdocuments⟩ := hfirst
    obtain ⟨hmore, hrest⟩ := hsecond
    rw [← List.flatten_append]
    refine .intro (forall₂_append_iff.2 ⟨_, _, hpaths, hmore, rfl⟩) ?_
    rw [List.flatten_append]
    exact List.rel_append hdocuments hrest

/-! ## Rendering -/

/-- The listing that a product makes of a component.  The entries of the JSON format are
no listings. -/
def Product.Lists (product : Product) (deep : Option Bool) (component : Component)
    (listing : String) : Prop :=
  match product with
  | .shapes .literal => component.shapeListing deep = .ok listing
  | .shapes .json => False
  | .bindings root => component.bindListing deep root = .ok listing

/-- An output of listings is all of them, one behind the other. -/
theorem Product.renders_iff {product : Product} (hproduct : product ≠ .shapes .json)
    {deep : Option Bool} {components : List Component} {text : String} :
    product.Renders deep components text ↔
      ∃ listings, List.Forall₂ (product.Lists deep) components listings ∧
        text = String.join listings := by
  constructor
  · intro h
    cases h with
    | listings h => exact ⟨_, h, rfl⟩
    | entries _ => exact absurd rfl hproduct
    | bindings h => exact ⟨_, h, rfl⟩
  · intro h
    obtain ⟨listings, hlistings, rfl⟩ := h
    cases product with
    | shapes format =>
      cases format with
      | literal => exact .listings hlistings
      | json => exact absurd rfl hproduct
    | bindings root => exact .bindings hlistings

theorem Product.renders_append_iff {product : Product} (hproduct : product ≠ .shapes .json)
    {deep : Option Bool} {components others : List Component} {text : String} :
    product.Renders deep (components ++ others) text ↔
      ∃ first second, product.Renders deep components first ∧
        product.Renders deep others second ∧ text = first ++ second := by
  simp only [renders_iff hproduct, forall₂_append_iff]
  constructor
  · intro h
    obtain ⟨_, ⟨listings, more, hlistings, hmore, rfl⟩, rfl⟩ := h
    exact ⟨_, _, ⟨listings, hlistings, rfl⟩, ⟨more, hmore, rfl⟩, String.join_append⟩
  · intro h
    obtain ⟨_, _, ⟨listings, hlistings, rfl⟩, ⟨more, hmore, rfl⟩, rfl⟩ := h
    exact ⟨_, ⟨listings, more, hlistings, hmore, rfl⟩, String.join_append.symm⟩

/-! ## Delivering -/

/-- What is made of the success of writing a text does not depend on the text, if it does
not depend on the files after it. -/
theorem writeText_bind_fst {α : Type} {next : Except Files.Fault Unit → StateM Files.Tree α}
    (hnext : ∀ written after after',
      ((next written).run after).1 = ((next written).run after').1)
    (tree : Files.Tree) (path text other : String) :
    ((Files.Tree.writing.writeText path text >>= next).run tree).1 =
      ((Files.Tree.writing.writeText path other >>= next).run tree).1 := by
  have hwritten := tree.writeText_fst path text other
  show ((next (tree.writeText path text).1).run (tree.writeText path text).2).1 =
    ((next (tree.writeText path other).1).run (tree.writeText path other).2).1
  rw [← hwritten]
  exact hnext _ _ _

/-- Whether a text is delivered to a path, and why not, does not depend on the text. -/
theorem deliver_fst (tree : Files.Tree) (path text other : String) :
    ((deliver Files.Tree.writing path text).run tree).1 =
      ((deliver Files.Tree.writing path other).run tree).1 := by
  unfold deliver
  cases Path.parent? path with
  | none =>
    simp only [pure_bind]
    refine writeText_bind_fst ?_ tree path text other
    intro written after after'
    cases written <;> rfl
  | some parent =>
    cases hfolders : (Files.Tree.writing.makeFolders parent).run tree with
    | mk folders middle =>
      rw [run_bind_of_eq hfolders, run_bind_of_eq hfolders]
      cases folders with
      | error fault => rfl
      | ok =>
        refine writeText_bind_fst ?_ middle path text other
        intro written after after'
        cases written <;> rfl

/-! ## Runs -/

namespace Request

variable {request : Request}

/-- The same request with other inputs. -/
def withInputs (request : Request) (inputs : List String) : Request :=
  { request with sources := request.sources.withInputs inputs }

/-- A run succeeds, and this is its text: it is printed, or it is in the file for it. -/
structure Produces (request : Request) (tree : Files.Tree) (text : String) : Prop where
  failure : (request.run tree).1.failure = none
  text : request.out = none ∧ (request.run tree).1.output = text ∨
    ∃ path, request.out = some path ∧ (request.run tree).1.output = "" ∧
      (request.run tree).2.text path = .ok text

theorem Produces.output_eq {text : String} (h : request.Produces tree text)
    (hout : request.out = none) : (request.run tree).1.output = text := by
  rcases h.text with ⟨-, hprinted⟩ | ⟨path, hpath, -⟩
  · exact hprinted
  · rw [hout] at hpath
    cases hpath

/-- Some text can be delivered to the file for the output, if there is one. -/
def Deliverable (request : Request) (tree : Files.Tree) : Prop :=
  ∀ path, request.out = some path →
    ∃ text, ((deliver Files.Tree.writing path text).run tree).1 = none

/-- Where everything works out, a run produces what is rendered. -/
theorem produces_of_renders {components : List Component} {text : String}
    (hload : request.sources.Loads tree components)
    (hrender : request.product.Renders request.sources.deep components text)
    (hdeliverable : request.Deliverable tree) : request.Produces tree text := by
  have htext := Product.render_eq_ok_iff.2 hrender
  cases hout : request.out with
  | none =>
    have hrun := run_print hload htext hout
    exact ⟨by rw [hrun], Or.inl ⟨hout, by rw [hrun]⟩⟩
  | some path =>
    obtain ⟨other, hother⟩ := hdeliverable path hout
    rcases deliver_cases tree path text with
      ⟨after, hafter, hreceives⟩ | ⟨failure, after, hafter, -, -⟩
    · have hrun := run_deliver hload htext hout hafter
      have hread : (request.run tree).2.text path = .ok text := by
        rw [hrun]
        exact hreceives.text_eq
      exact ⟨by rw [hrun], Or.inr ⟨path, hout, by rw [hrun], hread⟩⟩
    · rw [deliver_fst tree path other text, hafter] at hother
      cases hother

/-- A run that succeeds has loaded, rendered and delivered everything. -/
theorem exists_of_succeeds (h : (request.run tree).1.failure = none) :
    request.Deliverable tree ∧
      ∃ components text, request.sources.Loads tree components ∧
        request.product.Renders request.sources.deep components text := by
  rcases request.sources.load_cases tree with ⟨components, hload⟩ | ⟨failure, hfailure, -⟩
  · rcases request.product.render_cases request.sources.deep components with
      ⟨-, text, htext, hrender⟩ | ⟨hsome, -⟩
    · refine ⟨?_, components, text, hload, hrender⟩
      intro path hout
      have hrun := run_deliver hload htext hout (Prod.eta _).symm
      rw [hrun] at h
      exact ⟨text, h⟩
    · rw [run_of_complaints hload hsome] at h
      cases h
  · have hloaded : request.sources.load tree.reading = .error failure := hfailure
    rw [run, hloaded] at h
    cases h

/-- A run on more inputs succeeds exactly if the runs on the first and on the other
inputs do, and then its text is that of the first run followed by that of the other.
This is so for all outputs but the list of entries in JSON. -/
theorem run_append (request : Request) (hproduct : request.product ≠ .shapes .json)
    (tree : Files.Tree) (inputs others : List String) :
    (((request.withInputs (inputs ++ others)).run tree).1.failure = none ↔
      ((request.withInputs inputs).run tree).1.failure = none ∧
        ((request.withInputs others).run tree).1.failure = none) ∧
    (((request.withInputs (inputs ++ others)).run tree).1.failure = none →
      ∃ first second, (request.withInputs inputs).Produces tree first ∧
        (request.withInputs others).Produces tree second ∧
        (request.withInputs (inputs ++ others)).Produces tree (first ++ second)) := by
  have hsplit (h : ((request.withInputs (inputs ++ others)).run tree).1.failure = none) :
      ∃ first second, (request.withInputs inputs).Produces tree first ∧
        (request.withInputs others).Produces tree second ∧
        (request.withInputs (inputs ++ others)).Produces tree (first ++ second) := by
    obtain ⟨hdeliverable, components, text, hload, hrender⟩ := exists_of_succeeds h
    obtain ⟨front, back, hfront, hback, rfl⟩ := Sources.loads_append_iff.1 hload
    obtain ⟨first, second, hfirst, hsecond, rfl⟩ :=
      (Product.renders_append_iff hproduct).1 hrender
    exact ⟨first, second, produces_of_renders hfront hfirst hdeliverable,
      produces_of_renders hback hsecond hdeliverable,
      produces_of_renders hload hrender hdeliverable⟩
  refine ⟨⟨?_, ?_⟩, hsplit⟩
  · intro h
    obtain ⟨_, _, hfirst, hsecond, -⟩ := hsplit h
    exact ⟨hfirst.failure, hsecond.failure⟩
  · intro h
    obtain ⟨hdeliverable, front, first, hfront, hfirst⟩ := exists_of_succeeds h.1
    obtain ⟨-, back, second, hback, hsecond⟩ := exists_of_succeeds h.2
    have hload : (request.withInputs (inputs ++ others)).sources.Loads tree (front ++ back) :=
      Sources.loads_append_iff.2 ⟨front, back, hfront, hback, rfl⟩
    have hrender := (Product.renders_append_iff hproduct).2 ⟨first, second, hfirst, hsecond, rfl⟩
    exact (produces_of_renders hload hrender hdeliverable).failure

/-- Two documents, bound one after the other and each by itself. -/
theorem run_append_two_documents :
    let tree : Files.Tree := ⟨
      [(["a.json"], .file "\x7b\"name\":\"A\"\x7d".toUTF8),
        (["b.json"], .file
          "\x7b\"name\":\"B\",\"propTypes\":\x7b\"on\":\"bool_isRequired\"\x7d\x7d".toUTF8)]⟩
    let request : Request := ⟨⟨[], none, none⟩, .bindings none, none⟩
    let ofA := "// A\n\x7b\x7d\n"
    let ofB := "// B\n\x7b\n  on: __abstract(\"boolean\", \"props.on\")\n\x7d\n"
    request.product ≠ .shapes .json ∧
      ((request.withInputs ["b.json"]).run tree).1.output = ofB ∧
      ((request.withInputs ["a.json"]).run tree).1.output = ofA ∧
      ((request.withInputs ["b.json", "a.json"]).run tree).1.failure = none ∧
      ((request.withInputs ["b.json", "a.json"]).run tree).1.output = ofB ++ ofA := by
  obtain ⟨hloadA, hloadB⟩ :
      Component.load "\x7b\"name\":\"A\"\x7d" none = .ok [{ name := "A" }] ∧
      Component.load
        "\x7b\"name\":\"B\",\"propTypes\":\x7b\"on\":\"bool_isRequired\"\x7d\x7d" none =
        .ok [{ name := "B", declarations := some [("on", .tag .boolRequired)] }] := by
    cbv
  intro tree request ofA ofB
  let componentA : Component := { name := "A" }
  let componentB : Component := { name := "B", declarations := some [("on", .tag .boolRequired)] }
  have hproduct : request.product ≠ .shapes .json := by simp [request]
  have hpathA : StandsFor tree "a.json" ["a.json"] := .path (by decide +kernel)
  have hpathB : StandsFor tree "b.json" ["b.json"] := .path (by decide +kernel)
  have hholdsA : DocumentHolds tree none "a.json" [componentA] :=
    documentHolds_iff.2 ⟨_, Files.Tree.text_of_locate rfl rfl, hloadA⟩
  have hholdsB : DocumentHolds tree none "b.json" [componentB] :=
    documentHolds_iff.2 ⟨_, Files.Tree.text_of_locate rfl rfl, hloadB⟩
  have hA : (request.withInputs ["a.json"]).run tree = (⟨ofA, [], none⟩, tree) := by
    exact run_print (.intro (.cons hpathA .nil) (.cons hholdsA .nil)) (by decide +kernel) rfl
  have hB : (request.withInputs ["b.json"]).run tree = (⟨ofB, [], none⟩, tree) := by
    exact run_print (.intro (.cons hpathB .nil) (.cons hholdsB .nil)) (by decide +kernel) rfl
  obtain ⟨hsucceeds, houtput⟩ := run_append request hproduct tree ["b.json"] ["a.json"]
  have hboth := hsucceeds.2 ⟨by rw [hB], by rw [hA]⟩
  obtain ⟨first, second, hfirst, hsecond, htext⟩ := houtput hboth
  have hoffirst : ofB = first := by rw [← hfirst.output_eq rfl, hB]
  have hofsecond : ofA = second := by rw [← hsecond.output_eq rfl, hA]
  refine ⟨hproduct, by rw [hB], by rw [hA], hboth, ?_⟩
  rw [hoffirst, hofsecond]
  exact htext.output_eq rfl

end Request

end CommandLine

end ComponentProps
