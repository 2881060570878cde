import ComponentProps.Proofs.CommandLine.Loading
import ComponentProps.Proofs.CommandLine.Rendering
import ComponentProps.Proofs.Files.Tree
import Mathlib

/-!
# What a run does

A run delivers the output for all components, or it fails and delivers nothing.

There are three groups.

* Delivering.  `deliver_cases`: the output is in its file, or no file has changed.
* `Request.Delivered`, `Request.Refused`: the two ways in which a run ends.
  `Request.Reported` says what is reported about components of which nothing can
  be made.
* `Request.run_print`, `Request.run_deliver`, `Request.run_of_complaints`: how a run
  ends once its components are loaded; `Request.run_delivers_or_refuses` is about all
  runs.
-/

namespace ComponentProps

namespace CommandLine

variable {tree : Files.Tree}

/-! ## Delivering -/

/-- Why a text cannot be delivered to a path. -/
inductive DeliveryFault (tree : Files.Tree) (path text : String) : Failure → Prop
  | noFolder {parent : String} {fault : Files.Fault} (hparent : Path.parent? path = some parent)
      (hfault : ((Files.Tree.writing.makeFolders parent).run tree).1 = .error fault) :
      DeliveryFault tree path text (.noFolder parent fault)
  /-- The text cannot be written, where the folders for it have been made. -/
  | unwritable {middle : Files.Tree} {fault : Files.Fault} (hmiddle : tree.SameFiles middle)
      (hfault : (middle.writeText path text).1 = .error fault) :
      DeliveryFault tree path text (.unwritable path fault)

/-- The text is written where the folders for it have been made: it is in its file
and in no other, or no file has changed. -/
theorem writeText_run_cases {middle : Files.Tree} (hmiddle : tree.SameFiles middle)
    (path text : String) :
    (∃ after, (Files.Tree.writing.writeText path text).run middle = (.ok (), after) ∧
      tree.Receives path text after) ∨
      ∃ fault, (Files.Tree.writing.writeText path text).run middle = (.error fault, middle) ∧
        DeliveryFault tree path text (.unwritable path fault) := by
  rcases middle.writeText_cases path text with ⟨fault, hfault⟩ | ⟨after, hafter, hreceives⟩
  · exact Or.inr ⟨fault, hfault, .unwritable hmiddle (by rw [hfault])⟩
  · exact Or.inl ⟨after, hafter, .of_sameFiles hmiddle hreceives⟩

/-- An action goes on with the result of its first step, in the state after it. -/
theorem run_bind_of_eq {σ α β : Type} {action : StateM σ α} {next : α → StateM σ β}
    {state state' : σ} {value : α} (h : action.run state = (value, state')) :
    (action >>= next).run state = (next value).run state' := by
  rw [StateT.run_bind, h]
  rfl

/-- A text is delivered to its file, and to no other, or no file has changed. -/
theorem deliver_cases (tree : Files.Tree) (path text : String) :
    (∃ after, (deliver Files.Tree.writing path text).run tree = (none, after) ∧
      tree.Receives path text after) ∨
      ∃ failure after, (deliver Files.Tree.writing path text).run tree = (some failure, after) ∧
        tree.SameFiles after ∧ DeliveryFault tree path text failure := by
  unfold deliver
  cases hparent : Path.parent? path with
  | none =>
    simp only [pure_bind]
    rcases writeText_run_cases (.refl tree) path text with
      ⟨after, hafter, hreceives⟩ | ⟨fault, hfault, hcause⟩
    · exact Or.inl ⟨after, run_bind_of_eq hafter, hreceives⟩
    · exact Or.inr ⟨_, tree, run_bind_of_eq hfault, .refl tree, hcause⟩
  | some parent =>
    have hkept := Files.Tree.keepsFiles_makeFolders parent tree
    cases hfolders : (Files.Tree.writing.makeFolders parent).run tree with
    | mk folders middle =>
      rw [hfolders] at hkept
      rw [run_bind_of_eq hfolders]
      cases folders with
      | error fault =>
        refine Or.inr ⟨.noFolder parent fault, middle, rfl, hkept, .noFolder hparent ?_⟩
        rw [hfolders]
      | ok =>
        rcases writeText_run_cases hkept path text with
          ⟨after, hafter, hreceives⟩ | ⟨fault, hfault, hcause⟩
        · exact Or.inl ⟨after, run_bind_of_eq hafter, hreceives⟩
        · exact Or.inr ⟨_, middle, run_bind_of_eq hfault, hkept, hcause⟩

/-! ## The whole run -/

namespace Request

/-! ### The two ways in which it ends -/

/-- The complaints about the components of which a request can make nothing, in the
order of the components. -/
def complaints (request : Request) (components : List Component) : List Complaint :=
  components.filterMap (request.product.complaint? request.sources.deep)

/-- The output for all components has been delivered. -/
structure Delivered (request : Request) (tree : Files.Tree) (outcome : Outcome)
    (after : Files.Tree) : Prop where
  failure : outcome.failure = none
  errors : outcome.errorText = ""
  /-- The text is printed, or it is in the file for it and in no other. -/
  text : ∃ components text, request.sources.Loads tree components ∧
    request.product.Renders request.sources.deep components text ∧
    (request.out = none ∧ outcome.output = text ∧ after = tree ∨
      ∃ path, request.out = some path ∧ outcome.output = "" ∧ after.text path = .ok text ∧
        tree.Receives path text after)

/-- Why a run fails. -/
inductive Fault (request : Request) (tree : Files.Tree) : Failure → Prop
  | sources {failure : Failure} (h : request.sources.Fault tree failure) :
      Fault request tree failure
  | components {components : List Component} (hload : request.sources.Loads tree components)
      (hsome : request.complaints components ≠ []) :
      Fault request tree
        (.badComponents (request.complaints components).length components.length)
  | delivery {components : List Component} {text path : String} {failure : Failure}
      (hload : request.sources.Loads tree components)
      (hrender : request.product.Renders request.sources.deep components text)
      (hout : request.out = some path) (h : DeliveryFault tree path text failure) :
      Fault request tree failure

/-- The components of which nothing can be made have been reported. -/
structure Reported (request : Request) (components : List Component) (outcome : Outcome) :
    Prop where
  some : request.complaints components ≠ []
  /-- There is one complaint for each of them, in their order, whatever the order
  in which workers hand in what has become of each component. -/
  errors : ∀ finished,
    finished.Perm
      (components.map (request.product.complaint? request.sources.deep)).zipIdx →
    (inOrder finished).reduceOption = request.complaints components ∧
      outcome.errorText = String.join ((inOrder finished).reduceOption.map Complaint.line)
  /-- A complaint is one line, unless a name or a reason goes over several. -/
  lines : lineFeeds outcome.errorText = (request.complaints components).length ↔
    ∀ complaint ∈ request.complaints components,
      lineFeeds complaint.name = 0 ∧ lineFeeds complaint.reason = 0
  message : outcome.failure.map Failure.message =
    Option.some (toString (request.complaints components).length ++ " of " ++
      toString components.length ++ " components failed")

/-- Nothing has been delivered, and no file has changed. -/
structure Refused (request : Request) (tree : Files.Tree) (outcome : Outcome)
    (after : Files.Tree) : Prop where
  output : outcome.output = ""
  files : tree.SameFiles after
  failure : ∃ failure, outcome.failure = some failure ∧ request.Fault tree failure
  /-- There are complaints only if the run fails because of components. -/
  complaints :
    (∃ components, request.sources.Loads tree components ∧
      request.Reported components outcome) ∨
    (∀ failed total, outcome.failure ≠ some (.badComponents failed total)) ∧
      outcome.errorText = ""

/-! ### The stages -/

variable {request : Request} {components : List Component}

theorem reported_of_ne_nil (h : request.complaints components ≠ []) :
    request.Reported components
      ⟨"", request.complaints components,
        some (.badComponents (request.complaints components).length components.length)⟩ where
  some := h
  errors := by
    intro finished hfinished
    have hcollected : (inOrder finished).reduceOption = request.complaints components := by
      rw [inOrder_of_perm hfinished, List.reduceOption, List.filterMap_map]
      rfl
    exact ⟨hcollected, by rw [hcollected, Outcome.errorText]⟩
  lines := lineFeeds_complaints_iff _
  message := rfl

theorem not_badComponents_of_sources {sources : Sources} {failure : Failure}
    (h : sources.Fault tree failure) (failed total : Nat) :
    failure ≠ .badComponents failed total := by
  rintro rfl
  cases h with
  | input _ hfault => cases hfault
  | document _ _ hfault => cases hfault

theorem not_badComponents_of_delivery {path text : String} {failure : Failure}
    (h : DeliveryFault tree path text failure) (failed total : Nat) :
    failure ≠ .badComponents failed total := by
  rintro rfl
  cases h

/-- A run that fails for another reason than components only shows that reason. -/
theorem refused_of_fault {failure : Failure} {after : Files.Tree} (hfiles : tree.SameFiles after)
    (hfault : request.Fault tree failure)
    (hother : ∀ failed total, failure ≠ .badComponents failed total) :
    request.Refused tree (.failed failure) after where
  output := rfl
  files := hfiles
  failure := ⟨failure, rfl, hfault⟩
  complaints := by
    refine Or.inr ⟨?_, rfl⟩
    intro failed total hfailure
    exact hother failed total (Option.some.inj hfailure)

theorem run_of_loads (hload : request.sources.Loads tree components) :
    request.run tree = (request.conclude Files.Tree.writing (.ok components)).run tree := by
  have hloaded : request.sources.load tree.reading = .ok components := hload.run_load
  rw [run, hloaded]

/-- Where nothing can be made of some components, a run ends with the complaints. -/
theorem run_of_complaints (hload : request.sources.Loads tree components)
    (hsome : request.complaints components ≠ []) :
    request.run tree =
      (⟨"", request.complaints components,
        some (.badComponents (request.complaints components).length components.length)⟩,
        tree) := by
  rw [run_of_loads hload, conclude]
  rcases request.product.render_cases request.sources.deep components with
    ⟨hnone, -⟩ | ⟨-, hcomplaints⟩
  · exact absurd hnone hsome
  · rw [hcomplaints]
    rfl

/-- A text that is not for a file is printed. -/
theorem run_print (hload : request.sources.Loads tree components) {text : String}
    (htext : request.product.render request.sources.deep components = .ok text)
    (hout : request.out = none) : request.run tree = (⟨text, [], none⟩, tree) := by
  rw [run_of_loads hload, conclude, htext, hout]
  rfl

/-- A text that is for a file is delivered. -/
theorem run_deliver (hload : request.sources.Loads tree components) {text path : String}
    (htext : request.product.render request.sources.deep components = .ok text)
    (hout : request.out = some path) {failure : Option Failure} {after : Files.Tree}
    (hdeliver : (deliver Files.Tree.writing path text).run tree = (failure, after)) :
    request.run tree = (⟨"", [], failure⟩, after) := by
  rw [run_of_loads hload, conclude, htext, hout]
  dsimp only
  rw [run_bind_of_eq hdeliver]
  cases failure <;> rfl

/-- Where something can be made of all components, a run ends with its delivery. -/
theorem run_of_render (hload : request.sources.Loads tree components) {text : String}
    (htext : request.product.render request.sources.deep components = .ok text)
    (hrender : request.product.Renders request.sources.deep components text) :
    request.Delivered tree (request.run tree).1 (request.run tree).2 ∨
      request.Refused tree (request.run tree).1 (request.run tree).2 := by
  cases hout : request.out with
  | none =>
    rw [run_print hload htext hout]
    exact Or.inl ⟨rfl, rfl, components, text, hload, hrender, Or.inl ⟨hout, rfl, rfl⟩⟩
  | some path =>
    rcases deliver_cases tree path text with
      ⟨after, hafter, hreceives⟩ | ⟨failure, after, hafter, hfiles, hcause⟩
    · rw [run_deliver hload htext hout hafter]
      exact Or.inl ⟨rfl, rfl, components, text, hload, hrender,
        Or.inr ⟨path, hout, rfl, hreceives.text_eq, hreceives⟩⟩
    · rw [run_deliver hload htext hout hafter]
      exact Or.inr (refused_of_fault hfiles (.delivery hload hrender hout hcause)
        (not_badComponents_of_delivery hcause))

/-- A run delivers the output for all components of all documents, in order, and
changes no other file; or it fails, prints nothing and changes no file at all.
Components of which nothing can be made are always reported, each once, in their
order, and whatever the order in which they are worked on. -/
theorem run_delivers_or_refuses (request : Request) (tree : Files.Tree) :
    (request.Delivered tree (request.run tree).1 (request.run tree).2 ∨
      request.Refused tree (request.run tree).1 (request.run tree).2) ∧
    ∀ components, request.sources.Loads tree components → request.complaints components ≠ [] →
      request.Reported components (request.run tree).1 := by
  constructor
  · rcases request.sources.load_cases tree with ⟨components, hload⟩ |
      ⟨failure, hfailure, hfault⟩
    · rcases request.product.render_cases request.sources.deep components with
        ⟨-, text, htext, hrender⟩ | ⟨hsome, -⟩
      · exact run_of_render hload htext hrender
      · rw [run_of_complaints hload hsome]
        exact Or.inr ⟨rfl, .refl tree, ⟨_, rfl, .components hload hsome⟩,
          Or.inl ⟨components, hload, reported_of_ne_nil hsome⟩⟩
    · have hloaded : request.sources.load tree.reading = .error failure := hfailure
      rw [run, hloaded]
      exact Or.inr (refused_of_fault (.refl tree) (.sources hfault)
        (not_badComponents_of_sources hfault))
  · intro components hload hsome
    rw [run_of_complaints hload hsome]
    exact reported_of_ne_nil hsome

/-- Of three components in two documents, the two that fail are reported: first the
one of the input that comes first, although its worker is the last to finish. -/
theorem run_reports_two_of_three :
    let tree : Files.Tree := ⟨
      [(["a.json"], .file
        "[\x7b\"name\":\"A\",\"target\":[]\x7d,\x7b\"name\":\"B\"\x7d]".toUTF8),
        (["b.json"], .file "\x7b\"name\":\"C\",\"target\":true\x7d".toUTF8)]⟩
    let request : Request := ⟨⟨["b.json", "a.json"], none, none⟩, .bindings none, none⟩
    let ofA : Complaint := ⟨"A", "expected an object literal at `props`, found array"⟩
    let ofC : Complaint := ⟨"C", "expected an object literal at `props`, found boolean"⟩
    ∃ components, request.sources.Loads tree components ∧ request.complaints components ≠ [] ∧
      request.Reported components (request.run tree).1 ∧
      inOrder [(none, 2), (some ofA, 1), (some ofC, 0)] = [some ofC, some ofA, none] ∧
      (request.run tree).1.errorText = String.join ([ofC, ofA].map Complaint.line) ∧
      (request.run tree).1.failure.map Failure.message = some "2 of 3 components failed" := by
  obtain ⟨hfirst, hsecond⟩ :
      Component.load "\x7b\"name\":\"C\",\"target\":true\x7d" none =
        .ok [{ name := "C", target := some (.bool true) }] ∧
      Component.load "[\x7b\"name\":\"A\",\"target\":[]\x7d,\x7b\"name\":\"B\"\x7d]" none =
        .ok [{ name := "A", target := some (.list []) }, { name := "B" }] := by
    cbv
  intro tree request ofA ofC
  let first : List Component := [{ name := "C", target := some (.bool true) }]
  let second : List Component := [{ name := "A", target := some (.list []) }, { name := "B" }]
  have hpaths : List.Forall₂ (StandsFor tree) ["b.json", "a.json"] [["b.json"], ["a.json"]] :=
    .cons (.path (by decide +kernel)) (.cons (.path (by decide +kernel)) .nil)
  have hdocuments : List.Forall₂ (DocumentHolds tree none) ["b.json", "a.json"] [first, second] :=
    .cons (documentHolds_iff.2 ⟨_, Files.Tree.text_of_locate rfl rfl, hfirst⟩)
      (.cons (documentHolds_iff.2 ⟨_, Files.Tree.text_of_locate rfl rfl, hsecond⟩) .nil)
  have hload : request.sources.Loads tree [first, second].flatten := .intro hpaths hdocuments
  have hhanded : [first, second].flatten.map
      (request.product.complaint? request.sources.deep) = [some ofC, some ofA, none] := rfl
  have hcomplaints : request.complaints [first, second].flatten = [ofC, ofA] := rfl
  have hsome : request.complaints [first, second].flatten ≠ [] := by
    rw [hcomplaints]
    simp
  have hreported := (run_delivers_or_refuses request tree).2 _ hload hsome
  have hfinished : [(none, 2), (some ofA, 1), (some ofC, 0)].Perm
      ([first, second].flatten.map
        (request.product.complaint? request.sources.deep)).zipIdx := by
    rw [hhanded]
    exact List.reverse_perm [(some ofC, 0), (some ofA, 1), (none, 2)]
  obtain ⟨hcollected, htext⟩ := hreported.errors _ hfinished
  refine ⟨_, hload, hsome, hreported, ?_, ?_, ?_⟩
  · rw [inOrder_of_perm hfinished, hhanded]
  · rw [htext, hcollected, hcomplaints]
  · rw [hreported.message, hcomplaints]
    show some (toString 2 ++ " of " ++ toString 3 ++ " components failed") = _
    decide +kernel

/-- A complaint about a component whose name goes over two lines goes over two
lines itself. -/
theorem run_name_on_two_lines :
    let tree : Files.Tree := ⟨
      [(["a.json"], .file "\x7b\"name\":\"A\\nB\",\"target\":[]\x7d".toUTF8)]⟩
    let request : Request := ⟨⟨["a.json"], none, none⟩, .bindings none, none⟩
    (request.run tree).1.failure = some (.badComponents 1 1) ∧
      (request.run tree).1.errorText =
        "error: component `A\nB`: expected an object literal at `props`, found array\n" ∧
      lineFeeds (request.run tree).1.errorText = 2 := by
  intro tree request
  let component : Component := { name := "A\nB", target := some (.list []) }
  have hpaths : List.Forall₂ (StandsFor tree) ["a.json"] [["a.json"]] :=
    .cons (.path (by decide +kernel)) .nil
  have hdocument : Component.load "\x7b\"name\":\"A\\nB\",\"target\":[]\x7d" none =
      .ok [component] := by cbv
  have hdocuments : List.Forall₂ (DocumentHolds tree none) ["a.json"] [[component]] :=
    .cons (documentHolds_iff.2 ⟨_, Files.Tree.text_of_locate rfl rfl, hdocument⟩) .nil
  have hload : request.sources.Loads tree [[component]].flatten := .intro hpaths hdocuments
  have hcomplaints : request.complaints [[component]].flatten =
      [⟨"A\nB", "expected an object literal at `props`, found array"⟩] := rfl
  have hsome : request.complaints [[component]].flatten ≠ [] := by
    rw [hcomplaints]
    simp
  rw [run_of_complaints hload hsome, hcomplaints]
  exact ⟨rfl, by decide +kernel, by decide +kernel⟩

end Request

end CommandLine

end ComponentProps
