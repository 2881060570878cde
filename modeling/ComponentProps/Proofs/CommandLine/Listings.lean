import ComponentProps.Lowering
import ComponentProps.Proofs.CommandLine.Rendering
import ComponentProps.Proofs.Component.WellFormed
import ComponentProps.Proofs.Literal.Lines
import Mathlib

/-!
# Telling listings apart

The output for shapes is one listing after the other, each a comment with the name
of a component and the literal of its shape under it.  The name is written as it
is, so a name of several lines can pass for a listing and the beginning of the next
one (`HidesListing`).  Where no name does, the output tells its components apart.
All components are well formed, as those of documents are.

There are four groups.

* Shapes.  `Slot.eq_of_alike_lower`: different shapes have different literals.
* One listing.  `name_cases` compares two outputs at their first listing: the names
  are the same, or one of them hides the listing of the other.
* Names that hide listings.  `HidesListing.ambiguous`: there are always two
  components whose output is that of such a name.
* Outputs.  `Product.render_shapes_unique`: other names name the components of an
  output, and their shapes.
-/

namespace ComponentProps

/-! ## Shapes -/

theorem Shape.areProper_lowerSlots {slots : List (String × Slot)}
    (h : ∀ entry ∈ slots, entry.2.lower.isProper = true) :
    Literal.areProper (Shape.lowerSlots slots) = true := by
  induction slots with
  | nil => rfl
  | cons entry rest ih =>
    obtain ⟨key, slot⟩ := entry
    have hslot : slot.lower.isProper = true := h (key, slot) List.mem_cons_self
    have hrest := ih fun entry hentry => h entry (List.mem_cons_of_mem _ hentry)
    rw [Shape.lowerSlots, Literal.areProper, PropertyKey.isProper_ofName, hslot, hrest]
    rfl

/-- The keys of the literal of a slot are identifiers wherever they are bare. -/
theorem Slot.isProper_lower (slot : Slot) : slot.lower.isProper = true := by
  induction slot with
  | leaf tag => rfl
  | nested slots ih => exact Shape.areProper_lowerSlots ih

theorem Tag.name_inj {tag other : Tag} (h : tag.name = other.name) : tag = other := by
  have hfound := Tag.ofName?_name tag
  rw [h, Tag.ofName?_name] at hfound
  exact (Option.some.inj hfound).symm

theorem PropertyKey.ofName_inj {name other : String} (h : ofName name = ofName other) :
    name = other := by
  rw [← name_ofName name, h, name_ofName]

theorem Shape.eq_of_alike_lowerSlots {slots others : List (String × Slot)}
    (h : ∀ entry ∈ slots, ∀ other : Slot,
      entry.2.lower.alike other.lower = true → entry.2 = other)
    (halike : Literal.alikeProperties (Shape.lowerSlots slots) (Shape.lowerSlots others) = true) :
    slots = others := by
  induction slots generalizing others with
  | nil =>
    cases others with
    | nil => rfl
    | cons => cases halike
  | cons entry rest ih =>
    cases others with
    | nil => cases halike
    | cons otherEntry otherRest =>
      obtain ⟨key, slot⟩ := entry
      obtain ⟨otherKey, otherSlot⟩ := otherEntry
      rw [Shape.lowerSlots, Shape.lowerSlots, Literal.alikeProperties, Bool.and_eq_true,
        Bool.and_eq_true, beq_iff_eq] at halike
      have hslot : slot = otherSlot := h (key, slot) List.mem_cons_self otherSlot halike.1.2
      have hrest := ih (fun entry hentry => h entry (List.mem_cons_of_mem _ hentry)) halike.2
      rw [PropertyKey.ofName_inj halike.1.1, hslot, hrest]

/-- Slots are the same if their literals are alike. -/
theorem Slot.eq_of_alike_lower {slot : Slot} :
    ∀ other : Slot, slot.lower.alike other.lower = true → slot = other := by
  induction slot with
  | leaf tag =>
    intro other h
    cases other with
    | leaf otherTag => rw [Tag.name_inj (eq_of_beq h)]
    | nested slots => cases h
  | nested slots ih =>
    intro other h
    cases other with
    | leaf tag => cases h
    | nested others => rw [Shape.eq_of_alike_lowerSlots ih h]

namespace Component

/-- The literal in a listing. -/
def shapeLiteral : Option Shape → Literal
  | some shape => shape.lower
  | none => .null

theorem isProper_shapeLiteral (shape : Option Shape) : (shapeLiteral shape).isProper = true := by
  cases shape with
  | none => rfl
  | some shape => exact (Slot.nested shape).isProper_lower

theorem eq_of_alike_shapeLiteral {shape other : Option Shape}
    (h : (shapeLiteral shape).alike (shapeLiteral other) = true) : shape = other := by
  cases shape with
  | none =>
    cases other with
    | none => rfl
    | some other => cases h
  | some shape =>
    cases other with
    | none => cases h
    | some other =>
      have hnested : Slot.nested shape = .nested other :=
        Slot.eq_of_alike_lower (.nested other) h
      rw [Slot.nested.inj hnested]

/-- A listing shows the name and the shape. -/
theorem shapeListing_eq_ok_iff {component : Component} {deep : Option Bool} {text : String} :
    component.shapeListing deep = .ok text ↔
      ∃ shape, component.shape deep = .ok shape ∧
        listing component.name (shapeLiteral shape).print = text := by
  have hlisting : component.shapeListing deep =
      (fun shape => listing component.name (shapeLiteral shape).print) <$>
        component.shape deep := by
    unfold shapeListing
    cases component.shape deep with
    | error error => rfl
    | ok shape => cases shape <;> rfl
  rw [hlisting, Except.map_eq_ok_iff]

end Component

/-! ## One listing -/

section Names

variable {value other : Literal} {name otherName rest others : List Char}

/-- Whether a text is what follows a listing: nothing, or another one. -/
def FollowsListing (rest : List Char) : Prop :=
  rest = [] ∨ ∃ after, rest = '/' :: '/' :: ' ' :: after

theorem append_ne_cons {c : Char} (h : Literal.kindOfStart c = none) (value : Literal)
    (rest others : List Char) : value.chars 0 [] ++ rest ≠ c :: others := by
  rw [← Literal.chars_append]
  exact Literal.chars_ne_cons h 0 value _ _

/-- No literal stands where another listing begins. -/
theorem FollowsListing.ne_chars (h : FollowsListing rest) (value : Literal)
    (others : List Char) : value.chars 0 [] ++ others ≠ rest := by
  obtain rfl | ⟨after, rfl⟩ := h
  · obtain ⟨c, tail, hvalue, -⟩ := Literal.exists_chars_cons 0 value []
    rw [hvalue]
    exact List.cons_ne_nil _ _
  · exact append_ne_cons rfl value others _

/-- A line feed in what follows a listing comes behind the beginning of a header. -/
theorem FollowsListing.exists_after (h : FollowsListing (name ++ '\n' :: rest)) :
    ∃ after, name = '/' :: '/' :: ' ' :: after := by
  obtain hnil | ⟨after, hafter⟩ := h
  · exact absurd hnil (List.append_ne_nil_of_right_ne_nil _ (List.cons_ne_nil _ _))
  · match name with
    | [] => exact absurd (List.cons_eq_cons.1 hafter).1 (by decide)
    | [_] => exact absurd (List.cons_eq_cons.1 (List.cons_eq_cons.1 hafter).2).1 (by decide)
    | [_, _] =>
      have htail := (List.cons_eq_cons.1 (List.cons_eq_cons.1 hafter).2).2
      exact absurd (List.cons_eq_cons.1 htail).1 (by decide)
    | _ :: _ :: _ :: more =>
      simp only [List.cons_append, List.cons.injEq] at hafter
      obtain ⟨rfl, rfl, rfl, -⟩ := hafter
      exact ⟨more, rfl⟩

/-- What one name has more than another that begins the same text holds at least the
other listing and the beginning of a header. -/
theorem extra_cases (hvalue : value.isProper = true) (hrest : FollowsListing rest)
    {extra : List Char}
    (h : '\n' :: (value.chars 0 [] ++ '\n' :: rest) =
      extra ++ '\n' :: (other.chars 0 [] ++ others)) :
    extra = [] ∨
      ∃ after, extra = '\n' :: (value.chars 0 [] ++ '\n' :: '/' :: '/' :: ' ' :: after) := by
  cases extra with
  | nil => exact .inl rfl
  | cons c lines =>
    obtain ⟨rfl, hlines⟩ := List.cons_eq_cons.1 h
    refine .inr ?_
    obtain ⟨more, rfl, hmore⟩ | ⟨more, hinside, hmore⟩ := List.append_eq_append_iff.1 hlines
    · -- the longer name goes on behind the literal
      cases more with
      | nil => exact absurd (List.cons_eq_cons.1 hmore).2.symm (hrest.ne_chars other others)
      | cons c more =>
        obtain ⟨rfl, rfl⟩ := List.cons_eq_cons.1 hmore
        obtain ⟨after, rfl⟩ := hrest.exists_after
        exact ⟨after, rfl⟩
    · -- the longer name ends inside the literal
      cases more with
      | nil => exact absurd (List.cons_eq_cons.1 hmore).2 (hrest.ne_chars other others)
      | cons c more =>
        obtain ⟨rfl, hother⟩ := List.cons_eq_cons.1 hmore
        have hcontinued := Literal.continued_chars 0 value hvalue .nil
        rw [hinside] at hcontinued
        obtain ⟨next, line, rfl, hnext⟩ := hcontinued.exists_next
        obtain rfl | rfl := hnext
        · exact absurd hother (append_ne_cons rfl other others _)
        · exact absurd hother (append_ne_cons rfl other others _)

/-- Two outputs that begin with listings begin with the same name, or the longer name
hides the listing of the shorter one. -/
theorem name_cases (hvalue : value.isProper = true) (hother : other.isProper = true)
    (hrest : FollowsListing rest) (hothers : FollowsListing others)
    (h : name ++ '\n' :: (value.chars 0 [] ++ '\n' :: rest) =
      otherName ++ '\n' :: (other.chars 0 [] ++ '\n' :: others)) :
    name = otherName ∨
      (∃ after, otherName =
        name ++ '\n' :: (value.chars 0 [] ++ '\n' :: '/' :: '/' :: ' ' :: after)) ∨
      ∃ after, name =
        otherName ++ '\n' :: (other.chars 0 [] ++ '\n' :: '/' :: '/' :: ' ' :: after) := by
  obtain ⟨extra, rfl, hextra⟩ | ⟨extra, rfl, hextra⟩ := List.append_eq_append_iff.1 h
  · obtain rfl | ⟨after, rfl⟩ := extra_cases hvalue hrest hextra
    · exact .inl (List.append_nil name).symm
    · exact .inr (.inl ⟨after, rfl⟩)
  · obtain rfl | ⟨after, rfl⟩ := extra_cases hother hothers hextra
    · exact .inl (List.append_nil otherName)
    · exact .inr (.inr ⟨after, rfl⟩)

end Names

/-! ## Names that hide listings -/

namespace CommandLine

/-- A listing, character by character. -/
theorem toList_listing (name : String) (value : Literal) :
    (Component.listing name value.print).toList =
      '/' :: '/' :: ' ' :: (name.toList ++ '\n' :: (value.chars 0 [] ++ ['\n'])) := by
  have hheader : "// ".toList = ['/', '/', ' '] := rfl
  have hfeed : "\n".toList = ['\n'] := rfl
  rw [Component.listing, Literal.print]
  simp only [String.toList_append, String.toList_ofList, hheader, hfeed, List.append_assoc,
    List.cons_append, List.nil_append]

/-- Whether a name, written behind the mark of a comment, is the listing of some
component and the beginning of another header. -/
def HidesListing (name : String) : Prop :=
  ∃ (component : Component) (deep : Option Bool) (listing after : String),
    component.WellFormed ∧ component.shapeListing deep = .ok listing ∧
      "// " ++ name = listing ++ "// " ++ after

/-- Only a name of three lines or more hides a listing. -/
theorem HidesListing.lineFeeds {name : String} (h : HidesListing name) : 2 ≤ lineFeeds name := by
  obtain ⟨component, deep, text, after, -, htext, hname⟩ := h
  obtain ⟨shape, -, rfl⟩ := Component.shapeListing_eq_ok_iff.1 htext
  have hcount := congrArg CommandLine.lineFeeds hname
  have hheader : CommandLine.lineFeeds "// " = 0 := by decide +kernel
  have hfeed : CommandLine.lineFeeds "\n" = 1 := by decide +kernel
  rw [Component.listing] at hcount
  simp only [lineFeeds_append, hheader, hfeed] at hcount
  omega

theorem hidesListing_of_append {component : Component} {deep : Option Bool}
    {shape : Option Shape} {name : String} {after : List Char}
    (hcomponent : component.WellFormed) (hshape : component.shape deep = .ok shape)
    (h : name.toList = component.name.toList ++
      '\n' :: ((Component.shapeLiteral shape).chars 0 [] ++ '\n' :: '/' :: '/' :: ' ' :: after)) :
    HidesListing name := by
  have hheader : "// ".toList = ['/', '/', ' '] := rfl
  refine ⟨component, deep, _, String.ofList after, hcomponent,
    Component.shapeListing_eq_ok_iff.2 ⟨shape, hshape, rfl⟩, ?_⟩
  rw [← String.toList_inj, String.toList_append, String.toList_append, String.toList_append,
    toList_listing, h, hheader, String.toList_ofList]
  simp only [List.append_assoc, List.cons_append, List.nil_append]

/-! ## Outputs -/

/-- The output of shapes is made of the listings. -/
theorem Product.render_shapes_eq_ok_iff {deep : Option Bool} {components : List Component}
    {text : String} :
    (Product.shapes .literal).render deep components = .ok text ↔
      ∃ listings, List.Forall₂ (fun component listing => component.shapeListing deep = .ok listing)
        components listings ∧ String.join listings = text :=
  output_eq_ok_iff UnsupportedField.message (·.shapeListing deep) String.join

theorem followsListing_join {deep : Option Bool} {components : List Component}
    {listings : List String}
    (h : List.Forall₂ (fun component listing => component.shapeListing deep = .ok listing)
      components listings) : FollowsListing (String.join listings).toList := by
  cases h with
  | nil => exact .inl rfl
  | cons hfirst hrest =>
    obtain ⟨shape, -, rfl⟩ := Component.shapeListing_eq_ok_iff.1 hfirst
    rw [String.join_cons, String.toList_append, toList_listing]
    exact .inr ⟨_, rfl⟩

/-- Where no name hides a listing, equal outputs begin with the listing of one name and
one shape. -/
theorem first_of_output {component other : Component} {deep otherDeep : Option Bool}
    {shape otherShape : Option Shape} {rest others : String}
    (hcomponent : component.WellFormed) (hotherComponent : other.WellFormed)
    (hshape : component.shape deep = .ok shape) (hother : other.shape otherDeep = .ok otherShape)
    (hrest : FollowsListing rest.toList) (hothers : FollowsListing others.toList)
    (hname : ¬ HidesListing component.name) (hotherName : ¬ HidesListing other.name)
    (h : Component.listing component.name (Component.shapeLiteral shape).print ++ rest =
      Component.listing other.name (Component.shapeLiteral otherShape).print ++ others) :
    component.name = other.name ∧ shape = otherShape ∧ rest = others := by
  have hproper := Component.isProper_shapeLiteral shape
  have hproper' := Component.isProper_shapeLiteral otherShape
  have hchars := congrArg String.toList h
  simp only [String.toList_append, toList_listing, List.cons_append, List.append_assoc,
    List.nil_append, List.cons.injEq, true_and] at hchars
  obtain heq | ⟨after, hhides⟩ | ⟨after, hhides⟩ :=
    name_cases hproper hproper' hrest hothers hchars
  · rw [heq] at hchars
    have hliterals := (List.cons_eq_cons.1 (List.append_cancel_left hchars)).2
    rw [← Literal.chars_append, ← Literal.chars_append] at hliterals
    obtain ⟨halike, hfeed⟩ := Literal.chars_inj _ _ hproper hproper'
      (Literal.ends_newline _) (Literal.ends_newline _) hliterals
    refine ⟨String.toList_inj.1 heq, Component.eq_of_alike_shapeLiteral halike, ?_⟩
    exact String.toList_inj.1 (List.cons_eq_cons.1 hfeed).2
  · exact absurd (hidesListing_of_append hcomponent hshape hhides) hotherName
  · exact absurd (hidesListing_of_append hotherComponent hother hhides) hname

/-- An output is empty only if there are no components. -/
theorem join_cons_ne {component : Component} {deep : Option Bool} {text : String}
    (h : component.shapeListing deep = .ok text) (rest : List String) :
    String.join (text :: rest) ≠ String.join [] := by
  obtain ⟨shape, -, rfl⟩ := Component.shapeListing_eq_ok_iff.1 h
  intro heq
  have hchars := congrArg String.toList heq
  rw [String.join_cons, String.toList_append, toList_listing] at hchars
  cases hchars

/-- Equal outputs are of equal components, unless a name hides a listing. -/
theorem components_of_join {deep otherDeep : Option Bool} {components others : List Component}
    {listings otherListings : List String}
    (hcomponents : ∀ component ∈ components, component.WellFormed)
    (hotherComponents : ∀ component ∈ others, component.WellFormed)
    (hlistings : List.Forall₂
      (fun component listing => component.shapeListing deep = .ok listing) components listings)
    (hothers : List.Forall₂
      (fun component listing => component.shapeListing otherDeep = .ok listing) others
      otherListings)
    (hnames : ∀ component ∈ components, ¬ HidesListing component.name)
    (hotherNames : ∀ component ∈ others, ¬ HidesListing component.name)
    (htext : String.join listings = String.join otherListings) :
    List.Forall₂ (fun component other =>
      component.name = other.name ∧ component.shape deep = other.shape otherDeep)
      components others := by
  induction hlistings generalizing others otherListings with
  | nil =>
    cases hothers with
    | nil => exact .nil
    | cons hfirst _ => exact absurd htext.symm (join_cons_ne hfirst _)
  | cons hfirst hrest ih =>
    cases hothers with
    | nil => exact absurd htext (join_cons_ne hfirst _)
    | cons hotherFirst hotherRest =>
      rw [List.forall_mem_cons] at hcomponents hotherComponents hnames hotherNames
      obtain ⟨shape, hshape, rfl⟩ := Component.shapeListing_eq_ok_iff.1 hfirst
      obtain ⟨otherShape, hotherShape, rfl⟩ := Component.shapeListing_eq_ok_iff.1 hotherFirst
      rw [String.join_cons, String.join_cons] at htext
      obtain ⟨hname, rfl, hjoin⟩ := first_of_output hcomponents.1 hotherComponents.1 hshape
        hotherShape (followsListing_join hrest) (followsListing_join hotherRest) hnames.1
        hotherNames.1 htext
      exact .cons ⟨hname, hshape.trans hotherShape.symm⟩
        (ih hcomponents.2 hotherComponents.2 hotherRest hnames.2 hotherNames.2 hjoin)

/-- A component whose name hides a listing has the output of two components. -/
theorem HidesListing.ambiguous {component : Component} {deep : Option Bool}
    {shape : Option Shape} (h : HidesListing component.name)
    (hcomponent : component.WellFormed) (hshape : component.shape deep = .ok shape) :
    ∃ (first second : Component) (text : String), first.WellFormed ∧ second.WellFormed ∧
      (Product.shapes .literal).render deep [component] = .ok text ∧
        (Product.shapes .literal).render none [first, second] = .ok text := by
  obtain ⟨hidden, hiddenDeep, listing, after, hhidden, hlisting, hname⟩ := h
  let first : Component := { hidden with deep := hiddenDeep.getD hidden.deep }
  let second : Component := { component with name := after, deep := deep.getD component.deep }
  let literal := (Component.shapeLiteral shape).print
  -- the names of the components and their ways to read do not bear on their keys
  have hfirstFormed : first.WellFormed := ⟨hhidden.reads, hhidden.names, hhidden.fields⟩
  have hsecondFormed : second.WellFormed :=
    ⟨hcomponent.reads, hcomponent.names, hcomponent.fields⟩
  have hfirst : first.shapeListing none = .ok listing := hlisting
  have hsecond : second.shapeListing none = .ok (Component.listing after literal) :=
    Component.shapeListing_eq_ok_iff.2 ⟨shape, hshape, rfl⟩
  have hwhole : component.shapeListing deep =
      .ok (Component.listing component.name literal) :=
    Component.shapeListing_eq_ok_iff.2 ⟨shape, hshape, rfl⟩
  have htext : String.join [Component.listing component.name literal] =
      String.join [listing, Component.listing after literal] := by
    simp only [Component.listing, hname, String.join_cons, String.join_nil, String.append_assoc]
  exact ⟨first, second, _, hfirstFormed, hsecondFormed,
    Product.render_shapes_eq_ok_iff.2 ⟨_, .cons hwhole .nil, rfl⟩,
    Product.render_shapes_eq_ok_iff.2 ⟨_, .cons hfirst (.cons hsecond .nil), htext.symm⟩⟩

/-- The output of shapes names well-formed components and their shapes, in their order,
unless a name hides a listing.  Such a name has three lines at least, and it always has
the output of two well-formed components. -/
theorem Product.render_shapes_unique :
    (∀ (components others : List Component) (deep otherDeep : Option Bool) (text : String),
      (∀ component ∈ components, component.WellFormed) →
      (∀ component ∈ others, component.WellFormed) →
      (Product.shapes .literal).render deep components = .ok text →
      (Product.shapes .literal).render otherDeep others = .ok text →
      (∀ component ∈ components, ¬ HidesListing component.name) →
      (∀ component ∈ others, ¬ HidesListing component.name) →
        List.Forall₂ (fun component other =>
          component.name = other.name ∧ component.shape deep = other.shape otherDeep)
          components others) ∧
    (∀ name, HidesListing name → 2 ≤ lineFeeds name) ∧
    ∀ (component : Component) (deep : Option Bool) (shape : Option Shape),
      component.WellFormed → HidesListing component.name → component.shape deep = .ok shape →
        ∃ (first second : Component) (text : String), first.WellFormed ∧ second.WellFormed ∧
          (Product.shapes .literal).render deep [component] = .ok text ∧
            (Product.shapes .literal).render none [first, second] = .ok text := by
  refine ⟨?_, fun _ h => h.lineFeeds, fun _ _ _ hcomponent h hshape =>
    h.ambiguous hcomponent hshape⟩
  intro components others deep otherDeep text hformed hotherFormed hcomponents hothers hnames
    hotherNames
  obtain ⟨listings, hlistings, rfl⟩ := Product.render_shapes_eq_ok_iff.1 hcomponents
  obtain ⟨otherListings, hotherListings, htext⟩ := Product.render_shapes_eq_ok_iff.1 hothers
  exact components_of_join hformed hotherFormed hlistings hotherListings hnames hotherNames
    htext.symm

/-- A name of two lines hides nothing, and a name of three lines may hide a listing. -/
theorem Product.render_shapes_lines :
    let declared : Component := { name := "A\nB", declarations := some [("x", .tag .any)] }
    let read : Component := { name := "A\nB", accessors := some (.dotted ["x"]) }
    let confused : Component := { name := "A\nnull\n// B" }
    (Product.shapes .literal).render none [declared] =
        (Product.shapes .literal).render (some true) [read] ∧
      declared.shape none = read.shape (some true) ∧
      HidesListing confused.name ∧
      ∃ (first second : Component) (text : String), first.WellFormed ∧ second.WellFormed ∧
        (Product.shapes .literal).render none [confused] = .ok text ∧
          (Product.shapes .literal).render none [first, second] = .ok text := by
  intro declared read confused
  obtain ⟨hunique, hlines, hconfused⟩ := Product.render_shapes_unique
  have hdeclared : (Product.shapes .literal).render none [declared] =
      .ok "// A\nB\n\x7b\n  x: \"any\"\n\x7d\n" := by cbv
  have hread : (Product.shapes .literal).render (some true) [read] =
      .ok "// A\nB\n\x7b\n  x: \"any\"\n\x7d\n" := by cbv
  have hnamed (name : String) : Component.WellFormed { name } :=
    ⟨trivial, List.nodup_nil, by simp [Component.declared]⟩
  have hdeclaredFormed : declared.WellFormed :=
    ⟨trivial, List.nodup_singleton _, by simp [declared, Component.declared,
      Declaration.DistinctFields]⟩
  have hreadFormed : read.WellFormed :=
    ⟨Access.wellFormedTable_ofPaths ["x"], List.nodup_nil, by simp [read, Component.declared]⟩
  have hfeeds : ¬ 2 ≤ lineFeeds "A\nB" := by decide +kernel
  have hplain : ¬ HidesListing "A\nB" := fun hhides => hfeeds (hlines _ hhides)
  have hsame := hunique [declared] [read] none (some true) _
    (List.forall_mem_singleton.2 hdeclaredFormed) (List.forall_mem_singleton.2 hreadFormed)
    hdeclared hread (List.forall_mem_singleton.2 hplain) (List.forall_mem_singleton.2 hplain)
  have hhides : HidesListing confused.name :=
    ⟨{ name := "A" }, none, "// A\nnull\n", "B", hnamed "A", by cbv, by decide +kernel⟩
  refine ⟨hdeclared.trans hread.symm, ?_, hhides,
    hconfused confused none none (hnamed _) hhides rfl⟩
  cases hsame with
  | cons hfirst _ => exact hfirst.2

/-- The output of one component with a name of three lines is that of two components
with names of one line. -/
theorem Product.render_shapes_hidden :
    let named (name : String) : Component := { name }
    (Product.shapes .literal).render none [named "A\nnull\n// B"] =
        .ok "// A\nnull\n// B\nnull\n" ∧
      (Product.shapes .literal).render none [named "A", named "B"] =
        .ok "// A\nnull\n// B\nnull\n" ∧
      [named "A\nnull\n// B"].length ≠ [named "A", named "B"].length := by
  intro named
  exact ⟨by cbv, by cbv, by decide⟩

end CommandLine

end ComponentProps
