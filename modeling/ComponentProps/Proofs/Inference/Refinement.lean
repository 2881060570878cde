import ComponentProps.Proofs.Accessor.Order
import ComponentProps.Proofs.Inference.Filled

/-!
# More reads refine a shape

A shape is refined by another that has all its properties, each with a slot that
refines the one it has.  A leaf without a type may be refined by anything, and
any other leaf only by itself.

There are three groups.

* The order.  `Slot.RefinedBy` with `Slot.RefinedBy.refl`, and
  `Slot.RefinedBy.at?`, which reads it along a sequence of keys.
* Levels.  `Inference.level_refinedBy` is the induction: more reads, or reads
  that are followed deeply, refine a level.
* `infer_mono`, the same for the shape of some reads and declarations.
-/

namespace ComponentProps

/-! ## The order -/

namespace Slot

/-- One slot is refined by another: leaves without a type by any slot, other
leaves by themselves, and an object by one that has all its keys, with slots that
refine its own. -/
inductive RefinedBy : Slot → Slot → Prop
  | any (slot : Slot) : RefinedBy (.leaf .any) slot
  | leaf (tag : Tag) : RefinedBy (.leaf tag) (.leaf tag)
  | nested {slots others : List (String × Slot)}
      (hkeys : ∀ key ∈ Table.keys slots, key ∈ Table.keys others)
      (hslots : ∀ key slot other, Table.get? slots key = some slot →
        Table.get? others key = some other → RefinedBy slot other) :
      RefinedBy (.nested slots) (.nested others)

theorem RefinedBy.refl (slot : Slot) : slot.RefinedBy slot := by
  induction slot with
  | leaf tag => exact .leaf tag
  | nested slots ih =>
    refine .nested (fun _ h => h) ?_
    intro key slot other hslot hother
    cases hslot.symm.trans hother
    exact ih _ (Table.mem_of_get? hslot)

/-- What stands under some keys is refined by what stands under them in a
refinement. -/
theorem RefinedBy.at? {slot other : Slot} (h : slot.RefinedBy other) {keys : List String}
    {part : Slot} (hpart : slot.at? keys = some part) :
    ∃ finer, other.at? keys = some finer ∧ part.RefinedBy finer := by
  induction keys generalizing slot other with
  | nil =>
    rw [at?_nil, Option.some.injEq] at hpart
    exact ⟨other, at?_nil other, hpart ▸ h⟩
  | cons key keys ih =>
    cases h with
    | any => cases hpart
    | leaf tag => cases hpart
    | @nested slots others hkeys hslots =>
      rw [at?_nested_cons, Option.bind_eq_some_iff] at hpart
      obtain ⟨inner, hinner, hpart⟩ := hpart
      have hkey : key ∈ Table.keys others :=
        hkeys key (List.mem_map_of_mem (Table.mem_of_get? hinner))
      rw [← Table.contains_iff, Table.contains, Option.isSome_iff_exists] at hkey
      obtain ⟨inner', hinner'⟩ := hkey
      obtain ⟨finer, hfiner, hrefined⟩ := ih (hslots key inner inner' hinner hinner') hpart
      refine ⟨finer, ?_, hrefined⟩
      rw [at?_nested_cons, hinner', Option.bind_some, hfiner]

end Slot

/-! ## Levels -/

namespace Inference

variable {deep deep' : Bool} {declared : List (String × Slot)}
  {reads others : List (String × Access)}

/-- A level of more reads, or of reads that are followed deeply, refines a level. -/
theorem level_refinedBy (hdeep : deep = true → deep' = true)
    (hdeclared : (Table.keys declared).Nodup) (hreads : Access.WellFormedTable reads)
    (hothers : Access.WellFormedTable others) (h : Access.Included reads others) :
    (Slot.nested (level deep declared reads)).RefinedBy
      (.nested (level deep' declared others)) := by
  induction h with
  | @intro reads others hnames hbelow ih =>
    refine .nested ?_ ?_
    · intro key hkey
      rw [keys_level hreads.nodup hdeclared, List.mem_append, List.mem_filter] at hkey
      rw [keys_level hothers.nodup hdeclared, List.mem_append, List.mem_filter]
      exact hkey.imp_left fun hread => ⟨hnames key hread.1, hread.2⟩
    · intro key slot other hslot hother
      by_cases hkey : key ∈ Table.keys declared
      · rw [get?_level_declared hreads.nodup hdeclared hkey] at hslot
        rw [get?_level_declared hothers.nodup hdeclared hkey] at hother
        cases hslot.symm.trans hother
        exact .refl slot
      · rw [get?_level_read hreads.nodup hdeclared hkey, Option.map_eq_some_iff] at hslot
        rw [get?_level_read hothers.nodup hdeclared hkey, Option.map_eq_some_iff] at hother
        obtain ⟨access, haccess, rfl⟩ := hslot
        obtain ⟨access', haccess', rfl⟩ := hother
        have hread : (key, access) ∈ reads := Table.mem_of_get? haccess
        have hread' : (key, access') ∈ others := Table.mem_of_get? haccess'
        by_cases hexpands : Expands deep access
        · have hexpands' : Expands deep' access' :=
            ⟨hdeep hexpands.1, (hbelow key access access' hread hread').ne_nil hexpands.2⟩
          rw [readSlot_of_expands hexpands, readSlot_of_expands hexpands']
          exact ih key access access' hread hread' (hreads.children hread)
            (hothers.children hread')
        · rw [readSlot_of_not_expands hexpands]
          exact .any _

end Inference

/-! ## The shape of a component -/

open Inference

/-- If inference gives a shape, then from more reads, or from reads that are
followed deeply, it gives one that refines it.  So no property gets lost, only
leaves without a type change, and on the level of every read the declared names
keep the slots of their own declarations. -/
theorem infer_mono {deep deep' : Bool} (hdeep : deep = true → deep' = true)
    {reads others : Table Access} (hreads : Access.WellFormedTable reads)
    (hothers : Access.WellFormedTable others) (hincluded : Access.Included reads others)
    {declarations : Table Declaration} (hdeclarations : (Table.keys declarations).Nodup)
    {shape : Shape} (hshape : infer deep reads declarations = .ok (some shape)) :
    ∃ finer, infer deep' others declarations = .ok (some finer) ∧
      (Slot.nested shape).RefinedBy (.nested finer) ∧
      (∀ keys slot, (Slot.nested shape).at? keys = some slot →
        ∃ other, (Slot.nested finer).at? keys = some other ∧ slot.RefinedBy other) ∧
      ∀ names below, Expanded deep (Table.keys declarations) reads names below →
        ∀ name slot, Contributes declarations name slot →
          (Slot.nested shape).at? (names ++ [name]) = some slot ∧
            (Slot.nested finer).at? (names ++ [name]) = some slot := by
  obtain ⟨hsome, declared, hdeclared, rfl⟩ := exists_level_of_infer hshape
  have hnodup : (Table.keys declared).Nodup := (keys_of_resolveAll hdeclared).symm ▸ hdeclarations
  have hrefined := level_refinedBy hdeep hnodup hreads hothers hincluded
  refine ⟨level deep' declared others, ?_, hrefined, fun _ _ hslot => hrefined.at? hslot, ?_⟩
  · rw [infer_of_ne_nil (hsome.imp_left hincluded.ne_nil), hdeclared]
    rfl
  · intro names below hlevel name slot hslot
    obtain ⟨below', hlevel', -⟩ := hlevel.counterpart (fun h => h.exists_mem) hdeep
      (fun _ hname => hname) hincluded
    exact ⟨at?_level_contributes hreads hdeclarations hdeclared hlevel hslot,
      at?_level_contributes hothers hdeclarations hdeclared hlevel' hslot⟩

/-- A leaf becomes a level once its value is read further and reads are followed
deeply; the declared property stays as it is although more is read of it. -/
theorem infer_mono_further_read :
    let reads : Table Access := [("user", .plain), ("size", .plain)]
    let others : Table Access :=
      [("size", .into [("unit", .plain)]), ("user", .into [("name", .plain)])]
    let declarations : Table Declaration := [("size", .tag .numberRequired)]
    Access.WellFormedTable reads ∧ Access.WellFormedTable others ∧
      Access.Included reads others ∧ (Table.keys declarations).Nodup ∧
      ∃ shape finer, infer false reads declarations = .ok (some shape) ∧
        infer true others declarations = .ok (some finer) ∧
        (Slot.nested shape).RefinedBy (.nested finer) ∧
        (Slot.nested shape).at? ["user"] = some (.leaf .any) ∧
        (Slot.nested finer).at? ["user", "size"] = some (.leaf .numberRequired) ∧
        (Slot.nested finer).at? ["size"] = some (.leaf .numberRequired) := by
  intro reads others declarations
  have hreads : Access.WellFormedTable reads := by simp [reads]
  have hothers : Access.WellFormedTable others := by simp [others]
  have hdeclarations : (Table.keys declarations).Nodup := by simp [declarations]
  have hincluded : Access.Included reads others := by
    have hnone (children : List (String × Access)) : Access.Included [] children :=
      .intro (by simp) (by simp)
    refine .intro (by simp [reads, others, Table.keys]) ?_
    intro name access other hread _
    have hplain : access.children = [] := by
      simp only [reads, List.mem_cons, Prod.mk.injEq, List.not_mem_nil, or_false] at hread
      rcases hread with ⟨-, rfl⟩ | ⟨-, rfl⟩ <;> rfl
    exact hplain ▸ hnone other.children
  have hshape : infer false reads declarations =
      .ok (some [("user", .leaf .any), ("size", .leaf .numberRequired)]) := rfl
  have hfiner : infer true others declarations =
      .ok (some [("user", .nested [("name", .leaf .any), ("size", .leaf .numberRequired)]),
        ("size", .leaf .numberRequired)]) := rfl
  obtain ⟨finer, hinfer, hrefined, -, -⟩ :=
    infer_mono (fun _ => rfl) hreads hothers hincluded hdeclarations hshape
  cases hfiner.symm.trans hinfer
  exact ⟨hreads, hothers, hincluded, hdeclarations, _, _, hshape, hfiner, hrefined, rfl, rfl, rfl⟩

end ComponentProps
