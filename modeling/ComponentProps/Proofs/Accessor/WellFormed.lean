import ComponentProps.Accessor.Json
import ComponentProps.Proofs.Json.Forms

/-!
# Well-formed reads

A tree of reads is well formed if no level of it repeats a name.  Trees that
are built by insertion are, so this holds of every tree that is decoded and of
every tree of dotted paths.

* `Access.WellFormed`, `Access.WellFormedTable`: no level repeats a name.
* `Access.wellFormedTable_iff`: the same for one level and what is below it.
* `Access.wellFormed_of_decode`: decoded reads are well formed.
* `Access.wellFormedTable_ofPaths`: the reads along dotted paths are well formed.
-/

namespace ComponentProps

namespace Access

mutual

/-- No level below a read repeats a name. -/
def WellFormed : Access → Prop
  | .plain => True
  | .into children => WellFormedTable children

/-- No level of a tree of reads repeats a name. -/
def WellFormedTable : List (String × Access) → Prop
  | [] => True
  | (name, access) :: rest =>
    name ∉ Table.keys rest ∧ access.WellFormed ∧ WellFormedTable rest

end

@[simp] theorem wellFormed_plain : Access.plain.WellFormed := trivial

@[simp] theorem wellFormed_into_iff (children : List (String × Access)) :
    (Access.into children).WellFormed ↔ WellFormedTable children := Iff.rfl

@[simp] theorem wellFormedTable_nil : WellFormedTable [] := trivial

@[simp] theorem wellFormedTable_cons_iff (name : String) (access : Access)
    (rest : List (String × Access)) :
    WellFormedTable ((name, access) :: rest) ↔
      name ∉ Table.keys rest ∧ access.WellFormed ∧ WellFormedTable rest := Iff.rfl

/-- A tree is well formed if its names are distinct and its reads well formed. -/
theorem wellFormedTable_iff {reads : List (String × Access)} :
    WellFormedTable reads ↔
      (Table.keys reads).Nodup ∧ ∀ entry ∈ reads, entry.2.WellFormed := by
  induction reads with
  | nil => simp
  | cons entry rest ih =>
    obtain ⟨name, access⟩ := entry
    rw [wellFormedTable_cons_iff, ih, Table.keys_cons, List.nodup_cons,
      List.forall_mem_cons]
    constructor
    · rintro ⟨hnew, haccess, hkeys, hrest⟩
      exact ⟨⟨hnew, hkeys⟩, haccess, hrest⟩
    · rintro ⟨⟨hnew, hkeys⟩, haccess, hrest⟩
      exact ⟨hnew, haccess, hkeys, hrest⟩

theorem WellFormedTable.nodup {reads : List (String × Access)} (h : WellFormedTable reads) :
    (Table.keys reads).Nodup :=
  (wellFormedTable_iff.1 h).1

/-- The reads made on the value of a read are well formed. -/
theorem WellFormedTable.children {reads : List (String × Access)} (h : WellFormedTable reads)
    {name : String} {access : Access} (hmem : (name, access) ∈ reads) :
    WellFormedTable access.children := by
  have haccess : access.WellFormed := (wellFormedTable_iff.1 h).2 _ hmem
  cases access with
  | plain => trivial
  | into children => exact haccess

theorem WellFormedTable.insert {reads : List (String × Access)} (h : WellFormedTable reads)
    {access : Access} (haccess : access.WellFormed) (name : String) :
    WellFormedTable (Table.insert reads name access) := by
  rw [wellFormedTable_iff] at h ⊢
  refine ⟨Table.nodup_keys_insert name access h.1, ?_⟩
  intro entry hentry
  rcases Table.mem_of_mem_insert hentry with rfl | hentry
  · exact haccess
  · exact h.2 entry hentry

theorem wellFormedTable_ofEntries {entries : List (String × Access)}
    (hentries : ∀ entry ∈ entries, entry.2.WellFormed) :
    WellFormedTable (Table.ofEntries entries) := by
  rw [wellFormedTable_iff]
  refine ⟨Table.nodup_keys_ofEntries entries, ?_⟩
  intro entry hentry
  rcases Table.mem_of_mem_insertAll hentry with hentry | hentry
  · cases hentry
  · exact hentries entry hentry

/-! ## Decoded reads -/

mutual

theorem wellFormed_of_decode :
    (value : Json) → (access : Access) → decode value = .ok access → access.WellFormed
  | .null, access, h => by
    rw [decode] at h
    cases h
    trivial
  | .object members, access, h => by
    rw [decode, Except.map_eq_ok_iff] at h
    obtain ⟨reads, hreads, rfl⟩ := h
    exact wellFormedTable_ofEntries (wellFormed_of_decodeMembers members reads hreads)
  | .bool _, access, h | .number _, access, h | .text _, access, h | .list _, access, h => by
    unfold decode at h
    cases h

theorem wellFormed_of_decodeMembers :
    (members : List (String × Json)) → (reads : List (String × Access)) →
      decodeMembers members = .ok reads → ∀ entry ∈ reads, entry.2.WellFormed
  | [], reads, h => by
    rw [decodeMembers] at h
    cases h
    simp
  | (name, value) :: rest, reads, h => by
    rw [decodeMembers, Except.bind_eq_ok_iff] at h
    obtain ⟨access, haccess, h⟩ := h
    obtain ⟨others, hothers, hlist⟩ := Except.bind_eq_ok_iff.1 h
    cases hlist
    rw [List.forall_mem_cons]
    exact ⟨wellFormed_of_decode value access (Json.within_eq_ok_iff.1 haccess),
      wellFormed_of_decodeMembers rest others hothers⟩

end

/-! ## The reads along dotted paths -/

theorem wellFormed_ofChildren {reads : Table Access} (h : WellFormedTable reads) :
    (ofChildren reads).WellFormed := by
  cases reads with
  | nil => trivial
  | cons child rest => exact h

theorem WellFormedTable.addPath {reads : Table Access} (h : WellFormedTable reads)
    (segments : List String) : WellFormedTable (addPath segments reads) := by
  induction segments generalizing reads with
  | nil => exact h
  | cons segment rest ih =>
    rw [Access.addPath]
    refine h.insert (wellFormed_ofChildren (ih ?_)) segment
    cases hread : Table.get? reads segment with
    | none => trivial
    | some access => exact h.children (Table.mem_of_get? hread)

/-- The reads along dotted paths are well formed. -/
theorem wellFormedTable_ofPaths (paths : List String) : WellFormedTable (ofPaths paths) := by
  have hfold : ∀ reads, WellFormedTable reads →
      WellFormedTable (paths.foldl (fun reads path => Access.addPath (segments path) reads)
        reads) := by
    induction paths with
    | nil => exact fun reads h => h
    | cons path rest ih => exact fun reads h => ih _ (h.addPath (segments path))
  rw [ofPaths_eq_foldl]
  exact hfold [] wellFormedTable_nil

end Access

end ComponentProps
