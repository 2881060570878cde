import ComponentProps.Files.Tree

/-!
# What changing a tree leaves alone

Making folders puts folders where nothing was, so the files stay as they are.
Writing a text puts a file at one place, and only if it succeeds.

There are three groups.

* Files.  `Tree.SameFiles` compares two trees by their files alone, and
  `Tree.Receives` says that the file at one path is the only one to change.
* Folders.  `keepsFiles_makeFolders`: no file changes, whether or not the folders
  can all be made.
* Texts.  `writeText_cases`: a text that is written is found at its path again,
  and one that is not leaves the tree as it was.  `writeText_fst`: which of the two
  it is does not depend on the text.
-/

namespace ComponentProps

namespace Files

namespace Tree

variable {tree other after : Tree} {place : Place}

/-! ## Files -/

/-- Two trees have the same files, with the same bytes. -/
def SameFiles (tree other : Tree) : Prop :=
  ∀ place bytes, tree.get? place = some (.file bytes) ↔ other.get? place = some (.file bytes)

theorem SameFiles.refl (tree : Tree) : SameFiles tree tree := fun _ _ => Iff.rfl

theorem SameFiles.trans (h : SameFiles tree other) (h' : SameFiles other after) :
    SameFiles tree after :=
  fun place bytes => (h place bytes).trans (h' place bytes)

/-- A path leads to a file of a text in the tree after a change, and the files at
all other places are those from before it. -/
def Receives (tree : Tree) (path text : String) (after : Tree) : Prop :=
  ∃ place, after.locate path = .ok place ∧ after.get? place = some (.file text.toUTF8) ∧
    ∀ other bytes, other ≠ place →
      (tree.get? other = some (.file bytes) ↔ after.get? other = some (.file bytes))

theorem Receives.of_sameFiles (h : SameFiles tree other) {path text : String}
    (hother : other.Receives path text after) : tree.Receives path text after := by
  obtain ⟨place, hplace, htext, hrest⟩ := hother
  refine ⟨place, hplace, htext, ?_⟩
  exact fun other bytes hne => (h other bytes).trans (hrest other bytes hne)

theorem text_of_locate {path text : String} (hplace : tree.locate path = .ok place)
    (htext : tree.get? place = some (.file text.toUTF8)) : tree.text path = .ok text := by
  have hdecode : String.fromUTF8? text.toUTF8 = some text := by
    rw [String.fromUTF8?, String.toUTF8_eq_toByteArray, dif_pos text.isValidUTF8]
    rfl
  simp only [Tree.text, hplace, htext, hdecode]

/-- The text is read again at the path. -/
theorem Receives.text_eq {path text : String} (h : tree.Receives path text after) :
    after.text path = .ok text := by
  obtain ⟨place, hplace, htext, -⟩ := h
  exact text_of_locate hplace htext

/-! ## Folders -/

/-- The folders around the root are always there. -/
theorem isAround_eq_false (h : tree.isFolderAt place = false) : place.isAround = false := by
  rw [← Bool.not_eq_true]
  intro haround
  rw [isFolderAt, get?, if_pos haround] at h
  cases h

theorem sameFiles_insert_folder (h : tree.get? place = none) :
    SameFiles tree (tree.insert place .folder) := by
  have haround : place.isAround = false := by
    have hfolder : tree.isFolderAt place = false := by rw [isFolderAt, h]; rfl
    exact isAround_eq_false hfolder
  intro other bytes
  by_cases hother : other = place
  · subst hother
    rw [h, get?_insert_self tree .folder haround]
    simp
  · rw [get?_insert_of_ne tree .folder hother]

theorem sameFiles_makeFolder (tree : Tree) (path : String) :
    SameFiles tree (tree.makeFolder path).2 := by
  unfold makeFolder
  cases tree.locateParent path with
  | error fault => exact .refl tree
  | ok found =>
    obtain ⟨place, name⟩ := found
    dsimp only
    repeat' split
    · exact .refl tree
    · exact .refl tree
    · exact .refl tree
    next hnone => exact sameFiles_insert_folder (by simpa using hnone)

/-- An action that changes no file. -/
def KeepsFiles {α : Type} (action : StateM Tree α) : Prop :=
  ∀ tree, SameFiles tree (action.run tree).2

theorem keepsFiles_pure {α : Type} (value : α) : KeepsFiles (pure value) :=
  fun tree => .refl tree

theorem KeepsFiles.bind {α β : Type} {action : StateM Tree α} {next : α → StateM Tree β}
    (h : KeepsFiles action) (hnext : ∀ value, KeepsFiles (next value)) :
    KeepsFiles (action >>= next) :=
  fun tree => (h tree).trans (hnext _ _)

theorem keepsFiles_makeFolder (path : String) : KeepsFiles (writing.makeFolder path) :=
  fun tree => sameFiles_makeFolder tree path

/-- Asking for a folder changes nothing, whatever is made of the answer. -/
theorem keepsFiles_isFolder {α : Type} (path : String) (answer : Bool → α) :
    KeepsFiles (do pure (answer (← writing.isFolder path))) :=
  fun tree => .refl tree

theorem keepsFiles_ensureFolder (path : String) : KeepsFiles (writing.ensureFolder path) := by
  refine (keepsFiles_makeFolder path).bind ?_
  intro result
  cases result with
  | ok => exact keepsFiles_pure _
  | error fault => exact keepsFiles_isFolder path _

theorem keepsFiles_makeFoldersWithin (depth : Nat) (path : String) :
    KeepsFiles (writing.makeFoldersWithin depth path) := by
  induction depth generalizing path with
  | zero => exact keepsFiles_ensureFolder path
  | succ depth ih =>
    rw [Writing.makeFoldersWithin]
    split
    · exact keepsFiles_pure _
    · refine (keepsFiles_makeFolder path).bind ?_
      intro result
      split
      · exact keepsFiles_pure _
      · split
        · exact keepsFiles_pure _
        next parent _ =>
          refine (ih parent).bind ?_
          intro result
          cases result with
          | ok => exact keepsFiles_ensureFolder path
          | error fault => exact keepsFiles_pure _
      · exact keepsFiles_isFolder path _

/-- Making folders changes no file. -/
theorem keepsFiles_makeFolders (path : String) : KeepsFiles (writing.makeFolders path) :=
  keepsFiles_makeFoldersWithin _ path

/-! ## Texts -/

theorem follow_eq_ok_iff {place next : Place} {segment : String} :
    tree.follow place segment = .ok next ↔
      isTooLong segment = false ∧ (tree.get? next).isSome ∧ next = place.down segment := by
  unfold follow
  constructor
  · intro h
    split at h
    · cases h
    next hshort =>
      split at h
      next hsome =>
        cases h
        exact ⟨by simpa using hshort, hsome, rfl⟩
      · cases h
  · rintro ⟨hshort, hsome, rfl⟩
    rw [hshort, if_neg (by simp), if_pos hsome]

theorem walk_cons_eq_ok_iff {place next : Place} {segment : String} {rest : List String} :
    tree.walk place (segment :: rest) = .ok next ↔
      tree.isFolderAt place = true ∧
        ∃ inner, tree.follow place segment = .ok inner ∧ tree.walk inner rest = .ok next := by
  rw [walk]
  cases tree.isFolderAt place with
  | false => simp
  | true =>
    rw [if_pos rfl]
    cases tree.follow place segment <;> simp

/-- A walk to a folder, and on from there. -/
theorem walk_append {place middle next : Place} {segments more : List String}
    (h : tree.walk place segments = .ok middle) (hmore : tree.walk middle more = .ok next) :
    tree.walk place (segments ++ more) = .ok next := by
  induction segments generalizing place with
  | nil =>
    cases h
    exact hmore
  | cons segment rest ih =>
    obtain ⟨hfolder, inner, hfollow, hrest⟩ := walk_cons_eq_ok_iff.1 h
    rw [List.cons_append, walk_cons_eq_ok_iff]
    exact ⟨hfolder, inner, hfollow, ih hrest⟩

/-- A walk to a folder starts at one. -/
theorem isFolderAt_of_walk {place next : Place} {segments : List String}
    (h : tree.walk place segments = .ok next) (hnext : tree.isFolderAt next = true) :
    tree.isFolderAt place = true := by
  cases segments with
  | nil =>
    cases h
    exact hnext
  | cons segment rest => exact (walk_cons_eq_ok_iff.1 h).1

/-- Folders stay where they are when an entry is put where no folder was. -/
theorem get?_insert_of_isFolderAt {folder target : Place} (entry : Entry)
    (hfolder : tree.isFolderAt folder = true) (htarget : tree.isFolderAt target = false) :
    (tree.insert target entry).get? folder = tree.get? folder := by
  refine get?_insert_of_ne tree entry ?_
  rintro rfl
  rw [hfolder] at htarget
  cases htarget

/-- A walk to a folder only meets folders, so it goes the same way after an entry
has been put where no folder was. -/
theorem walk_insert {place next target : Place} {segments : List String} (entry : Entry)
    (h : tree.walk place segments = .ok next) (hnext : tree.isFolderAt next = true)
    (htarget : tree.isFolderAt target = false) :
    (tree.insert target entry).walk place segments = .ok next := by
  induction segments generalizing place with
  | nil => exact h
  | cons segment rest ih =>
    obtain ⟨hplace, inner, hfollow, hrest⟩ := walk_cons_eq_ok_iff.1 h
    have hinner : tree.isFolderAt inner = true := isFolderAt_of_walk hrest hnext
    obtain ⟨hshort, hsome, hdown⟩ := follow_eq_ok_iff.1 hfollow
    rw [walk_cons_eq_ok_iff, isFolderAt, get?_insert_of_isFolderAt entry hplace htarget,
      ← isFolderAt]
    refine ⟨hplace, inner, ?_, ih hrest⟩
    rw [follow_eq_ok_iff, get?_insert_of_isFolderAt entry hinner htarget]
    exact ⟨hshort, hsome, hdown⟩

theorem down_of_not_isDots {place : Place} {name : String} (h : isDots name = false) :
    place.down name = name :: place := by
  rw [isDots, Bool.or_eq_false_iff] at h
  have hdots : name ≠ ".." := by simpa using h.2
  rw [Place.down, h.1, if_neg (by simp), if_neg hdots]

/-- The last segment of a path is a name unless the path ends in `/`, so that no
segment is dropped at the end. -/
theorem segments_without_empty_end {path : String} (hpath : path ≠ "")
    (hslash : path.toList.getLast? ≠ some '/') :
    ((Path.segments path).reverse.dropWhile String.isEmpty).reverse = Path.segments path := by
  have hlast : (Path.segments path).getLast? ≠ some "" := Text.getLast?_split_ne hpath hslash
  cases hend : (Path.segments path).getLast? with
  | none =>
    rw [List.getLast?_eq_none_iff] at hend
    rw [hend]
    rfl
  | some last =>
    have hname : last.isEmpty = false := by
      rw [← Bool.not_eq_true, String.isEmpty_iff]
      rintro rfl
      exact hlast hend
    obtain ⟨front, hfront⟩ := List.getLast?_eq_some_iff.1 hend
    rw [hfront, List.reverse_append, List.reverse_singleton, List.singleton_append,
      List.dropWhile_cons, hname, if_neg (by simp), List.reverse_cons, List.reverse_reverse]

/-- The folder and the name that a path which does not end in `/` leads to. -/
theorem walk_of_locateParent {path : String} {place : Place} {name : String}
    (h : tree.locateParent path = .ok (place, name)) (hslash : path.toList.getLast? ≠ some '/') :
    checkPath path = .ok () ∧ Path.segments path = (Path.segments path).dropLast ++ [name] ∧
      tree.walk (Place.start path) (Path.segments path).dropLast = .ok place ∧
      tree.isFolderAt place = true := by
  unfold locateParent at h
  cases hcheck : checkPath path with
  | error fault => simp [hcheck] at h
  | ok =>
    have hpath : path ≠ "" := by
      rintro rfl
      simp [checkPath] at hcheck
    have hsegments : Path.segments path ≠ [] := by
      simp [Path.segments, Text.split, Text.splitChars_ne_nil]
    simp only [hcheck, segments_without_empty_end hpath hslash] at h
    split at h
    · cases h
    next folder hwalk =>
      split at h
      next hfolder =>
        cases h
        refine ⟨rfl, ?_, hwalk, hfolder⟩
        rw [List.getLast?_eq_some_getLast hsegments, Option.getD_some,
          List.dropLast_concat_getLast]
      · cases h

/-- Writing a text either fails and leaves the tree as it is, or puts the text
where its path leads to. -/
theorem writeText_cases (tree : Tree) (path text : String) :
    (∃ fault, tree.writeText path text = (.error fault, tree)) ∨
      ∃ after, tree.writeText path text = (.ok (), after) ∧ tree.Receives path text after := by
  unfold writeText
  cases hparent : tree.locateParent path with
  | error fault => exact Or.inl ⟨fault, rfl⟩
  | ok found =>
    obtain ⟨place, name⟩ := found
    dsimp only
    split
    · exact Or.inl ⟨_, rfl⟩
    next hname =>
      split
      · exact Or.inl ⟨_, rfl⟩
      next hshort =>
        split
        · exact Or.inl ⟨_, rfl⟩
        next htarget =>
          rw [Bool.or_eq_true, not_or, Bool.not_eq_true] at hname
          rw [Bool.not_eq_true] at hshort htarget
          have hslash : path.toList.getLast? ≠ some '/' := by simpa using hname.2
          obtain ⟨hcheck, hsegments, hwalk, hfolder⟩ := walk_of_locateParent hparent hslash
          have hget := get?_insert_self tree (.file text.toUTF8) (isAround_eq_false htarget)
          have hlast : (tree.insert (name :: place) (.file text.toUTF8)).walk place [name] =
              .ok (name :: place) := by
            rw [walk_cons_eq_ok_iff, isFolderAt,
              get?_insert_of_isFolderAt _ hfolder htarget, ← isFolderAt]
            refine ⟨hfolder, name :: place, ?_, rfl⟩
            rw [follow_eq_ok_iff, hget]
            exact ⟨hshort, rfl, (down_of_not_isDots hname.1).symm⟩
          refine Or.inr ⟨_, rfl, name :: place, ?_, hget, ?_⟩
          · rw [locate, hcheck, hsegments]
            exact walk_append (walk_insert _ hwalk hfolder htarget) hlast
          · intro other bytes hother
            rw [get?_insert_of_ne tree _ hother]

/-- Whether a text can be written does not depend on the text. -/
theorem writeText_fst (tree : Tree) (path text other : String) :
    (tree.writeText path text).1 = (tree.writeText path other).1 := by
  unfold writeText
  cases tree.locateParent path with
  | error fault => rfl
  | ok found => simp only [apply_ite Prod.fst]

end Tree

end Files

end ComponentProps
