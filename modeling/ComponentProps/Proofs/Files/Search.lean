import ComponentProps.Files.Glob.Search
import ComponentProps.Files.Tree
import Mathlib

/-!
# Searches that end early

A search for the files of a pattern ends early only at a folder whose names cannot be
read.  The folders of a tree in memory can all be read, so a search there always comes
to its end.

There are three groups.

* Trees.  `Tree.exists_names`: the names in a folder of a tree.
* Steps.  `EndsAtFolders` is kept by every way to put searches together, and
  `endsAtFolders_explore` is the induction over the depth of a search.
* Patterns.  `Pattern.folder_of_paths`: what a search that ends early says about the
  folder.  `Pattern.exists_paths`: a tree can be searched for every pattern.
-/

namespace ComponentProps

/-! ## Trees -/

/-- The names in a folder of a tree can be read. -/
theorem Files.Tree.exists_names {tree : Files.Tree} {path : String}
    (h : tree.isFolder path = true) : ∃ names, tree.names path = .ok names := by
  unfold Files.Tree.isFolder at h
  unfold Files.Tree.names
  split at h
  next place hplace =>
    rw [hplace]
    exact ⟨tree.namesAt place, if_pos h⟩
  next => cases h

namespace Glob

variable {files : Files.Reading Id} {α β : Type}

/-! ## Steps -/

/-- Whether a search ends early only at a folder whose names cannot be read, with what is
wrong there. -/
def EndsAtFolders (files : Files.Reading Id) (search : ExceptT Unsearchable Id α) : Prop :=
  ∀ folder, search.run.run = .error folder →
    (files.isFolder folder.path).run = true ∧
      (files.names folder.path).run = .error folder.fault

theorem endsAtFolders_pure (value : α) : EndsAtFolders files (pure value) := by
  intro folder h
  cases h

theorem EndsAtFolders.bind {search : ExceptT Unsearchable Id α}
    {next : α → ExceptT Unsearchable Id β} (h : EndsAtFolders files search)
    (hnext : ∀ value, EndsAtFolders files (next value)) :
    EndsAtFolders files (search >>= next) := by
  intro folder hrun
  rw [ExceptT.run_bind, Id.run_bind] at hrun
  cases hsearch : search.run.run with
  | error other =>
    rw [hsearch] at hrun
    cases hrun
    exact h folder hsearch
  | ok value =>
    rw [hsearch] at hrun
    exact hnext value folder hrun

/-- A question about the files ends no search, and the search goes on with the answer. -/
theorem endsAtFolders_ask {answer : Id α} {next : α → ExceptT Unsearchable Id β}
    (h : EndsAtFolders files (next answer.run)) :
    EndsAtFolders files ((liftM answer : ExceptT Unsearchable Id α) >>= next) := h

theorem endsAtFolders_flatMapM {items : List α} {search : α → ExceptT Unsearchable Id (List β)}
    (h : ∀ item, EndsAtFolders files (search item)) :
    EndsAtFolders files (items.flatMapM search) := by
  induction items with
  | nil =>
    rw [List.flatMapM_nil]
    exact endsAtFolders_pure []
  | cons item rest ih =>
    rw [List.flatMapM_cons]
    exact (h item).bind fun _ => ih.bind fun _ => endsAtFolders_pure _

/-- Only a folder is read for its names. -/
theorem endsAtFolders_namesIn {path : String} (h : (files.isFolder path).run = true) :
    EndsAtFolders files (namesIn files path) := by
  unfold namesIn
  refine endsAtFolders_ask ?_
  cases hnames : (files.names path).run with
  | ok names => exact endsAtFolders_pure _
  | error fault =>
    intro folder hthrown
    cases hthrown
    exact ⟨h, hnames⟩

theorem endsAtFolders_found (foldersOnly : Bool) (path : String) :
    EndsAtFolders files (found files foldersOnly path) := by
  unfold found
  split
  · exact endsAtFolders_ask (endsAtFolders_pure _)
  · exact endsAtFolders_pure _

section Segments

variable {foldersOnly : Bool}
  {explore : List (List Token) → String → ExceptT Unsearchable Id (List String)}
  (hexplore : ∀ segments path, EndsAtFolders files (explore segments path))

include hexplore

theorem endsAtFolders_proceed (segments : List (List Token)) (path : String) :
    EndsAtFolders files (proceed files foldersOnly explore segments path) := by
  unfold proceed
  split
  · exact endsAtFolders_found foldersOnly path
  · exact hexplore segments path

theorem endsAtFolders_enter (segments : List (List Token)) (path name : String) :
    EndsAtFolders files (enter files foldersOnly explore segments path name) := by
  unfold enter
  split
  · exact endsAtFolders_pure []
  next segment rest =>
    split
    · exact endsAtFolders_proceed hexplore rest path
    · exact endsAtFolders_pure []

theorem endsAtFolders_visit (segments : List (List Token)) (path name : String) :
    EndsAtFolders files (visit files foldersOnly explore segments path name) := by
  have henter (segments : List (List Token)) :
      EndsAtFolders files (enter files foldersOnly explore segments path name) :=
    endsAtFolders_enter hexplore segments path name
  unfold visit
  split
  · refine endsAtFolders_ask ?_
    split
    · have hbelow (here : List String) : EndsAtFolders files (do
          let below ← explore (collapse segments) path
          pure (here ++ below)) :=
        (hexplore _ _).bind fun _ => endsAtFolders_pure _
      dsimp only
      split
      · exact (endsAtFolders_pure _).bind hbelow
      · exact (henter _).bind hbelow
    · exact henter _
  · exact henter _

end Segments

/-- A search that goes down by any number of steps ends early only at such a folder. -/
theorem endsAtFolders_explore (foldersOnly : Bool) (depth : Nat) (segments : List (List Token))
    (path : String) : EndsAtFolders files (explore files foldersOnly depth segments path) := by
  induction depth generalizing segments path with
  | zero => exact endsAtFolders_pure _
  | succ depth ih =>
    cases segments with
    | nil => exact endsAtFolders_pure _
    | cons segment rest =>
      have hnext (path : String) : EndsAtFolders files
          (proceed files foldersOnly (explore files foldersOnly depth) rest path) :=
        endsAtFolders_proceed ih rest path
      rw [explore]
      dsimp only
      split
      -- a segment without wildcards is looked up
      next name _ =>
        have hbelow (isThere : Bool) : EndsAtFolders files
            (if isThere then proceed files foldersOnly (explore files foldersOnly depth) rest
              (step path name) else pure []) := by
          split
          · exact hnext _
          · exact endsAtFolders_pure []
        split
        · exact endsAtFolders_ask (hbelow _)
        · exact endsAtFolders_ask (hbelow _)
      -- any other segment is compared with the names in a folder, if there is one
      next =>
        refine endsAtFolders_ask ?_
        split
        next hfolder =>
          refine (endsAtFolders_namesIn hfolder).bind fun names => ?_
          refine (endsAtFolders_flatMapM fun name => hnext _).bind fun dots => ?_
          refine (endsAtFolders_flatMapM fun name => endsAtFolders_visit ih _ _ _).bind
            fun entries => ?_
          exact endsAtFolders_pure _
        next => exact endsAtFolders_pure []

/-! ## Patterns -/

/-- A search that ends early names a folder whose names cannot be read, and why. -/
theorem Pattern.folder_of_paths {pattern : Pattern} {folder : Unsearchable}
    (h : (pattern.paths files).run = .error folder) :
    (files.isFolder folder.path).run = true ∧
      (files.names folder.path).run = .error folder.fault :=
  endsAtFolders_explore _ _ _ _ folder h

/-- The search for the files of a pattern comes to its end in every tree. -/
theorem Pattern.exists_paths (pattern : Pattern) (tree : Files.Tree) :
    ∃ paths, (pattern.paths tree.reading).run = .ok paths := by
  cases hpaths : (pattern.paths tree.reading).run with
  | ok paths => exact ⟨paths, rfl⟩
  | error folder =>
    obtain ⟨hfolder, hnames⟩ := Pattern.folder_of_paths hpaths
    obtain ⟨names, hread⟩ := Files.Tree.exists_names hfolder
    cases hread.symm.trans hnames

end Glob

end ComponentProps
