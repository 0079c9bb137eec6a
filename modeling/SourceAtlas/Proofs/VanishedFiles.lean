import SourceAtlas.Proofs.FaultyRuns
import SourceAtlas.Proofs.Upkeep

/-!
# Files that are gone

After an update an index should not hold a file that git has named and that is not there any more.
What becomes of a file that is not there is settled before anything is entered: an update enters
only what it finds (`get?_files_reindexAll`), so that such a file leaves the index exactly if it is
on the list of deleted files. It is on that list if it is reported as deleted and not as added as
well. A file that was added in a commit and then deleted counts as modified, is passed over because
it is not there, and stays. `survives_update_iff` says which files that are gone stay in the index.
-/

set_option autoImplicit false

namespace SourceAtlas

/-! ## Entering files that are there -/

namespace Index

variable {index : Index} {tree : FileTree}

/-- Entering a file again concerns no other file. -/
theorem get?_files_reindex (index : Index) (tree : FileTree) (path : String) (skipGraphs : Bool) :
    (index.reindex tree path skipGraphs).1.root = index.root ∧
      ∀ key, key ≠ Project.key index.root path →
        (index.reindex tree path skipGraphs).1.files.get? key = index.files.get? key := by
  rcases reindex_outcome index tree path with ⟨fault, -, hleft⟩ | ⟨-, hleft⟩ | ⟨o, -, hleft⟩
  · rw [hleft]
    exact ⟨by simp, fun key _ => by simp⟩
  · rw [hleft, remove]
    refine ⟨by simp, ?_⟩
    intro key hne
    rw [files_dropFile, files_releaseFile, Assoc.get?_erase, if_neg hne]
  · rw [hleft]
    have hentered : ∀ key, key ≠ Project.key index.root path →
        ((index.releaseFile (Project.key index.root path)).enter (Project.key index.root path)
          o).files.get? key = index.files.get? key := by
      intro key hne
      rw [enter, files_releaseFile, Assoc.get?_put, if_neg hne]
    cases skipGraphs with
    | true => exact ⟨by simp, hentered⟩
    | false => exact ⟨by simp [refresh], hentered⟩

theorem key_of_admits {root path : String} {settings : Settings} (hroot : Path.IsRoot root)
    (htree : tree.Proper) (h : admits root settings tree path = true) :
    Project.key root path ∈ tree.files.keys := by
  rw [admits, Bool.and_eq_true] at h
  obtain ⟨file, hfile⟩ := Option.isSome_iff_exists.1 h.2
  obtain ⟨hmem, hkey⟩ := FileTree.key_of_locate? htree hroot hfile
  rwa [hkey]

/-- Entering files that are there, up to one that cannot be entered, leaves all others as they
are. -/
theorem get?_files_reindexAll (hroot : Path.IsRoot index.root) (htree : tree.Proper)
    {settings : Settings} {paths : List String}
    (hpaths : ∀ path ∈ paths, admits index.root settings tree path = true) {key : String}
    (hgone : key ∉ tree.files.keys) :
    (index.reindexAll tree paths).1.files.get? key = index.files.get? key := by
  induction paths generalizing index with
  | nil => rfl
  | cons path paths ih =>
    have hne : key ≠ Project.key index.root path := by
      rintro rfl
      exact hgone (key_of_admits hroot htree (hpaths path List.mem_cons_self))
    obtain ⟨hsame, hfiles⟩ := get?_files_reindex index tree path true
    rw [reindexAll]
    rcases hstep : index.reindex tree path true with ⟨next, fault | fault⟩
    · rw [hstep] at hsame hfiles
      have hrest : ∀ p ∈ paths, admits next.root settings tree p = true := by
        intro p hp
        rw [hsame]
        exact hpaths p (List.mem_cons_of_mem _ hp)
      rw [← hfiles key hne]
      exact ih (hsame ▸ hroot) hrest
    -- The update ends here, with the file released.
    · rw [hstep] at hfiles
      exact hfiles key hne

/-- A file that is not there leaves an index that follows changes if and only if it is on the list
of deleted files. -/
theorem get?_files_follow_of_gone (hroot : Path.IsRoot index.root) (htree : tree.Proper)
    (hkeys : ∀ path ∈ index.files.keys, Project.key index.root path = path) (settings : Settings)
    (changes : Changes) (key : String) (hgone : key ∉ tree.files.keys) :
    (index.follow settings tree changes).1.files.get? key =
      if key ∈ changes.deleted then none else index.files.get? key := by
  obtain ⟨hsame, hremoved⟩ := files_removeAll fun path (_ : path ∈ changes.deleted) => hkeys path
  rw [← hremoved key]
  apply get?_files_reindexAll
  · rwa [hsame]
  · exact htree
  · intro path hpath
    rw [hsame]
    exact (List.mem_filter.1 hpath).2
  · exact hgone

end Index

/-! ## What the commands report -/

namespace Git

/-- All changes that the commands report since a commit, if one is known. -/
def reportedSince? (git : List String → Outcome) : Option String → List Change
  | none => []
  | some commit => Id.run (reportedSince git commit)

theorem changesSince?_eq (git : List String → Outcome) (commit : Option String) :
    Id.run (changesSince? git commit) = collectChanges (reportedSince? git commit) := by
  cases commit with
  | some commit => rfl
  | none =>
    show Changes.none = collectChanges []
    simp [collectChanges, Changes.none, Names.ofList, Names.insertAll, Names.sorted]

end Git

namespace Service

open Work

section Gone

variable {s : Service} {world : World} {snapshot : Snapshot}

/-- A file that is not there leaves the index with an update, other than one that makes the index
anew, if and only if it is on the list of deleted files. -/
theorem get?_files_update_of_gone (hgit : s.isGit = true) (hstage : s.stage = .ready snapshot)
    (hroot : Path.IsRoot snapshot.index.root) (htree : world.tree.Proper)
    (hkeys : ∀ path ∈ snapshot.index.files.keys, Project.key snapshot.index.root path = path)
    (hfew : areMany (Id.run (Git.changesSince? world.git snapshot.commit)) snapshot.index =
      false) :
    ∃ next, (exec update world s).2.stage = .ready next ∧
      ∀ path, path ∉ world.tree.files.keys → next.index.files.get? path =
        if path ∈ (Id.run (Git.changesSince? world.git snapshot.commit)).deleted then none
        else snapshot.index.files.get? path := by
  rcases exec_update_outcome world hstage with ⟨hidle, hexec⟩ | ⟨-, -, ⟨hmany, -⟩ | ⟨-, hdone⟩⟩
  -- Nothing was reported, so nothing as deleted.
  · refine ⟨snapshot, by rw [hexec, hstage], ?_⟩
    intro path _
    have hquiet := hidle.resolve_left (by simp [hgit])
    rw [Changes.isEmpty, Bool.and_eq_true, List.isEmpty_iff] at hquiet
    simp [hquiet.2]
  · rw [hmany] at hfew
    cases hfew
  -- With or without a fault, the index has followed the changes.
  · have hfollowed := fun path => Index.get?_files_follow_of_gone hroot htree hkeys .usual
      (Id.run (Git.changesSince? world.git snapshot.commit)) path
    rcases hdone with ⟨e, t, -, hexec, -, hready⟩ | ⟨t, -, hexec, -, hready⟩
    · exact ⟨_, by rw [hexec, hready], hfollowed⟩
    · exact ⟨_, by rw [hexec, hready], hfollowed⟩

/-- **Which vanished files an update leaves in the index.** Let the files of an index be known by
relative paths without detours, and let an update not make the index anew. Whatever the commands
write, and whether or not a file could not be entered, a file that is not there is in the index
afterwards if and only if it was before, unless it was reported as deleted and not as added as well.
So no reported file that is gone stays in the index if and only if each of them that was in the
index was reported as deleted and none as added. -/
theorem survives_update_iff (hgit : s.isGit = true) (hstage : s.stage = .ready snapshot)
    (hroot : Path.IsRoot snapshot.index.root) (htree : world.tree.Proper)
    (hkeys : ∀ path ∈ snapshot.index.files.keys, Project.key snapshot.index.root path = path)
    (hfew : areMany (Id.run (Git.changesSince? world.git snapshot.commit)) snapshot.index =
      false) :
    let reported := Git.reportedSince? world.git snapshot.commit
    ∃ next, (exec update world s).2.stage = .ready next ∧
      (∀ path, path ∉ world.tree.files.keys →
        (path ∈ next.index.files.keys ↔ path ∈ snapshot.index.files.keys ∧
          ¬ (.deleted path ∈ reported ∧ .added path ∉ reported))) ∧
      ((∀ change ∈ reported, change.path ∉ world.tree.files.keys →
          change.path ∉ next.index.files.keys) ↔
        ∀ change ∈ reported, change.path ∉ world.tree.files.keys →
          change.path ∈ snapshot.index.files.keys →
            .deleted change.path ∈ reported ∧ .added change.path ∉ reported) := by
  intro reported
  obtain ⟨next, hnext, hfiles⟩ := get?_files_update_of_gone hgit hstage hroot htree hkeys hfew
  have hkept : ∀ path, path ∉ world.tree.files.keys →
      (path ∈ next.index.files.keys ↔ path ∈ snapshot.index.files.keys ∧
        ¬ (.deleted path ∈ reported ∧ .added path ∉ reported)) := by
    intro path hgone
    rw [Assoc.mem_keys_iff, Assoc.mem_keys_iff, hfiles path hgone, Git.changesSince?_eq,
      ← (Git.mem_collectChanges reported path).2.2]
    split
    · rename_i hdeleted
      simp [reported, hdeleted]
    · rename_i hdeleted
      simp [reported, hdeleted]
  -- What is said of all reported files follows file by file.
  refine ⟨next, hnext, hkept, ?_⟩
  constructor
  · intro hnone change hchange hgone hindexed
    by_contra hstays
    exact hnone change hchange hgone ((hkept _ hgone).2 ⟨hindexed, hstays⟩)
  · intro hall change hchange hgone hstays
    obtain ⟨hindexed, hnot⟩ := (hkept _ hgone).1 hstays
    exact hnot (hall change hchange hgone hindexed)

end Gone

/-! ## A file that was committed and deleted -/

/-- The index of one file. -/
def indexOfOne : Index :=
  .ofOutlines "/project"
    ((Index.outlines (.ofTexts [("pkg/a.py", "x = 1\n")]) [⟨"pkg/a.py", "pkg/a.py"⟩]).toOption.getD
      [])

/-- A service of a git project with that index. -/
def keeperOfOne : Service :=
  { start (.whole 0) none with isGit := true, stage := .ready ⟨indexOfOne, some "c0"⟩ }

/-- The file was deleted, after something was committed or not. -/
def goneWorld (committed : String) : World where
  root := "/project"
  tree := ⟨[], ["pkg"]⟩
  git := fun command =>
    if command = ["git", "diff", "--name-status", "c0", "HEAD"] then .exited 0 committed
    else if command = ["git", "diff", "--name-status"] then .exited 0 "D\tpkg/a.py\n"
    else if command = ["git", "rev-parse", "HEAD"] then .exited 0 "c1\n"
    else .exited 0 ""
  now := .whole 0

/-- A file that was added in a commit and then deleted stays in the index. -/
theorem added_and_deleted_survives :
    Change.deleted "pkg/a.py" ∈
        Git.reportedSince? (goneWorld "A\tpkg/a.py\n").git (some "c0") ∧
      "pkg/a.py" ∉ (goneWorld "A\tpkg/a.py\n").tree.files.keys ∧
      (exec update (goneWorld "A\tpkg/a.py\n") keeperOfOne).1.isOk = true ∧
      (exec update (goneWorld "A\tpkg/a.py\n") keeperOfOne).2.stage.current?.map
        (fun next => next.index.files.keys) = some ["pkg/a.py"] := by
  decide +kernel

/-- If nothing was committed, the deleted file leaves the index. -/
theorem deleted_does_not_survive :
    ∃ next, (exec update (goneWorld "") keeperOfOne).2.stage = .ready next ∧
      "pkg/a.py" ∈ indexOfOne.files.keys ∧ "pkg/a.py" ∉ next.index.files.keys := by
  obtain ⟨next, hnext, hkept, -⟩ := survives_update_iff (s := keeperOfOne) rfl rfl
    Path.isRoot_project (by decide +kernel : (goneWorld "").tree.Proper) (by decide +kernel)
    (by decide +kernel)
  refine ⟨next, hnext, by decide +kernel, ?_⟩
  rw [hkept "pkg/a.py" (by decide +kernel)]
  decide +kernel

end Service

end SourceAtlas
