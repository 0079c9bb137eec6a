import SourceAtlas.Proofs.Upkeep

/-!
# What one update makes of an index

An update takes out the files that are reported as deleted, one after the other, and then enters
those that are reported as modified or added, as far as it takes them. The lists may share paths and
name a path twice. In the end the table of files depends on the changes and the tree alone
(`update_exact`):

* a file that is reported as modified or added, that the settings name and that is there, has the
  outline of its present text, even if it is reported as deleted as well;
* any other file that is reported as deleted is not in the table;
* all other files are as they were.

The totals are kept step by step: whatever is taken out or entered, they count the files of the
table before and after (`Tallied.remove`, `Tallied.reindex`), hence along both lists.
-/

set_option autoImplicit false

namespace SourceAtlas

namespace Index

/-! ## Totals along an update -/

namespace Tallied

variable {index next : Index} {extra : Count → Int} {tree : FileTree} {path : String}

section

variable (h : index.Tallied extra)
include h

theorem remove (path : String) : (index.remove path).Tallied extra :=
  h.releaseFile_dropFile _

theorem reindex {skipGraphs : Bool} (hstep : index.reindex tree path skipGraphs = (next, none)) :
    next.Tallied extra := by
  rcases reindex_cases hstep with ⟨-, rfl⟩ | ⟨o, -, rfl⟩
  · exact h.releaseFile_dropFile _
  · have hentered := h.releaseFile_enter (Project.key index.root path) o
    split
    · exact hentered
    · exact ⟨hentered.nodup_files, hentered.fileTotal, hentered.count⟩

theorem rebuild : index.rebuild.Tallied extra :=
  ⟨h.nodup_files, h.fileTotal, h.count⟩

theorem removeAll (paths : List String) :
    (index.removeAll paths).Tallied extra := by
  unfold Index.removeAll
  induction paths generalizing index with
  | nil => exact h
  | cons path paths ih =>
    rw [List.foldl_cons]
    apply ih
    split
    · exact h.remove path
    · exact h

theorem reindexAll {paths : List String} (hdone : index.reindexAll tree paths = (next, none)) :
    next.Tallied extra := by
  induction paths generalizing index with
  | nil =>
    cases hdone
    exact h
  | cons path paths ih =>
    rw [Index.reindexAll] at hdone
    rcases hstep : index.reindex tree path true with ⟨mid, fault | fault⟩
    · rw [hstep] at hdone
      exact ih (h.reindex hstep) hdone
    -- The first file that cannot be entered ends the update.
    · rw [hstep] at hdone
      cases hdone

theorem follow {settings : Settings} {changes : Changes}
    (hdone : index.follow settings tree changes = (next, none)) : next.Tallied extra :=
  (h.removeAll changes.deleted).reindexAll hdone

end

end Tallied

end Index

/-! ## The files after an update -/

namespace Service

open Work

/-- **What an update makes of the files.** Let the totals of an index count its files, and let every
file that is to be entered have an outline. Whatever relative paths without detours are reported,
the changes are followed to the end: an entered file has the outline of its present text; any other
file reported as deleted is gone; all else is as before. Again the totals count the files, and the
graph of imports is that of the files. A service that does not make its index anew ends up with this
index. -/
theorem update_exact {index : Index} {settings : Settings} {tree : FileTree} {changes : Changes}
    (hroot : Path.IsRoot index.root) (htree : tree.Proper)
    (htallied : index.Tallied fun _ => 0) (hkeyed : changes.Keyed index.root)
    (hread : tree.ReadableFor settings changes) :
    ∃ followed, index.follow settings tree changes = (followed, none) ∧
      let next := followed.rebuild
      (∀ path, changes.Enters settings tree path → ∃ bytes o, tree.files.get? path = some bytes ∧
        Outline.ofBytes bytes path = .ok o ∧ next.files.get? path = some o) ∧
      (∀ path, ¬ changes.Enters settings tree path → path ∈ changes.deleted →
        next.files.get? path = none) ∧
      (∀ path, ¬ changes.Enters settings tree path → path ∉ changes.deleted →
        next.files.get? path = index.files.get? path) ∧
      next.Tallied (fun _ => 0) ∧
      next.imports = Graph.ofImports next.files ∧
      ∀ (s : Service) (world : World) (commit : Option String), s.isGit = true →
        s.stage = .ready ⟨index, commit⟩ → settings = .usual → world.tree = tree →
        Id.run (Git.changesSince? world.git commit) = changes → changes.isEmpty = false →
        areMany changes index = false →
          ∃ t, exec update world s = (.ok (), t) ∧ t.isGit = true ∧
            t.stage = .ready ⟨next, Id.run (Git.head world.git)⟩ := by
  obtain ⟨followed, hfollow, -, hfiles⟩ := Index.files_follow hroot htree hkeyed hread
  -- What an update leaves of a path has three cases, and each part is one of them.
  refine ⟨followed, hfollow, ?_, ?_, ?_, (htallied.follow hfollow).rebuild, rfl, ?_⟩
  · intro path henters
    obtain ⟨hreported, hincluded, hexcluded, hthere⟩ := id henters
    obtain ⟨bytes, hbytes⟩ := Assoc.mem_keys_iff.1 hthere
    obtain ⟨o, ho⟩ := hread path hreported hincluded hexcluded bytes hbytes
    refine ⟨bytes, o, hbytes, ho, ?_⟩
    have hget := hfiles path
    rw [if_pos henters, hbytes] at hget
    show followed.files.get? path = some o
    simpa [Outline.ofFile?, ho, Except.toOption] using hget
  · intro path hpasses hdeleted
    have hget := hfiles path
    rwa [if_neg hpasses, if_pos hdeleted] at hget
  · intro path hpasses hkept
    have hget := hfiles path
    rwa [if_neg hpasses, if_neg hkept] at hget
  · rintro s world commit hgit hstage rfl rfl rfl hloud hfew
    exact exec_update_followed hgit hstage rfl hloud hfew hfollow

/-! ## A file that is modified and deleted -/

/-- The index of two files. -/
def indexOfTwo : Index :=
  .ofOutlines "/project"
    ((Index.outlines (.ofTexts [("pkg/a.py", "x = 1\n"), ("pkg/b.py", "y = 1\n")])
      [⟨"pkg/a.py", "pkg/a.py"⟩, ⟨"pkg/b.py", "pkg/b.py"⟩]).toOption.getD [])

/-- The first of them was changed, and a third is new. -/
def editedTree : FileTree :=
  .ofTexts [("pkg/a.py", "def f():\n    pass\n"), ("pkg/b.py", "y = 1\n"), ("pkg/c.py", "z = 1\n")]

/-- Git knows of the change, and of a deletion that is staged although the file is there. -/
def editedGit (command : List String) : Outcome :=
  if command = ["git", "diff", "--name-status", "c0", "HEAD"] then .exited 0 "M\tpkg/a.py\n"
  else if command = ["git", "diff", "--name-status", "--cached"] then .exited 0 "D\tpkg/a.py\n"
  else if command = ["git", "ls-files", "--others", "--exclude-standard"] then
    .exited 0 "pkg/c.py\n"
  else if command = ["git", "rev-parse", "HEAD"] then .exited 0 "c1\n"
  else .exited 0 ""

/-- What git reports. -/
def editedChanges : Changes := ⟨["pkg/a.py"], ["pkg/c.py"], ["pkg/a.py"]⟩

/-- The deletion is passed over: the file has its present outline, and the untouched one its old
one. -/
theorem update_exact_edited :
    ∃ next t, exec update ⟨"/project", editedTree, editedGit, .whole 0⟩
        { start (.whole 0) none with isGit := true, stage := .ready ⟨indexOfTwo, some "c0"⟩ } =
          (.ok (), t) ∧
      t.stage = .ready ⟨next, some "c1"⟩ ∧
      (∃ bytes o, editedTree.files.get? "pkg/a.py" = some bytes ∧
        Outline.ofBytes bytes "pkg/a.py" = .ok o ∧ next.files.get? "pkg/a.py" = some o) ∧
      next.files.get? "pkg/b.py" = indexOfTwo.files.get? "pkg/b.py" ∧
      next.Tallied fun _ => 0 := by
  have htallied : indexOfTwo.Tallied fun _ => 0 := by
    refine ⟨by decide +kernel, by decide +kernel, ?_⟩
    intro c
    cases c <;> decide +kernel
  have hproper : editedChanges.Proper := by
    intro path hpath
    simp only [editedChanges, List.mem_singleton] at hpath
    rcases hpath with rfl | rfl | rfl <;> decide
  have hread : editedTree.ReadableFor .usual editedChanges := by
    intro path _ _ _
    exact FileTree.readable_of_forall (by decide +kernel) path
  obtain ⟨followed, -, henters, -, hkept, hnext, -, hservice⟩ :=
    update_exact Path.isRoot_project (by decide +kernel) htallied
      (hproper.keyed Path.isRoot_project) hread
  obtain ⟨t, hexec, -, hstage⟩ := hservice
    { start (.whole 0) none with isGit := true, stage := .ready ⟨indexOfTwo, some "c0"⟩ }
    ⟨"/project", editedTree, editedGit, .whole 0⟩ (some "c0") rfl rfl rfl rfl
    (by decide +kernel) rfl (by decide +kernel)
  refine ⟨followed.rebuild, t, hexec, ?_, ?_, ?_, hnext⟩
  · rw [hstage]
    have hhead : Id.run (Git.head editedGit) = some "c1" := by decide +kernel
    rw [hhead]
  · apply henters
    decide +kernel
  · apply hkept
    · decide +kernel
    · decide +kernel

end Service

end SourceAtlas
