import SourceAtlas.Proofs.Admission
import SourceAtlas.Proofs.FailedBuilds
import SourceAtlas.Proofs.Freshness

/-!
# Projects in a folder of a work tree

A project may lie at the top of a work tree or in any folder of it. The index knows files by their
paths from the project's root. Git names them in two ways: its comparisons give paths from the top
of the work tree, and the list of untracked files gives paths from the folder where git runs
(`Git.FaithfulIn`). An update reads them all as paths from the project's root.

At the top this is right. In a folder the report of a changed file leads nowhere, and a report about
a file at the top is taken for its namesake in the project. `fresh_after_update_iff` says for every
folder and every index which of the changed files are fresh after an update. Apart from an index
that is made anew, a file of a project in a folder is taken in only if a comparison happens to name
its path at the top.
-/

set_option autoImplicit false

namespace SourceAtlas

open FileTree Git SourceAtlas.Path

/-! ## Paths from a folder -/

namespace FileTree

/-- The path from a folder on, of something that lies in it. -/
def pathFrom? (folder path : String) : Option String :=
  if folder.isEmpty then some path
  else (Text.after? (folder.toList ++ ['/']) path.toList).map String.ofList

theorem child_empty (name : String) : child "" name = name := rfl

theorem toList_child_of_ne {folder : String} (h : folder ≠ "") (name : String) :
    (child folder name).toList = folder.toList ++ '/' :: name.toList := by
  simp [child, h]

theorem pathFrom?_eq_some_iff {folder path name : String} :
    pathFrom? folder path = some name ↔ path = child folder name := by
  by_cases hfolder : folder = ""
  · subst hfolder
    simp [pathFrom?, child_empty]
  · have hempty : folder.isEmpty = false := by simpa [Bool.eq_false_iff] using hfolder
    rw [pathFrom?, hempty, if_neg Bool.false_ne_true, Option.map_eq_some_iff, ← String.toList_inj,
      toList_child_of_ne hfolder]
    simp only [Text.after?_eq_some_iff]
    constructor
    · rintro ⟨rest, hrest, rfl⟩
      simpa using hrest
    · intro hpath
      exact ⟨name.toList, by simpa using hpath, String.ofList_toList⟩

theorem child_inj {folder name other : String} : child folder name = child folder other ↔
    name = other := by
  constructor
  · intro h
    have hname : pathFrom? folder (child folder name) = some name := pathFrom?_eq_some_iff.2 rfl
    exact Option.some.inj (hname.symm.trans (pathFrom?_eq_some_iff.2 h))
  · rintro rfl
    rfl

/-- The steps to something in a folder are those to the folder and those from there on. -/
theorem steps_child {folder : String} (h : folder ≠ "") (name : String) :
    steps (child folder name).toList =
      steps folder.toList ++ steps name.toList := by
  rw [toList_child_of_ne h]
  exact Text.splitOn_append_sep '/' folder.toList name.toList

variable {folder name : String}

theorem proper_of_child (h : Path.Proper (child folder name)) : Path.Proper name := by
  by_cases hfolder : folder = ""
  · rwa [hfolder, child_empty] at h
  · intro s hs
    exact h s (steps_child hfolder name ▸ List.mem_append_right _ hs)

/-- What lies in a folder, as a tree of its own. -/
def within (tree : FileTree) (folder : String) : FileTree where
  files := tree.files.filterMap fun e => (pathFrom? folder e.1).map fun name => (name, e.2)
  folders := tree.folders.filterMap (pathFrom? folder)

variable {tree : FileTree}

theorem get?_within (tree : FileTree) (folder name : String) :
    (tree.within folder).files.get? name = tree.files.get? (child folder name) := by
  show Assoc.get? (tree.files.filterMap _) name = _
  induction tree.files with
  | nil => rfl
  | cons e files ih =>
    obtain ⟨path, bytes⟩ := e
    rw [Assoc.get?_cons, List.filterMap_cons]
    cases hfrom : pathFrom? folder path with
    | none =>
      have hne : child folder name ≠ path := by
        intro heq
        rw [pathFrom?_eq_some_iff.2 heq.symm] at hfrom
        cases hfrom
      simpa [hfrom, hne] using ih
    | some found =>
      obtain rfl := pathFrom?_eq_some_iff.1 hfrom
      simp only [Option.map_some, Assoc.get?_cons, child_inj, ih]

theorem mem_keys_within :
    name ∈ (tree.within folder).files.keys ↔ child folder name ∈ tree.files.keys := by
  rw [Assoc.mem_keys_iff, Assoc.mem_keys_iff, get?_within]

theorem mem_folders_within :
    name ∈ (tree.within folder).folders ↔ child folder name ∈ tree.folders := by
  simp [within, List.mem_filterMap, pathFrom?_eq_some_iff]

/-- The folders on the way to a file lie in the folder as well. -/
theorem child_mem_folders (htree : tree.Proper) (hname : child folder name ∈ tree.files.keys)
    {parent : String} (hparent : parent ∈ ancestors name) : child folder parent ∈ tree.folders := by
  by_cases hfolder : folder = ""
  · rw [hfolder, child_empty] at hname ⊢
    exact htree.parents name hname parent hparent
  obtain ⟨n, hn, rfl⟩ := List.mem_map.1 hparent
  rw [List.mem_range] at hn
  -- The steps to the file are those to the folder, those to the parent, and more.
  have hsteps : steps (child folder name).toList =
      (steps folder.toList ++ (steps name.toList).take (n + 1)) ++
        (steps name.toList).drop (n + 1) := by
    rw [steps_child hfolder, List.append_assoc, List.take_append_drop]
  have htake : (steps name.toList).take (n + 1) ≠ [] := by
    rw [ne_eq, List.take_eq_nil_iff]
    exact fun h => h.elim (by omega) (steps_ne_nil _)
  have hdrop : (steps name.toList).drop (n + 1) ≠ [] := by
    rw [ne_eq, List.drop_eq_nil_iff]
    omega
  have hpath : child folder (String.ofList (ofSteps ((steps name.toList).take (n + 1)))) =
      String.ofList (ofSteps
        (steps folder.toList ++ (steps name.toList).take (n + 1))) := by
    rw [← String.toList_inj, toList_child_of_ne hfolder, String.toList_ofList, String.toList_ofList,
      ofSteps_append (steps_ne_nil _) htake, ofSteps_steps]
  rw [hpath]
  exact htree.mem_folders hname hsteps (by simp [steps_ne_nil]) hdrop

theorem Proper.within (htree : tree.Proper) (folder : String) : (tree.within folder).Proper where
  files _ hname := proper_of_child (htree.files _ (mem_keys_within.1 hname))
  folders _ hname := proper_of_child (htree.folders _ (mem_folders_within.1 hname))
  parents _ hname _ hparent :=
    mem_folders_within.2 (child_mem_folders htree (mem_keys_within.1 hname) hparent)

end FileTree

/-! ## Git in a folder -/

/-- All changes that there are to report in a folder: what comparisons report, with paths from the
top, and the files in the folder that are not tracked, with paths from there. -/
def Repository.reportedIn (r : Repository) (folder : String) (since : Git.Contents)
    (ignored : String → Bool) : List Change :=
  r.compared since ++ ((untracked r.staged r.work.files ignored).filterMap
    (pathFrom? folder)).map .added

theorem Repository.mem_reportedIn_iff {r : Repository} {folder : String} {since : Git.Contents}
    {ignored : String → Bool} {change : Change} :
    change ∈ r.reportedIn folder since ignored ↔ change ∈ r.compared since ∨
      change = .added change.path ∧
        child folder change.path ∈ untracked r.staged r.work.files ignored := by
  rw [reportedIn, List.mem_append, List.mem_map]
  simp only [List.mem_filterMap, pathFrom?_eq_some_iff]
  refine or_congr_right ⟨?_, ?_⟩
  · rintro ⟨name, ⟨path, hpath, rfl⟩, rfl⟩
    exact ⟨rfl, hpath⟩
  · rintro ⟨hchange, hpath⟩
    exact ⟨change.path, ⟨_, hpath, rfl⟩, hchange.symm⟩

namespace Git

/-- Git runs in a folder of the work tree, and every command that is asked for changes succeeds. The
comparisons report the differences between the states that they name, with paths from the top. The
list of untracked files holds those that lie in the folder, with paths from there. -/
structure FaithfulIn (r : Repository) (folder : String) (ignored : String → Bool)
    (git : List String → Outcome) : Prop extends Compares r git where
  untracked : Reports git ["git", "ls-files", "--others", "--exclude-standard"] untrackedChanges
    (((untracked r.staged r.work.files ignored).filterMap (pathFrom? folder)).map .added)

variable {r : Repository} {folder : String} {ignored : String → Bool}
  {git : List String → Outcome}

theorem FaithfulIn.changesSince (h : FaithfulIn r folder ignored git) {id : String}
    {since : Contents} (hid : r.commits.get? id = some since) :
    ∃ found, Id.run (changesSince git id) = collectChanges found ∧
      ∀ change, change ∈ found ↔ change ∈ r.reportedIn folder since ignored :=
  h.toCompares.changesSince hid h.untracked

theorem Reports.of_eq {other : List String → Outcome} {command : List String}
    {read : List Char → List Change} {changes : List Change}
    (h : Reports git command read changes) (heq : other command = git command) :
    Reports other command read changes := by
  rwa [Reports, heq]

end Git

namespace Repository

/-- What git answers about the repository when it runs in a folder. -/
def gitIn (r : Repository) (folder : String) (ignored : String → Bool) (command : List String) :
    Outcome :=
  if command = ["git", "ls-files", "--others", "--exclude-standard"] then
    .exited 0 (String.ofList (written (((untracked r.staged r.work.files ignored).filterMap
      (pathFrom? folder)).map String.toList)))
  else r.git ignored command

theorem plain_of_child {folder name : String} (h : IsPlain (child folder name))
    (hname : Path.Proper name) : IsPlain name := by
  refine ⟨fun hempty => hname.ne_nil (by rw [hempty]; rfl), fun c hc => h.2 c ?_⟩
  by_cases hfolder : folder = ""
  · rwa [hfolder, child_empty]
  · rw [toList_child_of_ne hfolder]
    exact List.mem_append_right _ (List.mem_cons_of_mem _ hc)

/-- With plain paths, git is faithful in every folder. -/
theorem faithfulIn_gitIn {r : Repository} (h : r.Plain) (hwork : r.work.Proper) (folder : String)
    (ignored : String → Bool) : FaithfulIn r folder ignored (r.gitIn folder ignored) where
  committed id files hid :=
    ((faithful_git h ignored).committed id files hid).of_eq (if_neg (by simp))
  unstaged := (faithful_git h ignored).unstaged.of_eq (if_neg (by decide))
  staged := (faithful_git h ignored).staged.of_eq (if_neg (by decide))
  untracked := by
    refine ⟨_, by rw [gitIn, if_pos rfl, Outcome.output?]; rfl, ?_⟩
    rw [String.toList_ofList, untrackedChanges_written]
    · exact fun _ => Iff.rfl
    · intro name hname
      obtain ⟨path, hpath, hfrom⟩ := List.mem_filterMap.1 hname
      obtain rfl := pathFrom?_eq_some_iff.1 hfrom
      have hmem : child folder name ∈ r.work.files.keys := by
        simpa using (List.mem_filter.1 hpath).1
      exact plain_of_child (h.work _ hmem) (proper_of_child (hwork.files _ hmem))

/-! ## What comparisons say about a path -/

/-- Some comparison reports the path as modified or added. -/
def Brings (r : Repository) (since : Contents) (path : String) : Prop :=
  .modified path ∈ r.compared since ∨ .added path ∈ r.compared since

/-- Some comparison reports the path as deleted, and none reports it as added. -/
def Drops (r : Repository) (since : Contents) (path : String) : Prop :=
  .deleted path ∈ r.compared since ∧ .added path ∉ r.compared since

/-- A tracked file that is there and differs from the commit is reported under its path from the
top. -/
theorem brings_of_differs {r : Repository} {since : Contents} {path : String} {bytes : List UInt8}
    (htracked : r.staged.has path = true) (hwork : r.work.files.get? path = some bytes)
    (hdiffer : since.get? path ≠ some bytes) : r.Brings since path := by
  have hnotices : r.notices since path = true :=
    (notices_of_present hwork).2 fun h => hdiffer h.1
  have hreported : .modified path ∈ r.reported since (fun _ => false) ∨
      .added path ∈ r.reported since fun _ => false :=
    (reported_of_present rfl hwork since).1.2 hnotices
  -- It is not among the untracked files, so that a comparison reports it.
  have hcompared : ∀ change ∈ r.reported since fun _ => false, change.path = path →
      change ∈ r.compared since := by
    intro change hchange hpath
    rw [reported, List.mem_append, List.mem_map] at hchange
    rcases hchange with hc | ⟨other, hother, rfl⟩
    · exact hc
    · obtain rfl : other = path := hpath
      simp [untracked, htracked] at hother
  exact hreported.imp (fun h => hcompared _ h rfl) fun h => hcompared _ h rfl

end Repository

/-! ## An update of a project in a folder -/

namespace Index

theorem fresh_of_present {index : Index} {tree : FileTree} {path : String} {bytes : List UInt8}
    (hbytes : tree.files.get? path = some bytes) :
    index.Fresh tree path ↔
      ∃ o, Outline.ofBytes bytes path = .ok o ∧ index.files.get? path = some o := by
  constructor
  · intro hfresh
    exact hfresh.2 bytes hbytes
  · rintro ⟨o, ho, hget⟩
    refine ⟨?_, fun same hsame => ?_⟩
    · exact iff_of_true (Assoc.mem_keys_iff.2 ⟨o, hget⟩) (Assoc.mem_keys_iff.2 ⟨bytes, hbytes⟩)
    · obtain rfl := Option.some.inj (hbytes.symm.trans hsame)
      exact ⟨o, ho, hget⟩

section Present

variable {index : Index} {tree : FileTree} (htree : tree.Proper) {path : String}
  (hscope : InScope path) {bytes : List UInt8} (hbytes : tree.files.get? path = some bytes)

include htree hscope hbytes

/-- In an index that was just made a file is fresh unless it is too large. -/
theorem fresh_of_ofTree_iff {root : String} (hmade : ofTree root .usual tree = .ok index) :
    index.Fresh tree path ↔ (bytes.length : Int) ≤ Settings.usualMaxSize := by
  rw [fresh_of_present hbytes]
  constructor
  · rintro ⟨o, -, hget⟩
    rw [get?_files_of_ofTree htree hmade hscope.1 hscope.2, hbytes] at hget
    by_contra hlarge
    have hnone : sized (some bytes) = none := by simpa [sized, Option.filter] using hlarge
    rw [hnone] at hget
    cases hget
  · exact exists_outline_of_ofTree htree hmade hscope.1 hscope.2 hbytes

/-- In an index that has followed changes a file is fresh if they name it as modified or added, or
if it was fresh and they do not name it as deleted. -/
theorem fresh_follow_iff {changes : Changes} (hroot : Path.IsRoot index.root)
    (hpaths : changes.Proper) (hread : tree.ReadableFor .usual changes) :
    (index.follow .usual tree changes).1.Fresh tree path ↔
      (path ∈ changes.modified ∨ path ∈ changes.added) ∨
        path ∉ changes.deleted ∧ index.Fresh tree path := by
  obtain ⟨next, hfollow, -, hfiles⟩ := files_follow hroot htree (hpaths.keyed hroot) hread
  have hthere : path ∈ tree.files.keys := Assoc.mem_keys_iff.2 ⟨bytes, hbytes⟩
  have hget := hfiles path
  simp only [Changes.Enters, hscope.1, hscope.2, hthere, hbytes, and_true] at hget
  rw [hfollow, fresh_of_present hbytes, fresh_of_present hbytes, hget]
  by_cases hnamed : path ∈ changes.modified ∨ path ∈ changes.added
  · obtain ⟨o, ho⟩ := hread path hnamed hscope.1 hscope.2 bytes hbytes
    simp [hnamed, ho, Outline.ofFile?, Except.toOption]
  · by_cases hdeleted : path ∈ changes.deleted
    · simp [hnamed, hdeleted]
    · simp [hnamed, hdeleted]

end Present

end Index

namespace Service

open Work

variable {world : World} {s : Service} {index : Index} {commit : String}

/-- When an update comes to its end. -/
theorem exec_update_ok_iff (world : World) (hholds : s.Holds index commit) :
    let changes := Id.run (changesSince world.git commit)
    (exec update world s).1 = .ok () ↔
      if areMany changes index then ¬ world.Unindexable
      else (index.follow .usual world.tree changes).2 = none := by
  intro changes
  -- Nothing to do, too much to follow, a fault on the way, or all followed.
  rcases exec_update_outcome world hholds.2 with
    ⟨hidle, hnext⟩ | ⟨-, -, ⟨hmany, t, hbuild, -, -⟩ |
      ⟨hfew, ⟨e, t, hfault, hnext, -, -⟩ | ⟨t, hdone, hnext, -, -⟩⟩⟩
  · have hquiet : changes.isEmpty = true := by
      rcases hidle with hno | hquiet
      · cases hno.symm.trans hholds.1
      · exact hquiet
    have hnone : (index.follow .usual world.tree changes).2 = none := by
      simp only [Changes.isEmpty, Bool.and_eq_true, List.isEmpty_iff] at hquiet
      simp [Index.follow, hquiet, Index.reindexAll]
    rw [areMany_eq_false_of_isEmpty hquiet index, if_neg Bool.false_ne_true, hnext]
    exact iff_of_true rfl hnone
  · have hmany : areMany changes index = true := hmany
    rw [hmany, if_pos rfl, hbuild]
    by_cases hworld : world.Unindexable
    · obtain ⟨e, he⟩ := hworld
      obtain ⟨next, hfailed, -, -⟩ := exec_build_error (s := t) he
      rw [hfailed]
      exact iff_of_false (fun h => by cases h) fun h => h ⟨e, he⟩
    · obtain ⟨made, hmade⟩ := World.exists_index_of_not_unindexable hworld
      obtain ⟨next, hdone, -, -⟩ := exec_build_ok (s := t) hmade
      rw [hdone]
      exact iff_of_true rfl hworld
  · have hfew : areMany changes index = false := hfew
    have hfault : (index.follow .usual world.tree changes).2 = some e := hfault
    rw [hfew, if_neg Bool.false_ne_true, hnext, hfault]
    exact iff_of_false (fun h => by cases h) fun h => by cases h
  · have hfew : areMany changes index = false := hfew
    rw [hfew, if_neg Bool.false_ne_true, hnext]
    exact iff_of_true rfl hdone

/-- The index after an update that had changes to follow and came to its end. -/
theorem stage_of_exec_update_ok (hholds : s.Holds index commit)
    (hloud : (Id.run (changesSince world.git commit)).isEmpty = false)
    (hok : (exec update world s).1 = .ok ()) :
    ∃ next, (exec update world s).2.stage = .ready next ∧
      if areMany (Id.run (changesSince world.git commit)) index then
        Index.ofTree world.root .usual world.tree = .ok next.index
      else next.index = (index.follow .usual world.tree
        (Id.run (changesSince world.git commit))).1.rebuild := by
  have hdone := (exec_update_ok_iff world hholds).1 hok
  cases hmany : areMany (Id.run (changesSince world.git commit)) index with
  | true =>
    rw [hmany, if_pos rfl] at hdone
    obtain ⟨made, hmade⟩ := World.exists_index_of_not_unindexable hdone
    obtain ⟨t, hbuild, -, -⟩ := exec_update_many hholds.1 hholds.2 rfl hloud hmany
    obtain ⟨next, hnext, -, hstage⟩ := exec_build_ok (s := t) hmade
    rw [hbuild, hnext]
    refine ⟨_, hstage, ?_⟩
    rw [if_pos rfl]
    exact hmade
  | false =>
    rw [hmany, if_neg Bool.false_ne_true] at hdone
    obtain ⟨t, hnext, -, hstage⟩ :=
      exec_update_followed hholds.1 hholds.2 rfl hloud hmany (Prod.ext rfl hdone)
    rw [hnext]
    refine ⟨_, hstage, ?_⟩
    rw [if_neg Bool.false_ne_true]
    rfl

section Folder

variable {r : Repository} {folder : String} {ignored : String → Bool} {since : Git.Contents}
variable {found : List Change}

/-- What the changes that git reports from a folder say about a tracked file of the project. They
say about it what the comparisons say about its namesake at the top. -/
theorem mem_changes_iff
    (hfound : ∀ change, change ∈ found ↔ change ∈ r.reportedIn folder since ignored) {path : String}
    (htracked : r.staged.has (child folder path) = true) :
    let changes := collectChanges found
    (path ∈ changes.modified ∨ path ∈ changes.added ↔ r.Brings since path) ∧
      (path ∈ changes.deleted ↔ r.Drops since path) := by
  have huntracked :
      child folder path ∉ untracked r.staged r.work.files ignored := by
    simp [untracked, htracked]
  have hmem : ∀ change : Change, change.path = path →
      (change ∈ found ↔ change ∈ r.compared since) := by
    intro change hpath
    rw [hfound, Repository.mem_reportedIn_iff, hpath]
    simp [huntracked]
  refine ⟨?_, ?_⟩
  · rw [mem_modified_or_added_iff, hmem _ rfl, hmem _ rfl]
    rfl
  · rw [(mem_collectChanges found path).2.2, hmem _ rfl, hmem _ rfl]
    rfl

theorem isEmpty_changes_of_brings
    (hfound : ∀ change, change ∈ found ↔ change ∈ r.reportedIn folder since ignored) {path : String}
    (h : r.Brings since path) : (collectChanges found).isEmpty = false := by
  rw [Bool.eq_false_iff, ne_eq, isEmpty_collectChanges_iff]
  intro hnone
  have hsilent : ∀ change, change ∉ r.compared since := by
    intro change hchange
    exact hnone change ((hfound change).2 (List.mem_append_left _ hchange))
  rcases h with hmodified | hadded
  · exact hsilent _ hmodified
  · exact hsilent _ hadded

/-- Only proper paths are reported in a folder. -/
theorem proper_changes (hrepo : r.Proper) (hsince : ∀ path ∈ since.keys, Path.Proper path)
    (hfound : ∀ change, change ∈ found ↔ change ∈ r.reportedIn folder since ignored) :
    (collectChanges found).Proper := by
  refine Changes.proper_collect fun change hchange => ?_
  rcases Repository.mem_reportedIn_iff.1 ((hfound change).1 hchange) with hc | ⟨-, hpath⟩
  · exact hrepo.of_mem_compared hsince hc
  · have hmem : child folder change.path ∈ r.work.files.keys := by
      simpa using (List.mem_filter.1 hpath).1
    exact proper_of_child (hrepo.work.files _ hmem)

/-- **Which changed files are fresh after an update of a project in a folder.** Git runs in the
project's root, a folder of the work tree, and all its commands succeed. The update comes to its end
if and only if the files that it has to read have outlines. Then a tracked file that is in scope and
differs from the commit is fresh in these cases only. If there were so many changes that the index
was made anew, the file is not too large. Otherwise the project lies at the top; or some comparison
reports a file at the top that has the same path there as this one has in the project; or the index
had the present outline before, and no such file at the top is reported as deleted. -/
theorem fresh_after_update_iff (hrepo : r.Proper) (hsince : r.commits.get? commit = some since)
    (htree : world.tree = r.work.within folder)
    (hgit : Git.FaithfulIn r folder ignored world.git) (hholds : s.Holds index commit)
    (hroot : Path.IsRoot index.root) :
    let changes := Id.run (Git.changesSince world.git commit)
    let many := areMany changes index
    ((exec update world s).1 = .ok () ↔
        if many then ¬ world.Unindexable else world.tree.ReadableFor .usual changes) ∧
      ((exec update world s).1 = .ok () → ∀ path bytes, InScope path →
        r.staged.has (FileTree.child folder path) = true →
        r.work.files.get? (FileTree.child folder path) = some bytes →
        since.get? (FileTree.child folder path) ≠ some bytes →
          ∃ next, (exec update world s).2.stage = .ready next ∧
            (next.index.Fresh world.tree path ↔
              if many then (bytes.length : Int) ≤ Settings.usualMaxSize
              else folder = "" ∨ r.Brings since path ∨
                ¬ r.Drops since path ∧ index.Fresh world.tree path)) := by
  intro changes many
  obtain ⟨found, hchanges, hfound⟩ := hgit.changesSince hsince
  have hchanges : changes = Git.collectChanges found := hchanges
  have hproper : changes.Proper :=
    hchanges ▸ proper_changes hrepo (hrepo.commits commit since hsince) hfound
  have htreeProper : world.tree.Proper := htree ▸ hrepo.work.within folder
  have hdone : (index.follow .usual world.tree changes).2 = none ↔
      world.tree.ReadableFor .usual changes := Index.follow_done_iff hroot htreeProper hproper
  have hok : (exec update world s).1 = .ok () ↔ if many then ¬ world.Unindexable
      else (index.follow .usual world.tree changes).2 = none := exec_update_ok_iff world hholds
  refine ⟨?_, fun hend path bytes hscope htracked hwork hdiffer => ?_⟩
  · rw [hok, ← hdone]
  have hbytes : world.tree.files.get? path = some bytes := by
    rw [htree, FileTree.get?_within, hwork]
  -- The file's own report, wherever it leads, is one of the changes.
  have hbrought := Repository.brings_of_differs htracked hwork hdiffer
  have hloud : changes.isEmpty = false := hchanges ▸ isEmpty_changes_of_brings hfound hbrought
  obtain ⟨next, hstage, hnext⟩ := stage_of_exec_update_ok hholds hloud hend
  refine ⟨next, hstage, ?_⟩
  cases hmany : many with
  | true =>
    rw [show areMany _ index = true from hmany, if_pos rfl] at hnext
    rw [if_pos rfl]
    exact Index.fresh_of_ofTree_iff htreeProper hscope hbytes hnext
  | false =>
    rw [show areMany _ index = false from hmany, if_neg Bool.false_ne_true] at hnext
    rw [hmany, if_neg Bool.false_ne_true] at hok
    rw [if_neg Bool.false_ne_true, hnext]
    have hfollowed := Index.fresh_follow_iff htreeProper hscope hbytes hroot hproper
      (hdone.1 (hok.1 hend))
    obtain ⟨hbrings, hdrops⟩ := mem_changes_iff hfound htracked
    rw [← hchanges] at hbrings hdrops
    rw [hbrings, hdrops] at hfollowed
    -- At the top the file is its own namesake.
    have htop : folder = "" → r.Brings since path := by
      rintro rfl
      exact hbrought
    exact hfollowed.trans ⟨Or.inr, fun h => h.elim (fun h => Or.inl (htop h)) id⟩

end Folder

/-! ## A changed file in a folder -/

/-- The project lies in a folder. One file of it was committed; in the work tree it has this text.
Files at the top were staged since, with one line each. -/
def nested (text : String) (top : List String) : Repository :=
  let committed := [("project/pkg/a.py", Text.toBytes "x = 1\n")]
  ⟨[("c0", committed)], "c0", committed ++ top.map fun path => (path, Text.toBytes "z = 0\n"),
    .ofTexts (("project/pkg/a.py", text) :: top.map fun path => (path, "z = 0\n"))⟩

/-- What the service of that project sees. -/
def nestedWorld (r : Repository) : World :=
  ⟨"/project", r.work.within "project", r.gitIn "project" fun _ => false, .whole 0⟩

/-- The service, after it has made the index of the committed file. -/
def nestedKeeper : Service :=
  (exec build (nestedWorld (nested "x = 1\n" [])) (start (.whole 0) none)).2

theorem holds_nestedKeeper :
    ∃ index, nestedKeeper.Holds index "c0" ∧ index.root = "/project" := by
  have hview : nestedKeeper.isGit = true ∧ nestedKeeper.stage.current?.map
      (fun snapshot => (snapshot.commit, snapshot.index.root)) = some (some "c0", "/project") := by
    decide +kernel
  obtain ⟨⟨index, commit⟩, hcurrent, hseen⟩ := Option.map_eq_some_iff.1 hview.2
  obtain ⟨rfl, hroot⟩ := Prod.mk.inj hseen
  exact ⟨index, ⟨hview.1, Stage.eq_ready_of_current? hcurrent⟩, hroot⟩

theorem proper_nested {text : String} {top : List String}
    (hcommits : ∀ e ∈ (nested text top).commits, ∀ path ∈ e.2.keys, Path.Proper path)
    (hstaged : ∀ path ∈ (nested text top).staged.keys, Path.Proper path)
    (hwork : (nested text top).work.Proper) : (nested text top).Proper :=
  ⟨fun _ _ hid => hcommits _ (Assoc.mem_of_get? hid), hstaged, hwork⟩

/-- The file has another line now, and at the top a file with the same path is staged. -/
def besideNamesake : Repository := nested "x = 1\ny = 2\n" ["pkg/a.py"]

/-- A changed file in a folder is fresh after the update when a file is staged that has the same
path at the top. -/
theorem fresh_beside_namesake :
    besideNamesake.Proper ∧
      Git.FaithfulIn besideNamesake "project" (fun _ => false) (nestedWorld besideNamesake).git ∧
      besideNamesake.staged.has "project/pkg/a.py" = true ∧ InScope "pkg/a.py" ∧
      ∃ index next, nestedKeeper.Holds index "c0" ∧
        (exec update (nestedWorld besideNamesake) nestedKeeper).1 = .ok () ∧
        (exec update (nestedWorld besideNamesake) nestedKeeper).2.stage = .ready next ∧
        next.index.Fresh (nestedWorld besideNamesake).tree "pkg/a.py" := by
  obtain ⟨index, hholds, hindex⟩ := holds_nestedKeeper
  have hrepo : besideNamesake.Proper :=
    proper_nested (by decide +kernel) (by decide +kernel) (by decide +kernel)
  have hgit : Git.FaithfulIn besideNamesake "project" (fun _ => false)
      (nestedWorld besideNamesake).git :=
    Repository.faithfulIn_gitIn (by decide +kernel) hrepo.work _ _
  have hroot : Path.IsRoot index.root := hindex ▸ Path.isRoot_project
  obtain ⟨hends, hfresh⟩ := fresh_after_update_iff hrepo rfl rfl hgit hholds hroot
  have hfew : areMany (Id.run (Git.changesSince (nestedWorld besideNamesake).git "c0")) index =
      false := by
    have hsize : decide ((Id.run (Git.changesSince (nestedWorld besideNamesake).git "c0")).size >
        fewChanges) = false := by decide +kernel
    rw [areMany, hsize]
    rfl
  simp only [hfew, Bool.false_eq_true, if_false] at hends hfresh
  have hread : (nestedWorld besideNamesake).tree.Readable :=
    FileTree.readable_of_forall (by decide +kernel)
  have hok := hends.2 fun path _ _ _ => hread path
  have hfacts : InScope "pkg/a.py" ∧ besideNamesake.staged.has "project/pkg/a.py" = true ∧
      besideNamesake.work.files.get? "project/pkg/a.py" =
        some (Text.toBytes "x = 1\ny = 2\n") ∧
      Text.toBytes "x = 1\n" ≠ Text.toBytes "x = 1\ny = 2\n" ∧
      .added "pkg/a.py" ∈
        besideNamesake.compared [("project/pkg/a.py", Text.toBytes "x = 1\n")] := by
    decide +kernel
  obtain ⟨hscope, htracked, hwork, hne, hadded⟩ := hfacts
  obtain ⟨next, hstage, hiff⟩ := hfresh hok "pkg/a.py" _ hscope htracked hwork
    fun h => hne (Option.some.inj h)
  exact ⟨hrepo, hgit, htracked, hscope, index, next, hholds, hok, hstage,
    hiff.2 (Or.inr (Or.inl (Or.inr hadded)))⟩

/-- The file has another line now, and there is nothing else. -/
def onlyNested : Repository := nested "x = 1\ny = 2\n" []

/-- A changed file in a folder is passed over: the index still has one line of it. -/
theorem stale_in_folder :
    onlyNested.Proper ∧
      Git.FaithfulIn onlyNested "project" (fun _ => false) (nestedWorld onlyNested).git ∧
      (∃ index, nestedKeeper.Holds index "c0") ∧ InScope "pkg/a.py" ∧
      onlyNested.staged.has "project/pkg/a.py" = true ∧
      onlyNested.headFiles.get? "project/pkg/a.py" = some (Text.toBytes "x = 1\n") ∧
      (nestedWorld onlyNested).tree.files.get? "pkg/a.py" = some (Text.toBytes "x = 1\ny = 2\n") ∧
      (exec update (nestedWorld onlyNested) nestedKeeper).1.isOk = true ∧
      ∃ next, (exec update (nestedWorld onlyNested) nestedKeeper).2.stage = .ready next ∧
        (next.index.files.get? "pkg/a.py").map Outline.totalLines = some 1 ∧
        ¬ next.index.Fresh (nestedWorld onlyNested).tree "pkg/a.py" := by
  obtain ⟨index, hholds, -⟩ := holds_nestedKeeper
  have hrepo : onlyNested.Proper :=
    proper_nested (by decide +kernel) (by decide +kernel) (by decide +kernel)
  have hfacts : InScope "pkg/a.py" ∧ onlyNested.staged.has "project/pkg/a.py" = true ∧
      onlyNested.headFiles.get? "project/pkg/a.py" = some (Text.toBytes "x = 1\n") ∧
      (nestedWorld onlyNested).tree.files.get? "pkg/a.py" = some (Text.toBytes "x = 1\ny = 2\n") ∧
      (exec update (nestedWorld onlyNested) nestedKeeper).1.isOk = true ∧
      (exec update (nestedWorld onlyNested) nestedKeeper).2.stage.current?.map
        (fun next => (next.index.files.get? "pkg/a.py").map Outline.totalLines) = some (some 1) ∧
      (Outline.ofBytes (Text.toBytes "x = 1\ny = 2\n") "pkg/a.py").toOption.map
        Outline.totalLines = some 2 := by
    decide +kernel
  obtain ⟨hscope, htracked, hhead, hbytes, hok, hview, htwo⟩ := hfacts
  obtain ⟨next, hcurrent, hone⟩ := Option.map_eq_some_iff.1 hview
  refine ⟨hrepo, Repository.faithfulIn_gitIn (by decide +kernel) hrepo.work _ _, ⟨index, hholds⟩,
    hscope, htracked, hhead, hbytes, hok, next, Stage.eq_ready_of_current? hcurrent, hone, ?_⟩
  intro hfresh
  obtain ⟨o, ho, hget⟩ := (Index.fresh_of_present hbytes).1 hfresh
  simp [ho, hget, Except.toOption] at htwo hone
  omega

end Service

end SourceAtlas
