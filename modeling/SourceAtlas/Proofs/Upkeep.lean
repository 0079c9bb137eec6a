import SourceAtlas.Proofs.ChangeReports
import SourceAtlas.Proofs.UsualSettings
import SourceAtlas.Service.Call

/-!
# What a query does to the index

The work of a service is opened once, by equations for `Work.exec`. From them follows what a query
leaves behind: a service that has no index makes one, and a service that has one lets it follow the
reported changes, file by file (`exec_update_follow`) or as a whole (`exec_update_build`). What the
answer is, and whether there is one, makes no difference to the index (`stage_call`).
-/

set_option autoImplicit false

namespace SourceAtlas

open Git

variable {root : String}

/-! ## Following changes -/

/-- The reported paths are proper. -/
def Changes.Proper (changes : Changes) : Prop :=
  ∀ path, path ∈ changes.modified ∨ path ∈ changes.added ∨ path ∈ changes.deleted →
    Path.Proper path

/-- The reported paths stand for themselves in a project with this root: they are relative and
without detours. -/
def Changes.Keyed (root : String) (changes : Changes) : Prop :=
  ∀ path, path ∈ changes.modified ∨ path ∈ changes.added ∨ path ∈ changes.deleted →
    Project.key root path = path

theorem Changes.Proper.keyed {changes : Changes} (h : changes.Proper) (hroot : Path.IsRoot root) :
    changes.Keyed root :=
  fun path hpath => Project.key_of_proper hroot (h path hpath)

theorem Changes.Keyed.deleted {changes : Changes} {index : Index}
    (h : changes.Keyed index.root) :
    ∀ path ∈ changes.deleted, path ∈ index.files.keys → Project.key index.root path = path :=
  fun path hpath _ => h path (Or.inr (Or.inr hpath))

theorem Changes.proper_collect {changes : List Change}
    (h : ∀ change ∈ changes, Path.Proper change.path) : (collectChanges changes).Proper := by
  intro path hpath
  simp only [mem_collectChanges] at hpath
  rcases hpath with (hc | hc) | hc | hc
  exacts [h _ hc, h _ hc.1, h _ hc.1, h _ hc.1]

/-- An update enters the file: it is reported as modified or added, a pattern takes it and none
leaves it out, and it is there. -/
def Changes.Enters (changes : Changes) (settings : Settings) (tree : FileTree) (path : String) :
    Prop :=
  (path ∈ changes.modified ∨ path ∈ changes.added) ∧ settings.isIncluded path = true ∧
    settings.isExcluded path = false ∧ path ∈ tree.files.keys

instance (changes : Changes) (settings : Settings) (tree : FileTree) (path : String) :
    Decidable (changes.Enters settings tree path) :=
  inferInstanceAs (Decidable ((path ∈ changes.modified ∨ path ∈ changes.added) ∧
    settings.isIncluded path = true ∧ settings.isExcluded path = false ∧
      path ∈ tree.files.keys))

/-- The file, if it is there, has an outline. -/
def FileTree.ReadableAt (tree : FileTree) (path : String) : Prop :=
  ∀ bytes, tree.files.get? path = some bytes → ∃ o, Outline.ofBytes bytes path = .ok o

/-- Every file that an update enters for the changes has an outline. -/
def FileTree.ReadableFor (tree : FileTree) (settings : Settings) (changes : Changes) : Prop :=
  ∀ path, path ∈ changes.modified ∨ path ∈ changes.added → settings.isIncluded path = true →
    settings.isExcluded path = false → tree.ReadableAt path

namespace Index

variable {tree : FileTree}
variable {paths : List String}

/-- Taking files out, as far as they are in the table and stand for themselves. -/
theorem files_removeAll {index : Index}
    (hpaths : ∀ path ∈ paths, path ∈ index.files.keys → Project.key index.root path = path) :
    (index.removeAll paths).root = index.root ∧
      ∀ key, (index.removeAll paths).files.get? key =
        if key ∈ paths then none else index.files.get? key := by
  unfold removeAll
  induction paths generalizing index with
  | nil => simp
  | cons path paths ih =>
    have hrest : ∀ p ∈ paths, p ∈ index.files.keys → Project.key index.root p = p :=
      (List.forall_mem_cons.1 hpaths).2
    rw [List.foldl_cons]
    split
    · rename_i hhas
      rw [remove_of_key (hpaths path List.mem_cons_self (Assoc.has_iff_mem_keys.1 hhas))]
      -- What is left in the table was there before.
      have hnext : ∀ p ∈ paths, p ∈ ((index.releaseFile path).dropFile path).files.keys →
          Project.key ((index.releaseFile path).dropFile path).root p = p := by
        intro p hp hleft
        rw [files_dropFile, files_releaseFile, Assoc.erase] at hleft
        rw [root_dropFile, root_releaseFile]
        exact hrest p hp ((List.filter_sublist.map Prod.fst).subset hleft)
      obtain ⟨hsame, hget⟩ := ih hnext
      refine ⟨by simpa using hsame, fun key => ?_⟩
      rw [hget, files_dropFile, files_releaseFile, Assoc.get?_erase]
      by_cases hkey : key = path <;> simp [hkey]
    -- A file that the index does not have is passed over.
    · rename_i hmissing
      obtain ⟨hsame, hget⟩ := ih hrest
      refine ⟨hsame, fun key => ?_⟩
      rw [hget]
      by_cases hkey : key = path
      · subst hkey
        have hnone : index.files.get? key = none :=
          Assoc.has_eq_false_iff.1 (by simpa using hmissing)
        simp [hnone]
      · simp [hkey]

/-- Entering files that are there. -/
theorem files_reindexAll {index : Index} (hroot : Path.IsRoot index.root) (htree : tree.Proper)
    (hpaths : ∀ path ∈ paths, path ∈ tree.files.keys)
    (hread : ∀ path ∈ paths, tree.ReadableAt path) :
    ∃ next, index.reindexAll tree paths = (next, none) ∧ next.root = index.root ∧
      ∀ key, next.files.get? key =
        if key ∈ paths then Outline.ofFile? key (tree.files.get? key)
        else index.files.get? key := by
  induction paths generalizing index with
  | nil => exact ⟨index, rfl, rfl, by simp⟩
  | cons path paths ih =>
    have hmem := hpaths path List.mem_cons_self
    obtain ⟨bytes, hbytes⟩ := Assoc.mem_keys_iff.1 hmem
    obtain ⟨o, ho⟩ := hread path List.mem_cons_self bytes hbytes
    have hstep := reindex_of_present hroot htree (htree.files path hmem) hbytes ho true
    have hentered : Path.IsRoot ((index.releaseFile path).enter path o).root := by simpa using hroot
    obtain ⟨next, hnext, hsame, hget⟩ := ih hentered
      (List.forall_mem_cons.1 hpaths).2
      (List.forall_mem_cons.1 hread).2
    refine ⟨next, ?_, by simpa using hsame, fun key => ?_⟩
    · rw [reindexAll, hstep]
      exact hnext
    · rw [hget, enter, files_releaseFile, Assoc.get?_put]
      by_cases hkey : key = path
      · subst hkey
        simp [Outline.ofFile?, hbytes, ho, Except.toOption]
      · simp [hkey]

/-- Files that are there are all entered only if each of them has an outline. -/
theorem readableAt_of_reindexAll {index : Index} (hroot : Path.IsRoot index.root)
    (htree : tree.Proper) (hpaths : ∀ path ∈ paths, path ∈ tree.files.keys)
    (hdone : (index.reindexAll tree paths).2 = none) : ∀ path ∈ paths, tree.ReadableAt path := by
  induction paths generalizing index with
  | nil => simp
  | cons path paths ih =>
    have hmem := hpaths path List.mem_cons_self
    obtain ⟨bytes, hbytes⟩ := Assoc.mem_keys_iff.1 hmem
    cases hread : Outline.ofBytes bytes path with
    | error e =>
      rw [reindexAll, reindex_of_error hroot htree (htree.files path hmem) hbytes hread true]
        at hdone
      cases hdone
    | ok o =>
      rw [reindexAll, reindex_of_present hroot htree (htree.files path hmem) hbytes hread true]
        at hdone
      have hentered : Path.IsRoot ((index.releaseFile path).enter path o).root := by
        simpa using hroot
      have hrest := ih hentered (List.forall_mem_cons.1 hpaths).2 hdone
      intro p hp
      rcases List.mem_cons.1 hp with rfl | hp
      · intro same hsame
        obtain rfl := Option.some.inj (hbytes.symm.trans hsame)
        exact ⟨o, hread⟩
      · exact hrest p hp

/-- The files of an update are those that are there and that the settings name. -/
theorem admits_iff_of_key {path : String} (hroot : Path.IsRoot root) (htree : tree.Proper)
    (hkey : Project.key root path = path) (settings : Settings) :
    admits root settings tree path = true ↔
      settings.isIncluded path = true ∧ settings.isExcluded path = false ∧
        path ∈ tree.files.keys := by
  rw [admits, Bool.and_eq_true, Bool.and_eq_true, FileTree.isSome_locate?_iff htree hroot hkey,
    Bool.not_eq_true']
  tauto

theorem admits_iff {path : String} (hroot : Path.IsRoot root) (htree : tree.Proper)
    (hpath : Path.Proper path) (settings : Settings) :
    admits root settings tree path = true ↔
      settings.isIncluded path = true ∧ settings.isExcluded path = false ∧
        path ∈ tree.files.keys :=
  admits_iff_of_key hroot htree (Project.key_of_proper hroot hpath) settings

section Follow

variable {index : Index} {settings : Settings} {changes : Changes}

theorem mem_filter_admits_iff (hroot : Path.IsRoot index.root) (htree : tree.Proper)
    (hpaths : changes.Keyed index.root) (settings : Settings) (path : String) :
    path ∈ (changes.modified ++ changes.added).filter (admits index.root settings tree) ↔
      changes.Enters settings tree path := by
  rw [Changes.Enters, List.mem_filter, List.mem_append]
  refine and_congr_right fun hpath => ?_
  exact admits_iff_of_key hroot htree (hpaths path (hpath.imp_right Or.inl)) settings

/-- Changes are followed to the end if and only if every file that is to be entered has an
outline. -/
theorem follow_done_iff (hroot : Path.IsRoot index.root) (htree : tree.Proper)
    (hpaths : changes.Proper) :
    (index.follow settings tree changes).2 = none ↔ tree.ReadableFor settings changes := by
  have hkeyed := hpaths.keyed hroot
  have hmem := mem_filter_admits_iff hroot htree hkeyed settings
  have hpresent := fun path hpath => ((hmem path).1 hpath).2.2.2
  have hroot' : Path.IsRoot (index.removeAll changes.deleted).root := by
    rwa [(files_removeAll hkeyed.deleted).1]
  constructor
  · intro hdone path hpath hincluded hexcluded bytes hbytes
    have hkey : path ∈ tree.files.keys := Assoc.mem_keys_iff.2 ⟨bytes, hbytes⟩
    exact readableAt_of_reindexAll hroot' htree hpresent hdone path
      ((hmem path).2 ⟨hpath, hincluded, hexcluded, hkey⟩) bytes hbytes
  · intro hread
    obtain ⟨next, hnext, -⟩ := files_reindexAll hroot' htree hpresent fun path hpath =>
      hread path ((hmem path).1 hpath).1 ((hmem path).1 hpath).2.1 ((hmem path).1 hpath).2.2.1
    exact congrArg Prod.snd hnext

/-- What an index holds after it has followed changes: the present outlines of the files that are
entered, nothing of other files that are reported as deleted, and all else as before. -/
theorem files_follow (hroot : Path.IsRoot index.root) (htree : tree.Proper)
    (hpaths : changes.Keyed index.root) (hread : tree.ReadableFor settings changes) :
    ∃ next, index.follow settings tree changes = (next, none) ∧ next.root = index.root ∧
      ∀ key, next.files.get? key =
        if changes.Enters settings tree key then Outline.ofFile? key (tree.files.get? key)
        else if key ∈ changes.deleted then none else index.files.get? key := by
  have hmem := mem_filter_admits_iff hroot htree hpaths settings
  -- Deleted files are taken out first; then those that are there are entered.
  obtain ⟨hremoved, hget⟩ := files_removeAll hpaths.deleted
  have hroot' : Path.IsRoot (index.removeAll changes.deleted).root := by rwa [hremoved]
  obtain ⟨next, hnext, hsame, hfiles⟩ := files_reindexAll hroot' htree
    (fun path hpath => ((hmem path).1 hpath).2.2.2) fun path hpath =>
      hread path ((hmem path).1 hpath).1 ((hmem path).1 hpath).2.1 ((hmem path).1 hpath).2.2.1
  refine ⟨next, hnext, hsame.trans hremoved, fun key => ?_⟩
  rw [hfiles, hget]
  simp only [hmem]

end Follow

end Index

/-! ## Work opened up -/

/-- How work on a service ends in a world. -/
def Work.exec {α : Type} (w : Work α) (world : World) (s : Service) :
    Except CallFault α × Service :=
  (w.run world).run s

namespace Work

variable {α β : Type} {world : World} {s : Service}

theorem exec_bind (x : Work α) (f : α → Work β) :
    exec (x >>= f) world s =
      match exec x world s with
      | (.ok a, next) => exec (f a) world next
      | (.error e, next) => (.error e, next) := by
  show (match x world s with | (r, next) => ExceptT.bindCont (fun a => f a world) r next) = _
  rcases hx : x world s with ⟨_ | _, next⟩ <;> simp [exec, ReaderT.run, ExceptT.run, hx] <;> rfl

theorem exec_read : exec (read : Work World) world s = (.ok world, s) := rfl

theorem exec_get : exec (get : Work Service) world s = (.ok s, s) := rfl

theorem exec_modify (f : Service → Service) :
    exec (modify f : Work Unit) world s = (.ok (), f s) := rfl

end Work

namespace Service

open Work

variable {world : World} {s : Service}
variable {index : Index} {commit : String}

theorem exec_note (line : String) :
    exec (note line) world s = (.ok (), { s with log := s.log ++ [line] }) := rfl

theorem exec_enterStage (stage : Stage) :
    exec (enterStage stage) world s = (.ok (), { s with stage }) := rfl

/-- The service keeps an index of a git project, which stands for a commit. -/
def Holds (s : Service) (index : Index) (commit : String) : Prop :=
  s.isGit = true ∧ s.stage = .ready ⟨index, some commit⟩

theorem exec_saveCache (world : World) (s : Service) (snapshot : Snapshot) :
    ∃ next, exec (saveCache snapshot) world s = (.ok (), next) ∧ next.stage = s.stage ∧
      next.isGit = s.isGit := by
  unfold saveCache
  rw [exec_bind, exec_read]
  dsimp only
  split
  · exact ⟨_, exec_note _, rfl, rfl⟩
  · exact ⟨_, rfl, rfl, rfl⟩

/-- Making an index of files of which one has no outline. What the service answered from stays. -/
theorem exec_build_error {e : IndexError}
    (hmade : Index.ofTree world.root .usual world.tree = .error e) :
    ∃ next, exec build world s = (.error (.index e), next) ∧
      next.stage = .failed s.stage.answering? ∧ next.isGit = s.isGit := by
  unfold build
  simp only [exec_bind, exec_read, exec_note, exec_get, exec_enterStage, hmade]
  exact ⟨_, rfl, rfl, rfl⟩

/-- Making an index. It stands for the head that git names, if the project is in a work tree. -/
theorem exec_build_ok (hmade : Index.ofTree world.root .usual world.tree = .ok index) :
    ∃ next, exec build world s = (.ok (), next) ∧
      next.isGit = (s.isGit || Id.run (isWorkTree world.git)) ∧
      next.stage = .ready ⟨index, if next.isGit then Id.run (Git.head world.git) else none⟩ := by
  have hsave := fun t : Service => exec_saveCache world t ⟨index, Id.run (Git.head world.git)⟩
  unfold build
  simp only [exec_bind, exec_read, exec_note, exec_get, exec_enterStage, hmade]
  -- Git is asked only if it was not found before.
  cases hs : s.isGit with
  | true =>
    simp only [Bool.not_true, Bool.false_eq_true, if_false, if_true, exec_bind, exec_get,
      exec_enterStage, Bool.true_or]
    obtain ⟨next, hnext, hstage, hisGit⟩ := hsave _
    rw [hnext]
    exact ⟨_, rfl, hisGit, hstage.trans (by rw [if_pos hisGit])⟩
  | false =>
    simp only [Bool.not_false, if_true, exec_bind, exec_get, exec_modify, Bool.false_or]
    cases hgit : Id.run (isWorkTree world.git) with
    | true =>
      simp only [if_true, exec_bind, exec_enterStage]
      obtain ⟨next, hnext, hstage, hisGit⟩ := hsave _
      rw [hnext]
      exact ⟨_, rfl, hisGit, hstage.trans (by rw [if_pos hisGit])⟩
    | false => exact ⟨_, rfl, rfl, rfl⟩

/-- Making the index of a git project. -/
theorem exec_build (hmade : Index.ofTree world.root .usual world.tree = .ok index)
    (hgit : Id.run (isWorkTree world.git) = true)
    (hhead : Id.run (Git.head world.git) = some commit) :
    ∃ next, exec build world s = (.ok (), next) ∧ next.Holds index commit := by
  obtain ⟨next, hnext, hisGit, hstage⟩ := exec_build_ok (s := s) hmade
  rw [hgit, Bool.or_true] at hisGit
  rw [hisGit, if_pos rfl, hhead] at hstage
  exact ⟨next, hnext, hisGit, hstage⟩

/-- The snapshot in the cache file, if it can be read. -/
def cached? (s : Service) (world : World) : Option Snapshot :=
  if world.tree.isFolder cacheName then none
  else
    match s.cache with
    | some (.snapshot snapshot) => some snapshot
    | _ => none

theorem exec_loadCache (world : World) (s : Service) :
    ∃ t, exec loadCache world s = (.ok (s.cached? world), t) ∧ t.stage = s.stage ∧
      t.isGit = s.isGit := by
  unfold loadCache cached?
  simp only [exec_bind, exec_read]
  by_cases hfolder : world.tree.isFolder cacheName = true
  · simp only [hfolder, if_true]
    exact ⟨_, rfl, rfl, rfl⟩
  · simp only [hfolder, Bool.false_eq_true, if_false, exec_bind, exec_get]
    cases s.cache with
    | none => exact ⟨_, rfl, rfl, rfl⟩
    | some file => cases file <;> exact ⟨_, rfl, rfl, rfl⟩

/-- The first call makes the index, if there is no cache file. -/
theorem exec_ensureIndex_unbuilt (hstage : s.stage = .unbuilt) (hcache : s.cache = none)
    (hmade : Index.ofTree world.root .usual world.tree = .ok index)
    (hgit : Id.run (isWorkTree world.git) = true)
    (hhead : Id.run (Git.head world.git) = some commit) :
    ∃ next, exec ensureIndex world s = (.ok (), next) ∧ next.Holds index commit := by
  unfold ensureIndex
  simp only [exec_bind, exec_get, exec_read, exec_modify, hstage]
  obtain ⟨next, hnext, -, -⟩ := exec_loadCache world
    ⟨.unbuilt, Id.run (isWorkTree world.git), s.usage, s.cache, s.log⟩
  have hnone : cached? ⟨.unbuilt, Id.run (isWorkTree world.git), s.usage, s.cache, s.log⟩
      world = none := by simp [cached?, hcache]
  rw [hnone] at hnext
  rw [hnext]
  exact exec_build hmade hgit hhead

theorem exec_ensureIndex_begun (world : World) (hstage : s.stage ≠ .unbuilt) :
    exec ensureIndex world s = (.ok (), s) := by
  unfold ensureIndex
  simp only [exec_bind, exec_get]
  cases hs : s.stage with
  | unbuilt => exact absurd hs hstage
  | failed kept => rfl
  | ready snapshot => rfl

/-- Later calls find the index that there is. -/
theorem exec_ensureIndex_ready (h : s.Holds index commit) :
    exec ensureIndex world s = (.ok (), s) :=
  exec_ensureIndex_begun world fun hunbuilt => by cases h.2.symm.trans hunbuilt

theorem areMany_eq_false_of_isEmpty {changes : Changes} (h : changes.isEmpty = true)
    (index : Index) : areMany changes index = false := by
  simp only [Changes.isEmpty, Bool.and_eq_true, List.isEmpty_iff] at h
  simp [areMany, Changes.size, h]

section Update

variable {snapshot : Snapshot} {changes : Changes}

theorem exec_update_idle (hstage : s.stage = .ready snapshot)
    (hidle : s.isGit = false ∨
      (Id.run (changesSince? world.git snapshot.commit)).isEmpty = true) :
    exec update world s = (.ok (), s) := by
  unfold update
  simp only [exec_bind, exec_get, exec_read, hstage]
  cases hgit : s.isGit with
  | false => rfl
  | true =>
    rcases hidle with hidle | hquiet
    · rw [hgit] at hidle
      cases hidle
    · simp only [hquiet, if_true]
      rfl

section Loud

variable (hgit : s.isGit = true) (hstage : s.stage = .ready snapshot)
  (hchanges : Id.run (changesSince? world.git snapshot.commit) = changes)
  (hloud : changes.isEmpty = false)

include hgit hstage hchanges hloud

theorem exec_update_many (hmany : areMany changes snapshot.index = true) :
    ∃ t, exec update world s = exec build world t ∧ t.stage = s.stage ∧ t.isGit = s.isGit := by
  unfold update
  simp only [exec_bind, exec_get, exec_read, exec_note, hgit, hstage, hchanges, hloud, hmany,
    Bool.false_eq_true, if_false, if_true]
  exact ⟨_, rfl, rfl, rfl⟩

variable {next : Index} (hfew : areMany changes snapshot.index = false)

include hfew

theorem exec_update_fault {e : ReindexError}
    (hfollow : snapshot.index.follow .usual world.tree changes = (next, some e)) :
    ∃ t, exec update world s = (.error (.reindex e), t) ∧ t.isGit = true ∧
      t.stage = .ready ⟨next, snapshot.commit⟩ := by
  unfold update
  simp only [exec_bind, exec_get, exec_read, exec_enterStage, hgit, hstage, hchanges, hloud, hfew,
    hfollow, Bool.false_eq_true, if_false]
  exact ⟨_, rfl, rfl, rfl⟩

theorem exec_update_followed
    (hfollow : snapshot.index.follow .usual world.tree changes = (next, none)) :
    ∃ t, exec update world s = (.ok (), t) ∧ t.isGit = true ∧
      t.stage = .ready ⟨next.rebuild, Id.run (Git.head world.git)⟩ := by
  unfold update
  simp only [exec_bind, exec_get, exec_read, exec_note, exec_enterStage, hgit, hstage, hchanges,
    hloud, hfew, hfollow, Bool.false_eq_true, if_false]
  obtain ⟨t, hsave, hnext, hisGit⟩ := exec_saveCache world _
    ⟨next.rebuild, Id.run (Git.head world.git)⟩
  exact ⟨t, hsave, hisGit.trans rfl, hnext⟩

end Loud

/-- All that an update of an index can do: nothing, make the index anew, or follow the changes, up
to a file that cannot be entered or to the end. -/
theorem exec_update_outcome (world : World) (hstage : s.stage = .ready snapshot) :
    let changes := Id.run (changesSince? world.git snapshot.commit)
    let followed := snapshot.index.follow .usual world.tree changes
    ((s.isGit = false ∨ changes.isEmpty = true) ∧ exec update world s = (.ok (), s)) ∨
      s.isGit = true ∧ changes.isEmpty = false ∧
        ((areMany changes snapshot.index = true ∧
            ∃ t, exec update world s = exec build world t ∧ t.stage = s.stage ∧
              t.isGit = s.isGit) ∨
          areMany changes snapshot.index = false ∧
            ((∃ e t, followed.2 = some e ∧ exec update world s = (.error (.reindex e), t) ∧
                t.isGit = true ∧ t.stage = .ready ⟨followed.1, snapshot.commit⟩) ∨
              ∃ t, followed.2 = none ∧ exec update world s = (.ok (), t) ∧ t.isGit = true ∧
                t.stage = .ready ⟨followed.1.rebuild, Id.run (Git.head world.git)⟩)) := by
  intro changes followed
  by_cases hidle : s.isGit = false ∨ changes.isEmpty = true
  · exact Or.inl ⟨hidle, exec_update_idle hstage hidle⟩
  · rw [not_or, Bool.not_eq_false, Bool.not_eq_true] at hidle
    obtain ⟨hgit, hloud⟩ := hidle
    refine Or.inr ⟨hgit, hloud, ?_⟩
    cases hmany : areMany changes snapshot.index with
    | true => exact Or.inl ⟨rfl, exec_update_many hgit hstage rfl hloud hmany⟩
    | false =>
      refine Or.inr ⟨rfl, ?_⟩
      cases hfault : followed.2 with
      | some e =>
        obtain ⟨t, ht⟩ := exec_update_fault hgit hstage rfl hloud hmany (Prod.ext rfl hfault)
        exact Or.inl ⟨e, t, rfl, ht⟩
      | none =>
        obtain ⟨t, ht⟩ := exec_update_followed hgit hstage rfl hloud hmany (Prod.ext rfl hfault)
        exact Or.inr ⟨t, rfl, ht⟩

end Update

/-- An update with nothing to follow. -/
theorem exec_update_quiet (h : s.Holds index commit)
    (hquiet : (Id.run (changesSince world.git commit)).isEmpty = true) :
    exec update world s = (.ok (), s) :=
  exec_update_idle h.2 (Or.inr hquiet)

/-- An update with so many changes that the index is made anew. -/
theorem exec_update_build {next : Index} {head : String} (h : s.Holds index commit)
    (hloud : (Id.run (changesSince world.git commit)).isEmpty = false)
    (hmany : areMany (Id.run (changesSince world.git commit)) index = true)
    (hmade : Index.ofTree world.root .usual world.tree = .ok next)
    (hgit : Id.run (isWorkTree world.git) = true)
    (hhead : Id.run (Git.head world.git) = some head) :
    ∃ t, exec update world s = (.ok (), t) ∧ t.Holds next head := by
  obtain ⟨t, hbuild, -, -⟩ := exec_update_many h.1 h.2 rfl hloud hmany
  rw [hbuild]
  exact exec_build hmade hgit hhead

/-- An update that follows the changes. -/
theorem exec_update_follow {next : Index} {head : String} (h : s.Holds index commit)
    (hloud : (Id.run (changesSince world.git commit)).isEmpty = false)
    (hfew : areMany (Id.run (changesSince world.git commit)) index = false)
    (hfollow : index.follow .usual world.tree (Id.run (changesSince world.git commit)) =
      (next, none)) (hhead : Id.run (Git.head world.git) = some head) :
    ∃ t, exec update world s = (.ok (), t) ∧ t.Holds next.rebuild head := by
  obtain ⟨t, ht, hisGit, hstage⟩ := exec_update_followed h.1 h.2 rfl hloud hfew hfollow
  rw [hhead] at hstage
  exact ⟨t, ht, hisGit, hstage⟩

/-- An answer changes neither the index nor what it stands for. -/
theorem stage_ask (index : Index) (request : IndexRequest) :
    (exec (ask index request) world s).2.stage = s.stage ∧
      (exec (ask index request) world s).2.isGit = s.isGit := by
  unfold ask
  rw [exec_bind]
  cases index.reply request <;> exact ⟨rfl, rfl⟩

theorem stage_reportUsage (world : World) (s : Service) :
    (exec reportUsage world s).2.stage = s.stage ∧
      (exec reportUsage world s).2.isGit = s.isGit := by
  unfold reportUsage
  simp only [exec_bind, exec_get, exec_read]
  split <;> exact ⟨rfl, rfl⟩

/-- What a call does to the index once there was one to be seen to: it makes it anew, lets it be, or
updates it. What the answer is, and whether there is one, makes no difference. -/
theorem stage_perform_of_ensured (tool : String) (a : Arguments) {ensured : Service}
    (hensure : exec ensureIndex world s = (.ok (), ensured)) :
    let last := if tool = "reindex" then (exec build world ensured).2
      else if tool = Usage.reportTool then ensured else (exec update world ensured).2
    (exec (perform tool a) world s).2.stage = last.stage ∧
      (exec (perform tool a) world s).2.isGit = last.isGit := by
  unfold perform
  simp only [exec_bind, hensure, beq_iff_eq]
  by_cases htool : tool = "reindex"
  · simp only [htool, if_true, exec_bind]
    rcases exec build world ensured with ⟨_ | _, next⟩ <;> exact ⟨rfl, rfl⟩
  · by_cases hreport : tool = Usage.reportTool
    · simp only [if_neg htool, if_pos hreport]
      have hsame := stage_reportUsage world ensured
      revert hsame
      rcases exec reportUsage world ensured with ⟨_ | _, next⟩ <;> exact id
    · simp only [if_neg htool, if_neg hreport, exec_bind, exec_get]
      rcases exec update world ensured with ⟨_ | _, updated⟩
      · exact ⟨rfl, rfl⟩
      -- From here on the call only reads.
      · dsimp only
        cases updated.stage.answering? with
        | none => exact ⟨rfl, rfl⟩
        | some index =>
          dsimp only
          split
          · exact ⟨rfl, rfl⟩
          · exact ⟨rfl, rfl⟩
          · exact stage_ask index _

theorem stage_perform_of_not_ensured (tool : String) (a : Arguments) {e : CallFault}
    {failed : Service} (hensure : exec ensureIndex world s = (.error e, failed)) :
    (exec (perform tool a) world s).2 = failed := by
  unfold perform
  simp only [exec_bind, hensure]

/-- A call leaves the index as its work has left it, whether that failed or not. -/
theorem stage_call_eq (world : World) (s : Service) (tool : String) (a : Arguments) :
    let worked := exec (perform tool a) world { s with usage := s.usage.count tool, log := [] }
    (s.call world tool a).2.stage = worked.2.stage ∧
      (s.call world tool a).2.isGit = worked.2.isGit := by
  have hrun : ({ s with usage := s.usage.count tool } : Service).run world (perform tool a) =
      exec (perform tool a) world { s with usage := s.usage.count tool, log := [] } := rfl
  unfold call
  rw [hrun]
  rcases exec (perform tool a) world { s with usage := s.usage.count tool, log := [] } with
    ⟨_ | _, next⟩ <;> exact ⟨rfl, rfl⟩

/-- A call of a tool that asks a question leaves the index as the update has left it, whatever the
answer is. -/
theorem stage_call {tool : String} (htool : tool ≠ "reindex") (hreport : tool ≠ Usage.reportTool)
    (a : Arguments) {ensured updated : Service}
    (hensure : exec ensureIndex world { s with usage := s.usage.count tool, log := [] } =
      (.ok (), ensured))
    (hupdate : exec update world ensured = (.ok (), updated)) :
    (s.call world tool a).2.stage = updated.stage ∧
      (s.call world tool a).2.isGit = updated.isGit := by
  have hcall := stage_call_eq world s tool a
  have hperform := stage_perform_of_ensured tool a hensure
  simp only [if_neg htool, if_neg hreport, hupdate] at hperform
  exact ⟨hcall.1.trans hperform.1, hcall.2.trans hperform.2⟩

end Service

end SourceAtlas
