import SourceAtlas.Proofs.Upkeep

/-!
# How fresh the index is after a query

A project lies at the top of a git repository. Its files are edited, staged and committed, and in
between the service is asked questions. Before each answer the index follows what git reports, and
git compares with one commit, with the stage and with the work tree only. What the index has seen of
uncommitted work is not part of that: a file that was changed, seen and changed back is reported no
more.

`Memory` accounts for what the index has taken in of each file. The index holds exactly that along
every run (`Sound.after`). So a file is fresh after a query if and only if the query takes it in or
there was nothing new about it (`fresh_after_query_iff`).
-/

set_option autoImplicit false

namespace SourceAtlas

open Assoc Git

variable {since : Git.Contents} {change : Change} {index : Index}

/-! ## Runs -/

/-- A call of a tool, with the answers of git at that time and the paths that it ignores. -/
structure Query where
  tool : String
  arguments : Arguments
  git : List String → Outcome
  ignored : String → Bool
  now : Seconds

/-- What can happen: files of the work tree change, files are staged, the stage is committed under a
new name, or a question is asked. -/
inductive Event where
  | edit (tree : FileTree)
  | stage (files : Git.Contents)
  | commit (id : String)
  | query (q : Query)

/-- What an index has taken in: the files of the commit it stands for, and of each file the bytes it
has last seen. -/
structure Memory where
  since : Git.Contents
  known : String → Option (List UInt8)

/-- A repository, the service of its project, and an account of what the service has taken in, once
it has an index. -/
structure Scene where
  repo : Repository
  service : Service
  memory : Option Memory

/-- What is taken in when an index is made. -/
def Repository.built (r : Repository) : Memory :=
  ⟨r.headFiles, fun path => Index.sized (r.work.files.get? path)⟩

/-- What is taken in by following the reported changes: the bytes of a file that is reported as
modified or added and is there; the absence of one that is reported as deleted, but not as added. -/
def Memory.followed (m : Memory) (r : Repository) (ignored : String → Bool) : Memory where
  since := if r.reported m.since ignored = [] then m.since else r.headFiles
  known path :=
    if (.modified path ∈ r.reported m.since ignored ∨ .added path ∈ r.reported m.since ignored) ∧
        r.work.files.has path = true then
      r.work.files.get? path
    else if .deleted path ∈ r.reported m.since ignored ∧
        .added path ∉ r.reported m.since ignored then
      none
    else m.known path

namespace Scene

/-- A service that has not been asked yet, without a cache file. -/
def start (repo : Repository) (now : Seconds) : Scene := ⟨repo, .start now none, none⟩

/-- What the service sees when it is asked. -/
def world (root : String) (s : Scene) (q : Query) : World := ⟨root, s.repo.work, q.git, q.now⟩

/-- What the index has taken in when the changes are asked for. At the first query it was just
made. -/
def base (s : Scene) : Memory := s.memory.getD s.repo.built

/-- The query finds so many changes that the index is made anew. -/
def rebuilds (root : String) (s : Scene) (q : Query) : Bool :=
  match (Service.ensureIndex.exec (s.world root q) s.service).2.stage with
  | .ready ⟨index, some commit⟩ =>
    Service.areMany (Id.run (changesSince q.git commit)) index
  | _ => false

/-- The scene after an event. -/
def handle (root : String) (s : Scene) : Event → Scene
  | .edit tree => { s with repo := { s.repo with work := tree } }
  | .stage files => { s with repo := { s.repo with staged := files } }
  | .commit id =>
    { s with repo := { s.repo with commits := s.repo.commits.put id s.repo.staged, head := id } }
  | .query q =>
    { s with
      service := (s.service.call (s.world root q) q.tool q.arguments).2
      memory := some (if s.rebuilds root q then s.repo.built
        else s.base.followed s.repo q.ignored) }

/-- The scene after events. -/
def after (root : String) (s : Scene) (events : List Event) : Scene := events.foldl (handle root) s

/-- The event can happen: the work tree is one of readable files, names of commits are not used
again, and a query asks a question of the index while git is faithful. -/
def Allows (s : Scene) : Event → Prop
  | .edit tree => tree.Proper ∧ tree.Readable
  | .stage files => ∀ path ∈ files.keys, Path.Proper path
  | .commit id => id ∉ s.repo.commits.keys
  | .query q =>
    q.tool ≠ "reindex" ∧ q.tool ≠ Usage.reportTool ∧ Git.Faithful s.repo q.ignored q.git

/-- The events can happen one after the other. -/
def AllowsAll (root : String) (s : Scene) : List Event → Prop
  | [] => True
  | e :: events => s.Allows e ∧ (s.handle root e).AllowsAll root events

end Scene

/-! ## What the index knows -/

/-- All paths are proper. -/
structure Repository.Proper (r : Repository) : Prop where
  commits : ∀ id files, r.commits.get? id = some files → ∀ path ∈ files.keys, Path.Proper path
  staged : ∀ path ∈ r.staged.keys, Path.Proper path
  work : r.work.Proper

theorem Repository.Proper.headFiles {r : Repository} (h : r.Proper) :
    ∀ path ∈ r.headFiles.keys, Path.Proper path := by
  unfold Repository.headFiles
  cases hfiles : r.commits.get? r.head with
  | none => simp [keys]
  | some files => exact h.commits r.head files hfiles

/-- Comparisons report proper paths only. -/
theorem Repository.Proper.of_mem_compared {r : Repository} (h : r.Proper)
    (hsince : ∀ path ∈ since.keys, Path.Proper path) (hchange : change ∈ r.compared since) :
    Path.Proper change.path := by
  rw [compared, List.mem_append, List.mem_append] at hchange
  rcases hchange with (hc | hc) | hc
  · exact (path_mem_of_mem_differences hc).elim (hsince _) (h.headFiles _)
  · have hmem := path_mem_of_mem_differences (List.mem_filter.1 hc).1
    exact hmem.elim (h.staged _) (h.work.files _)
  · exact (path_mem_of_mem_differences hc).elim (h.headFiles _) (h.staged _)

/-- All paths are proper, the head is a commit, and the files of the work tree can be read. -/
structure Repository.Sound (r : Repository) : Prop extends r.Proper where
  head : r.head ∈ r.commits.keys
  readable : r.work.Readable

namespace Repository

variable {r : Repository}

theorem Sound.get?_head (h : r.Sound) : r.commits.get? r.head = some r.headFiles := by
  obtain ⟨files, hfiles⟩ := mem_keys_iff.1 h.head
  rw [headFiles, hfiles, Option.getD_some]

/-- Only proper paths are reported. -/
theorem Sound.proper_of_mem_reported (h : r.Sound) (hsince : ∀ path ∈ since.keys, Path.Proper path)
    {ignored : String → Bool} (hchange : change ∈ r.reported since ignored) :
    Path.Proper change.path := by
  rw [reported, List.mem_append, List.mem_map] at hchange
  rcases hchange with hc | ⟨path, hpath, rfl⟩
  · exact h.toProper.of_mem_compared hsince hc
  · exact h.work.files path (by simpa using (List.mem_filter.1 hpath).1)

/-! ### What a report takes in -/

/-- The reports show how a file stands now: it is there, and the commit, the head or the stage has
other bytes or none; or it is not there, the commit has it, and it is not staged again while the
head is without it. -/
def notices (r : Repository) (since : Git.Contents) (path : String) : Bool :=
  match r.work.files.get? path with
  | some bytes => !(since.get? path == some bytes && r.headFiles.get? path == some bytes &&
      r.staged.get? path == some bytes)
  | none => since.has path && (r.headFiles.has path || !r.staged.has path)

theorem mem_reported_iff {ignored : String → Bool} :
    change ∈ r.reported since ignored ↔
      difference? since r.headFiles change.path = some change ∨
      (difference? r.staged r.work.files change.path = some change ∧
        r.staged.has change.path = true) ∨
      difference? r.headFiles r.staged change.path = some change ∨
      (change = .added change.path ∧ r.work.files.has change.path = true ∧
        r.staged.has change.path = false ∧ ignored change.path = false) := by
  simp only [reported, compared, unstaged, untracked, List.mem_append, List.mem_filter,
    mem_differences, List.mem_map, List.mem_eraseDups, ← has_iff_mem_keys, or_assoc,
    Bool.and_eq_true, Bool.not_eq_true']
  refine or_congr_right (or_congr_right (or_congr_right ⟨?_, fun h => ⟨_, h.2, h.1.symm⟩⟩))
  rintro ⟨path, h, rfl⟩
  exact ⟨rfl, h⟩

section Noticed

variable {r : Repository} {ignored : String → Bool} {path : String}
variable {bytes : List UInt8}

/-- No report names a file that has the same bytes everywhere. -/
theorem not_mem_reported (hwork : r.work.files.get? path = some bytes)
    (hsince : since.get? path = some bytes) (hhead : r.headFiles.get? path = some bytes)
    (hstaged : r.staged.get? path = some bytes) (hchange : change.path = path) :
    change ∉ r.reported since ignored := by
  subst hchange
  rw [mem_reported_iff]
  simp [difference?, hwork, hsince, hhead, hstaged, has_eq_isSome]

theorem notices_of_present (hwork : r.work.files.get? path = some bytes) :
    r.notices since path = true ↔ ¬ (since.get? path = some bytes ∧
      r.headFiles.get? path = some bytes ∧ r.staged.get? path = some bytes) := by
  simp only [notices, hwork, Bool.not_eq_true', ← Bool.not_eq_true, Bool.and_eq_true, beq_iff_eq,
    and_assoc]

theorem notices_of_absent (hwork : r.work.files.get? path = none) :
    r.notices since path = true ↔
      since.has path = true ∧ (r.headFiles.has path = true ∨ r.staged.has path = false) := by
  simp [notices, hwork]

/-- Of a file that is there, some report names it as modified or added, or none names it at all. -/
theorem reported_of_present (hpath : ignored path = false)
    (hwork : r.work.files.get? path = some bytes) (since : Git.Contents) :
    ((.modified path ∈ r.reported since ignored ∨ .added path ∈ r.reported since ignored) ↔
        r.notices since path = true) ∧
      (.deleted path ∈ r.reported since ignored → r.notices since path = true) := by
  rw [notices_of_present hwork]
  refine ⟨⟨?_, ?_⟩, fun hdeleted hsame => ?_⟩
  · rintro (hmodified | hadded) ⟨hsince, hhead, hstaged⟩
    · exact not_mem_reported hwork hsince hhead hstaged rfl hmodified
    · exact not_mem_reported hwork hsince hhead hstaged rfl hadded
  · intro hdiffer
    simp only [mem_reported_iff, Change.path]
    -- The last of the states to differ from the work tree is the one that a report shows.
    by_cases hstaged : r.staged.get? path = some bytes
    · by_cases hhead : r.headFiles.get? path = some bytes
      · have hsince : since.get? path ≠ some bytes := fun h => hdiffer ⟨h, hhead, hstaged⟩
        exact (difference?_of_ne hhead hsince).imp Or.inl Or.inl
      · exact (difference?_of_ne hstaged hhead).imp (fun h => Or.inr (Or.inr (Or.inl h)))
          fun h => Or.inr (Or.inr (Or.inl h))
    · cases htracked : r.staged.has path with
      | true =>
        exact (difference?_of_ne hwork hstaged).imp (fun h => Or.inr (Or.inl ⟨h, rfl⟩))
          fun h => Or.inr (Or.inl ⟨h, rfl⟩)
      | false =>
        have hthere : r.work.files.has path = true := has_iff_exists.2 ⟨bytes, hwork⟩
        exact Or.inr (Or.inr (Or.inr (Or.inr ⟨trivial, hthere, rfl, hpath⟩)))
  · obtain ⟨hsince, hhead, hstaged⟩ := hsame
    exact not_mem_reported hwork hsince hhead hstaged rfl hdeleted

/-- A file that is not there is taken for deleted unless some report names it as added. -/
theorem reported_of_absent (hwork : r.work.files.get? path = none) (since : Git.Contents) :
    (.deleted path ∈ r.reported since ignored ∧ .added path ∉ r.reported since ignored) ↔
      r.notices since path = true := by
  have habsent : r.work.files.has path = false := has_eq_false_iff.2 hwork
  rw [notices_of_absent hwork]
  simp only [mem_reported_iff, Change.path, difference?_eq_added_iff,
    difference?_eq_deleted_iff, habsent]
  cases since.has path <;> cases r.headFiles.has path <;> cases r.staged.has path <;> simp

end Noticed

end Repository

/-- Of a file that is not ignored, the index takes in what is noticed. -/
theorem Memory.known_followed (m : Memory) (r : Repository) {ignored : String → Bool}
    {path : String} (hpath : ignored path = false) :
    (m.followed r ignored).known path =
      if r.notices m.since path then r.work.files.get? path else m.known path := by
  simp only [followed, has_eq_isSome]
  rcases Option.eq_none_or_eq_some (r.work.files.get? path) with hwork | ⟨bytes, hwork⟩
  · simp only [hwork, Option.isSome_none, Bool.false_eq_true, and_false, if_false,
      Repository.reported_of_absent hwork]
  · have htaken := Repository.reported_of_present hpath hwork m.since
    simp only [hwork, Option.isSome_some, and_true, htaken.1]
    by_cases hnotices : r.notices m.since path = true
    · rw [if_pos hnotices, if_pos hnotices]
    · rw [if_neg hnotices, if_neg hnotices, if_neg fun h => hnotices (htaken.2 h.1)]

/-- The path is one that an update takes. -/
def InScope (path : String) : Prop :=
  Settings.usual.isIncluded path = true ∧ Settings.usual.isExcluded path = false

instance (path : String) : Decidable (InScope path) := inferInstanceAs (Decidable (_ ∧ _))

/-- The index stands for a commit of the repository and holds of the files in scope what was taken
in. -/
structure Index.Knows (index : Index) (root commit : String) (repo : Repository) (m : Memory) :
    Prop where
  root_eq : index.root = root
  since : repo.commits.get? commit = some m.since
  files : ∀ path, InScope path → index.files.get? path = Outline.ofFile? path (m.known path)

/-- The scene is as a run leaves it: there is no index yet, or the index knows what was taken in. -/
structure Scene.Sound (root : String) (s : Scene) : Prop where
  repo : s.repo.Sound
  service : match s.memory with
    | none => s.service.stage = .unbuilt ∧ s.service.cache = none
    | some m => ∃ index commit, s.service.Holds index commit ∧ index.Knows root commit s.repo m

namespace Scene

open Service

variable {root : String} {s : Scene} {q : Query}
variable {m : Memory} {repo : Repository}

/-- An index that is made knows what there is. -/
theorem exists_built (root : String) (hrepo : s.repo.Sound) :
    ∃ index, Index.ofTree root .usual s.repo.work = .ok index ∧
      index.Knows root s.repo.head s.repo s.repo.built := by
  obtain ⟨index, hmade, hroot, hfiles⟩ :=
    Index.get?_files_usual root hrepo.work hrepo.readable
  exact ⟨index, hmade, hroot, hrepo.get?_head, fun path hpath => hfiles path hpath.1 hpath.2⟩

/-- When the changes are asked for there is an index. Which one it is depends neither on the log nor
on the usage so far. -/
theorem Sound.exec_ensureIndex (h : s.Sound root)
    (hgit : Git.Faithful s.repo q.ignored q.git) :
    ∃ index commit, index.Knows root commit s.repo s.base ∧
      ∀ t : Service, t.stage = s.service.stage → t.isGit = s.service.isGit →
        t.cache = s.service.cache →
        ∃ next, ensureIndex.exec (s.world root q) t = (.ok (), next) ∧ next.Holds index commit := by
  have hservice := h.service
  cases hmemory : s.memory with
  | none =>
    rw [hmemory] at hservice
    obtain ⟨index, hmade, hknows⟩ := exists_built root h.repo
    refine ⟨index, s.repo.head, by simpa [base, hmemory] using hknows, ?_⟩
    intro t hstage _ hcache
    exact exec_ensureIndex_unbuilt (hstage.trans hservice.1) (hcache.trans hservice.2) hmade
      hgit.isWorkTree hgit.head_eq
  -- The index that there is stays, with its commit.
  | some m =>
    rw [hmemory] at hservice
    obtain ⟨index, commit, hholds, hknows⟩ := hservice
    refine ⟨index, commit, by simpa [base, hmemory] using hknows, ?_⟩
    intro t hstage hisGit _
    have ht : t.Holds index commit := ⟨hisGit.trans hholds.1, hstage.trans hholds.2⟩
    exact ⟨t, exec_ensureIndex_ready ht, ht⟩

/-- Following the reports takes in what they say. -/
theorem knows_follow (hroot : Path.IsRoot root) (hrepo : s.repo.Sound)
    (hgit : Git.Faithful s.repo q.ignored q.git) {commit : String}
    (hknows : index.Knows root commit s.repo m) (hloud : s.repo.reported m.since q.ignored ≠ []) :
    ∃ next, index.follow .usual s.repo.work (Id.run (changesSince q.git commit)) =
        (next, none) ∧
      next.rebuild.Knows root s.repo.head s.repo (m.followed s.repo q.ignored) := by
  obtain ⟨found, hfound, hmem⟩ := hgit.changesSince hknows.since
  have hsince := hrepo.commits _ _ hknows.since
  have hproper : ∀ change ∈ found, Path.Proper change.path :=
    fun change hchange => hrepo.proper_of_mem_reported hsince ((hmem change).1 hchange)
  have hroot' : Path.IsRoot index.root := hknows.root_eq.symm ▸ hroot
  obtain ⟨next, hfollow, hsame, hfiles⟩ := Index.files_follow hroot' hrepo.work
    ((Changes.proper_collect hproper).keyed hroot') fun path _ _ _ => hrepo.readable path
  rw [hfound]
  refine ⟨next, hfollow, hsame.trans hknows.root_eq, ?_, fun path hpath => ?_⟩
  · rw [hrepo.get?_head, Memory.followed, if_neg hloud]
  · show next.files.get? path = _
    rw [hfiles path, hknows.files path hpath]
    simp only [Changes.Enters, hpath.1, hpath.2, true_and, ← has_iff_mem_keys,
      Memory.followed, mem_modified_or_added_iff, (mem_collectChanges found path).2.2,
      hmem]
    split
    · rfl
    · split <;> rfl

/-- An update takes in everything anew, or what the reports say. -/
theorem exec_update_knows (hroot : Path.IsRoot root) (hrepo : s.repo.Sound)
    (hgit : Git.Faithful s.repo q.ignored q.git) {t : Service} {commit : String}
    (hholds : t.Holds index commit) (hknows : index.Knows root commit s.repo m) :
    ∃ next index' commit', update.exec (s.world root q) t = (.ok (), next) ∧
      next.Holds index' commit' ∧
      index'.Knows root commit' s.repo
        (if areMany (Id.run (changesSince q.git commit)) index then s.repo.built
          else m.followed s.repo q.ignored) := by
  obtain ⟨found, hfound, hmem⟩ := hgit.changesSince hknows.since
  have hempty : (Id.run (changesSince q.git commit)).isEmpty = true ↔
      s.repo.reported m.since q.ignored = [] := by
    rw [hfound, isEmpty_collectChanges_iff, List.eq_nil_iff_forall_not_mem]
    simp only [hmem]
  by_cases hquiet : s.repo.reported m.since q.ignored = []
  -- Without reports the index stays as it is.
  · have hfew := areMany_eq_false_of_isEmpty (hempty.2 hquiet) index
    have hsame : m.followed s.repo q.ignored = m := by simp [Memory.followed, hquiet]
    rw [hfew, if_neg Bool.false_ne_true, hsame]
    exact ⟨t, index, commit, exec_update_quiet hholds (hempty.2 hquiet), hholds, hknows⟩
  have hloud := Bool.eq_false_iff.2 (mt hempty.1 hquiet)
  cases hmany : areMany (Id.run (changesSince q.git commit)) index with
  | true =>
    obtain ⟨made, hmade, hnew⟩ := exists_built root hrepo
    have hbuild : ∃ next, update.exec (s.world root q) t = (.ok (), next) ∧
        next.Holds made s.repo.head :=
      exec_update_build hholds hloud hmany hmade hgit.isWorkTree hgit.head_eq
    obtain ⟨next, hnext, hnextHolds⟩ := hbuild
    exact ⟨next, made, s.repo.head, hnext, hnextHolds, hnew⟩
  | false =>
    obtain ⟨followed, hfollow, hnew⟩ := knows_follow hroot hrepo hgit hknows hquiet
    have hupdate : ∃ next, update.exec (s.world root q) t = (.ok (), next) ∧
        next.Holds followed.rebuild s.repo.head :=
      exec_update_follow hholds hloud hmany hfollow hgit.head_eq
    obtain ⟨next, hnext, hnextHolds⟩ := hupdate
    exact ⟨next, followed.rebuild, s.repo.head, hnext, hnextHolds, hnew⟩

/-- A query leaves an index that knows what was taken in. -/
theorem Sound.knows_query (hroot : Path.IsRoot root) (h : s.Sound root) (hq : s.Allows (.query q))
    (hm : (s.handle root (.query q)).memory = some m) :
    ∃ index commit, (s.handle root (.query q)).service.Holds index commit ∧
      index.Knows root commit s.repo m := by
  obtain ⟨htool, hreport, hgit⟩ := hq
  obtain ⟨index, commit, hknows, hensure⟩ := h.exec_ensureIndex hgit
  obtain ⟨ensured, hensured, hholds⟩ :=
    hensure { s.service with usage := s.service.usage.count q.tool, log := [] } rfl rfl rfl
  obtain ⟨updated, index', commit', hupdated, hholds', hknows'⟩ :=
    exec_update_knows hroot h.repo hgit hholds hknows
  -- The call starts with another log and usage, but with the same index.
  have hrebuilds : s.rebuilds root q =
      areMany (Id.run (changesSince q.git commit)) index := by
    obtain ⟨same, hsame, hready⟩ := hensure s.service rfl rfl rfl
    rw [rebuilds, hsame, hready.2]
  obtain ⟨hstage, hisGit⟩ := stage_call htool hreport q.arguments hensured hupdated
  obtain rfl := Option.some.inj hm
  refine ⟨index', commit', ⟨hisGit.trans hholds'.1, hstage.trans hholds'.2⟩, ?_⟩
  rwa [hrebuilds]

/-- What happens to a repository changes nothing in what an index knows, as long as the commits stay
as they are. -/
theorem Sound.withRepo (h : s.Sound root) (hrepo : repo.Sound)
    (hkept : ∀ id files, s.repo.commits.get? id = some files →
      repo.commits.get? id = some files) : ({ s with repo } : Scene).Sound root := by
  refine ⟨hrepo, ?_⟩
  have hservice := h.service
  revert hservice
  cases s.memory with
  | none => exact id
  | some m =>
    rintro ⟨index, commit, hholds, hknows⟩
    exact ⟨index, commit, hholds, hknows.root_eq, hkept _ _ hknows.since, hknows.files⟩

/-- **Every event keeps a scene sound.** -/
theorem Sound.handle (hroot : Path.IsRoot root) (h : s.Sound root) {e : Event}
    (he : s.Allows e) : (s.handle root e).Sound root := by
  have hrepo := h.repo
  cases e with
  | edit tree =>
    exact h.withRepo ⟨⟨hrepo.commits, hrepo.staged, he.1⟩, hrepo.head, he.2⟩ fun _ _ => id
  | stage files =>
    exact h.withRepo ⟨⟨hrepo.commits, he, hrepo.work⟩, hrepo.head, hrepo.readable⟩ fun _ _ => id
  | commit id =>
    refine h.withRepo ⟨⟨?_, hrepo.staged, hrepo.work⟩, ?_, hrepo.readable⟩
      fun other files hother => ?_
    · intro other files hother
      rw [get?_put] at hother
      split at hother
      · exact Option.some.inj hother ▸ hrepo.staged
      · exact hrepo.commits other files hother
    · exact mem_keys_iff.2 ⟨s.repo.staged, by simp [get?_put]⟩
    -- A name that is not used again leaves the older commits as they were.
    · have hne : other ≠ id := by
        rintro rfl
        exact he (mem_keys_iff.2 ⟨files, hother⟩)
      simpa [get?_put, hne] using hother
  | query q => exact ⟨hrepo, h.knows_query hroot he rfl⟩

/-- What a run keeps. -/
theorem Sound.after (hroot : Path.IsRoot root) {events : List Event} (h : s.Sound root)
    (hrun : s.AllowsAll root events) : (s.after root events).Sound root := by
  induction events generalizing s with
  | nil => exact h
  | cons e events ih => exact ih (h.handle hroot hrun.1) hrun.2

theorem sound_start (h : repo.Sound) (root : String) (now : Seconds) :
    (start repo now).Sound root := ⟨h, rfl, rfl⟩

end Scene

/-! ## Fresh files -/

namespace Index

/-- The index holds the file if and only if it is there, and then its present outline. -/
def Fresh (index : Index) (tree : FileTree) (path : String) : Prop :=
  (path ∈ index.files.keys ↔ path ∈ tree.files.keys) ∧
    ∀ bytes, tree.files.get? path = some bytes →
      ∃ o, Outline.ofBytes bytes path = .ok o ∧ index.files.get? path = some o

theorem fresh_iff {tree : FileTree} (hread : tree.Readable) {path : String} :
    index.Fresh tree path ↔
      index.files.get? path = Outline.ofFile? path (tree.files.get? path) := by
  rw [Fresh, ← has_iff_mem_keys, ← has_iff_mem_keys, has_eq_isSome,
    has_eq_isSome]
  cases hbytes : tree.files.get? path with
  | none => simp [Outline.ofFile?]
  | some bytes =>
    obtain ⟨o, ho⟩ := hread path bytes hbytes
    simp +contextual [Outline.ofFile?, ho, Except.toOption]

theorem sized_eq {file : Option (List UInt8)}
    (h : ∀ bytes ∈ file, (bytes.length : Int) ≤ Settings.usualMaxSize) :
    sized file = file := by
  cases file with
  | none => rfl
  | some bytes => simpa [sized, Option.filter_eq_some_iff] using h bytes rfl

end Index

/-- **After every query there is an index, and it tells which files it has fresh.** It has a file
fresh if and only if the query makes the index anew, or git's reports show how the file stands now,
or what was last taken in of it is what there is. So a file that was changed, taken in and changed
back, with the same bytes in the commit, the head and the stage, is stale. -/
theorem Scene.fresh_after_query_iff {root : String} (hroot : Path.IsRoot root) {repo : Repository}
    (hrepo : repo.Sound) (now : Seconds) {events : List Event}
    (hrun : (start repo now).AllowsAll root events) {s : Scene}
    (hs : (start repo now).after root events = s) {q : Query} (hq : s.Allows (.query q)) :
    ∃ index commit, (s.handle root (.query q)).service.stage = .ready ⟨index, some commit⟩ ∧
      ∀ path, InScope path → q.ignored path = false →
        (∀ bytes ∈ s.repo.work.files.get? path, (bytes.length : Int) ≤ Settings.usualMaxSize) →
        (index.Fresh s.repo.work path ↔
          s.rebuilds root q = true ∨ s.repo.notices s.base.since path = true ∨
            Outline.ofFile? path (s.base.known path) =
              Outline.ofFile? path (s.repo.work.files.get? path)) := by
  have hsound : s.Sound root := hs ▸ (sound_start hrepo root now).after hroot hrun
  obtain ⟨index, commit, hholds, hknows⟩ := hsound.knows_query hroot hq rfl
  refine ⟨index, commit, hholds.2, fun path hscope hignored hsize => ?_⟩
  rw [Index.fresh_iff hsound.repo.readable, hknows.files path hscope]
  cases hrebuilds : s.rebuilds root q with
  | true => simp [Repository.built, Index.sized_eq hsize]
  | false =>
    rw [if_neg Bool.false_ne_true, Memory.known_followed _ _ hignored]
    cases s.repo.notices s.base.since path <;> simp

/-! ## A file that is changed back -/

theorem Stage.eq_ready_of_current? {stage : Stage} {snapshot : Snapshot}
    (h : stage.current? = some snapshot) : stage = .ready snapshot := by
  cases stage <;> simp_all [current?]

namespace Scene

/-- One file is committed and staged; the work tree holds these texts. -/
def oneCommit (texts : List (String × String)) : Repository :=
  let files := [("pkg/a.py", Text.toBytes "x = 1\n")]
  ⟨[("c0", files)], "c0", files, .ofTexts texts⟩

/-- Asks for the list of files, where git ignores none. -/
def listing (r : Repository) : Query :=
  ⟨"list_files", ⟨[]⟩, r.git fun _ => false, fun _ => false, .whole 0⟩

/-- The text of the committed file. -/
def original : List (String × String) := [("pkg/a.py", "x = 1\n")]

/-- The file with another line. -/
def longer : List (String × String) := [("pkg/a.py", "x = 1\ny = 2\n")]

/-- The file is indexed, changed, and indexed again. -/
def changed : List Event :=
  [.query (listing (oneCommit original)), .edit (.ofTexts longer),
    .query (listing (oneCommit longer))]

/-- The service of the project before it is asked. -/
def atStart : Scene := start (oneCommit original) (.whole 0)

theorem allows_listing {s : Scene} (h : s.repo.Plain) : s.Allows (.query (listing s.repo)) :=
  ⟨show "list_files" ≠ "reindex" by decide, show "list_files" ≠ Usage.reportTool by decide,
    Repository.faithful_git h _⟩

theorem allows_edit {s : Scene} {tree : FileTree} (hproper : tree.Proper)
    (hread : ∀ e ∈ tree.files, (Outline.ofBytes e.2 e.1).isOk = true) : s.Allows (.edit tree) :=
  ⟨hproper, FileTree.readable_of_forall hread⟩

theorem allowsAll_changed {more : List Event}
    (hmore : (atStart.after "/project" changed).AllowsAll "/project" more) :
    atStart.AllowsAll "/project" (changed ++ more) :=
  ⟨allows_listing (by decide +kernel), allows_edit (by decide +kernel) (by decide +kernel),
    allows_listing (by decide +kernel), hmore⟩

/-- The changed file is changed back, and the list of files is asked for. -/
def changedBack : List Event :=
  changed ++ [.edit (.ofTexts original), .query (listing (oneCommit original))]

/-- A file that is changed back after it was indexed is not indexed again: the index still has two
lines of it. -/
theorem stale_after_changed_back :
    atStart.AllowsAll "/project" changedBack ∧ InScope "pkg/a.py" ∧
      ∃ s index commit, atStart.after "/project" changedBack = s ∧
        s.service.stage = .ready ⟨index, some commit⟩ ∧
        s.repo.work.files.get? "pkg/a.py" = some (Text.toBytes "x = 1\n") ∧
        (index.files.get? "pkg/a.py").map Outline.totalLines = some 2 ∧
        ¬ index.Fresh s.repo.work "pkg/a.py" := by
  refine ⟨allowsAll_changed ⟨allows_edit (by decide +kernel) (by decide +kernel),
    allows_listing (by decide +kernel), trivial⟩, by decide +kernel, ?_⟩
  have hview : (atStart.after "/project" changedBack).service.stage.current?.map
      (fun snapshot => (snapshot.commit,
        (snapshot.index.files.get? "pkg/a.py").map Outline.totalLines)) =
      some (some "c0", some 2) := by
    decide +kernel
  obtain ⟨⟨index, commit⟩, hcurrent, hseen⟩ := Option.map_eq_some_iff.1 hview
  obtain ⟨rfl, hlines⟩ := Prod.mk.inj hseen
  refine ⟨_, index, "c0", rfl, Stage.eq_ready_of_current? hcurrent, by decide +kernel, hlines, ?_⟩
  rintro ⟨-, hfresh⟩
  obtain ⟨o, ho, hget⟩ := hfresh (Text.toBytes "x = 1\n") (by decide +kernel)
  have hone : (Outline.ofBytes (Text.toBytes "x = 1\n") "pkg/a.py").toOption.map
      Outline.totalLines = some 1 := by decide +kernel
  simp [ho, hget, Except.toOption] at hone hlines
  omega

/-- The file as it was committed, and another file. -/
def originalAndNew : List (String × String) := original ++ [("pkg/b.py", "z = 3\n")]

theorem sound_oneCommit : (oneCommit original).Sound where
  commits id files hid := by
    have hall : ∀ e ∈ (oneCommit original).commits, ∀ path ∈ e.2.keys, Path.Proper path := by
      decide +kernel
    exact hall _ (mem_of_get? hid)
  head := by decide +kernel
  staged := by decide +kernel
  work := by decide +kernel
  readable := FileTree.readable_of_forall (by decide +kernel)

/-- The changed file is changed back, and another one is created. Both can be told apart by what was
taken in. -/
theorem fresh_new_beside_stale :
    ∃ s index commit,
      atStart.AllowsAll "/project" (changed ++ [.edit (.ofTexts originalAndNew)]) ∧
      atStart.after "/project" (changed ++ [.edit (.ofTexts originalAndNew)]) = s ∧
      s.Allows (.query (listing s.repo)) ∧
      (s.handle "/project" (.query (listing s.repo))).service.stage =
        .ready ⟨index, some commit⟩ ∧
      index.Fresh s.repo.work "pkg/b.py" ∧ ¬ index.Fresh s.repo.work "pkg/a.py" := by
  have hrun : atStart.AllowsAll "/project" (changed ++ [.edit (.ofTexts originalAndNew)]) :=
    allowsAll_changed ⟨allows_edit (by decide +kernel) (by decide +kernel), trivial⟩
  have hq : (atStart.after "/project" (changed ++ [.edit (.ofTexts originalAndNew)])).Allows
      (.query (listing (oneCommit originalAndNew))) := allows_listing (by decide +kernel)
  obtain ⟨index, commit, hstage, hfresh⟩ :=
    fresh_after_query_iff Path.isRoot_project sound_oneCommit (.whole 0) hrun rfl hq
  refine ⟨_, index, commit, hrun, rfl, hq, hstage, ?_, ?_⟩
  · exact (hfresh "pkg/b.py" (by decide +kernel) rfl (by decide +kernel)).2
      (Or.inr (Or.inl (by decide +kernel)))
  · refine mt (hfresh "pkg/a.py" (by decide +kernel) rfl (by decide +kernel)).1 ?_
    rintro (hrebuilds | hnotices | hsame)
    · exact absurd hrebuilds (by decide +kernel)
    · exact absurd hnotices (by decide +kernel)
    · exact absurd (congrArg (Option.map Outline.totalLines) hsame) (by decide +kernel)

end Scene

end SourceAtlas
