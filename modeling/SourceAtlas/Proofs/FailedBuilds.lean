import SourceAtlas.Proofs.FailedReindex
import SourceAtlas.Proofs.Upkeep

/-!
# What a failed build leaves

A service that has been asked should keep one index, and answer from that index
(`Stage.Coherent`). A build that fails breaks this: the service has no index to keep up to date any
more, and goes on to answer from the one it had before.

`coherent_after_calls` is the law of all runs. After any calls the service is coherent unless one of
them tried a build that failed and none of the later ones made the index anew by `reindex`. Until
then every other call finds the service as it is and leaves it so, whatever has changed in the
files.
-/

set_option autoImplicit false

namespace SourceAtlas

namespace Stage

/-- If the service has begun to build, it keeps an index, and if it answers, then from that one. -/
def Coherent (stage : Stage) : Prop :=
  (stage ≠ .unbuilt → stage.current?.isSome = true) ∧
    ∀ index, stage.answering? = some index → stage.current?.map Snapshot.index = some index

theorem coherent_unbuilt : Coherent .unbuilt :=
  ⟨fun h => absurd rfl h, fun _ h => by cases h⟩

theorem coherent_ready (snapshot : Snapshot) : Coherent (.ready snapshot) :=
  ⟨fun _ => rfl, fun _ h => h⟩

theorem not_coherent_failed (kept : Option Index) : ¬ Coherent (.failed kept) :=
  fun h => absurd (h.1 (fun h => by cases h)) Bool.false_ne_true

theorem not_coherent_iff {stage : Stage} : ¬ stage.Coherent ↔ ∃ kept, stage = .failed kept := by
  constructor
  · intro h
    cases stage with
    | unbuilt => exact absurd coherent_unbuilt h
    | failed kept => exact ⟨kept, rfl⟩
    | ready snapshot => exact absurd (coherent_ready snapshot) h
  · rintro ⟨kept, rfl⟩
    exact not_coherent_failed kept

end Stage

/-! ## Builds that fail -/

/-- No index can be made of the files as they are. -/
def World.Unindexable (world : World) : Prop :=
  ∃ e, Index.ofTree world.root .usual world.tree = .error e

theorem World.exists_index_of_not_unindexable {world : World} (h : ¬ world.Unindexable) :
    ∃ index, Index.ofTree world.root .usual world.tree = .ok index := by
  cases hmade : Index.ofTree world.root .usual world.tree with
  | error e => exact absurd ⟨e, hmade⟩ h
  | ok index => exact ⟨index, rfl⟩

/-- One file without an outline is enough. -/
theorem World.unindexable_of_file {world : World} {found : List Settings.Discovered}
    {d : Settings.Discovered} {bytes : List UInt8} {cause : OutlineError}
    (hfound : Settings.usual.discover world.tree = .ok found) (hd : d ∈ found)
    (hbytes : world.tree.files.get? d.key = some bytes)
    (herror : Outline.ofBytes bytes d.key = .error cause) : world.Unindexable := by
  cases hmade : Index.ofTree world.root .usual world.tree with
  | error e => exact ⟨e, hmade⟩
  | ok index =>
    obtain ⟨others, hothers, houtlines, -⟩ := Index.ofTree_eq_ok hmade
    obtain rfl := Except.ok.inj (hfound.symm.trans hothers)
    obtain ⟨hkeys, hread⟩ := Index.outlines_eq_ok houtlines
    -- An index has an outline of every file that was found.
    have hkey : d.key ∈ (Index.taken .usual world.tree).map Prod.fst :=
      hkeys ▸ List.mem_map_of_mem hd
    obtain ⟨⟨key, o⟩, hmem, rfl⟩ := List.mem_map.1 hkey
    have hok := hread _ hmem
    rw [hbytes, Option.getD_some, herror] at hok
    cases hok

/-! ## Calls -/

/-- A call of a tool in a world. -/
structure Call where
  world : World
  tool : String
  arguments : Arguments

/-- The changes since the commit of the snapshot make the call build the index anew. -/
def Snapshot.outrun (snapshot : Snapshot) (c : Call) : Bool :=
  c.tool != Usage.reportTool &&
    Service.areMany (Id.run (Git.changesSince? c.world.git snapshot.commit)) snapshot.index

namespace Service

open Work

variable {snapshot : Snapshot} {kept : Option Index}

/-- The service after a call. -/
def after (s : Service) (c : Call) : Service := (s.call c.world c.tool c.arguments).2

/-- The service after calls. -/
def afterAll (s : Service) (calls : List Call) : Service := calls.foldl after s

theorem afterAll_concat (s : Service) (calls : List Call) (c : Call) :
    s.afterAll (calls ++ [c]) = (s.afterAll calls).after c := by
  rw [afterAll, List.foldl_append]
  rfl

/-- Few enough changes are known since a commit for an index of that commit to be of use. -/
def isNear (world : World) (commit : String) : Bool :=
  let changes := Id.run (Git.changesSince world.git commit)
  Id.run (Git.head world.git) == some commit || !changes.isEmpty && changes.size ≤ fewChanges

/-- The snapshot in the cache file, if the first call can do with it. -/
def adopted? (s : Service) (world : World) : Option Snapshot :=
  (s.cached? world).bind fun snapshot => snapshot.commit.bind fun commit =>
    if Id.run (Git.isWorkTree world.git) && commit != "" && isNear world commit then some snapshot
    else none

/-- The call tries to build the index. -/
def attempts (s : Service) (c : Call) : Bool :=
  c.tool == "reindex" ||
    match s.stage with
    | .unbuilt =>
      match s.adopted? c.world with
      | none => true
      | some snapshot => snapshot.outrun c
    | .failed _ => false
    | .ready snapshot => s.isGit && snapshot.outrun c

variable {world : World} {s : Service}

/-! ## One call -/

/-- A snapshot that is near is taken over. -/
theorem exec_adopt_near {commit : String} (hnear : isNear world commit = true) (s : Service)
    (snapshot : Snapshot) :
    ∃ t, exec (adopt snapshot commit) world s = (.ok (), t) ∧ t.stage = .ready snapshot ∧
      t.isGit = s.isGit := by
  unfold isNear at hnear
  unfold adopt
  simp only [exec_bind, exec_read]
  cases hhead : Id.run (Git.head world.git) == some commit with
  | true =>
    simp only [if_true, exec_bind, exec_note]
    exact ⟨_, rfl, rfl, rfl⟩
  | false =>
    rw [hhead, Bool.false_or] at hnear
    simp only [hnear, Bool.false_eq_true, if_false, if_true, exec_bind, exec_note]
    exact ⟨_, rfl, rfl, rfl⟩

theorem exec_adopt_far {commit : String} (hfar : isNear world commit = false) (s : Service)
    (snapshot : Snapshot) :
    ∃ t, exec (adopt snapshot commit) world s = exec build world t := by
  unfold isNear at hfar
  obtain ⟨hhead, hmany⟩ := Bool.or_eq_false_iff.1 hfar
  unfold adopt
  simp only [exec_bind, exec_read, hhead, hmany, Bool.false_eq_true, if_false, exec_note]
  exact ⟨_, rfl⟩

/-- The first call takes the index from the cache file, or else builds it. -/
theorem exec_ensureIndex_outcome (world : World) (hstage : s.stage = .unbuilt) :
    (s.adopted? world = none ∧
        ∃ t, exec ensureIndex world s = exec build world t) ∨
      ∃ snapshot t, s.adopted? world = some snapshot ∧
        exec ensureIndex world s = (.ok (), t) ∧ t.stage = .ready snapshot ∧ t.isGit = true := by
  obtain ⟨stage, isGit, usage, cache, log⟩ := s
  obtain rfl : stage = .unbuilt := hstage
  have hcached : (⟨.unbuilt, isGit, usage, cache, log⟩ : Service).cached? world =
      (⟨.unbuilt, Id.run (Git.isWorkTree world.git), usage, cache, log⟩ : Service).cached? world :=
    rfl
  obtain ⟨t, hload, -, hisGit⟩ := exec_loadCache world
    ⟨.unbuilt, Id.run (Git.isWorkTree world.git), usage, cache, log⟩
  unfold ensureIndex adopted?
  rw [hcached]
  simp only [exec_bind, exec_get, exec_read, exec_modify, hload]
  -- Without a snapshot, or one of no known commit, there is nothing to adopt.
  rcases Service.cached? _ world with _ | ⟨index, _ | commit⟩
  · exact Or.inl ⟨rfl, t, rfl⟩
  · exact Or.inl ⟨rfl, t, rfl⟩
  · simp only [Option.bind_some]
    cases hgit : Id.run (Git.isWorkTree world.git) && commit != "" with
    | false =>
      refine Or.inl ⟨?_, t, ?_⟩
      · rw [Bool.false_and]
        rfl
      · rw [if_neg Bool.false_ne_true]
    | true =>
      rw [if_pos rfl, Bool.true_and]
      have hwork : t.isGit = true := hisGit.trans (Bool.and_eq_true_iff.1 hgit).1
      cases hnear : isNear world commit with
      | true =>
        obtain ⟨u, hadopt, hready, hu⟩ := exec_adopt_near hnear t ⟨index, some commit⟩
        exact Or.inr ⟨_, u, rfl, hadopt, hready, hu.trans hwork⟩
      | false =>
        obtain ⟨u, hbuild⟩ := exec_adopt_far hnear t ⟨index, some commit⟩
        exact Or.inl ⟨rfl, u, hbuild⟩

theorem coherent_build_iff :
    (exec build world s).2.stage.Coherent ↔ ¬ world.Unindexable := by
  constructor
  · rintro hcoherent ⟨e, he⟩
    obtain ⟨next, hnext, hstage, -⟩ := exec_build_error (s := s) he
    rw [hnext, hstage] at hcoherent
    exact Stage.not_coherent_failed _ hcoherent
  · intro hworld
    obtain ⟨index, hmade⟩ := World.exists_index_of_not_unindexable hworld
    obtain ⟨next, hnext, -, hstage⟩ := exec_build_ok (s := s) hmade
    rw [hnext, hstage]
    exact Stage.coherent_ready _

theorem coherent_update_iff (hstage : s.stage = .ready snapshot) :
    (exec update world s).2.stage.Coherent ↔
      ((s.isGit && areMany (Id.run (Git.changesSince? world.git snapshot.commit))
        snapshot.index) = true → ¬ world.Unindexable) := by
  rcases exec_update_outcome world hstage with
    ⟨hidle, hnext⟩ | ⟨hgit, -, ⟨hmany, t, hbuild, -, -⟩ | ⟨hfew, hfollowed⟩⟩
  · have hnot : (s.isGit && areMany (Id.run (Git.changesSince? world.git snapshot.commit))
        snapshot.index) = false := by
      rcases hidle with hgit | hquiet
      · rw [hgit, Bool.false_and]
      · rw [areMany_eq_false_of_isEmpty hquiet, Bool.and_false]
    rw [hnext, hnot, hstage]
    exact iff_of_true (Stage.coherent_ready snapshot) fun h => absurd h Bool.false_ne_true
  · rw [hbuild, hgit, hmany, coherent_build_iff]
    exact ⟨fun h _ => h, fun h => h rfl⟩
  · have hready : ∃ next, (exec update world s).2.stage = .ready next := by
      rcases hfollowed with ⟨e, t, -, hnext, -, ht⟩ | ⟨t, -, hnext, -, ht⟩
      · exact ⟨_, by rw [hnext, ht]⟩
      · exact ⟨_, by rw [hnext, ht]⟩
    obtain ⟨next, hnext⟩ := hready
    rw [hnext, hfew, Bool.and_false]
    exact iff_of_true (Stage.coherent_ready next) fun h => absurd h Bool.false_ne_true

/-- A call that finds an index breaks the service if and only if it builds and that fails. -/
theorem coherent_perform_iff {t : Service} (c : Call)
    (hensure : exec ensureIndex c.world s = (.ok (), t)) (ht : t.stage = .ready snapshot) :
    (exec (perform c.tool c.arguments) c.world s).2.stage.Coherent ↔
      ((c.tool == "reindex" || t.isGit && snapshot.outrun c) = true → ¬ c.world.Unindexable) := by
  rw [(stage_perform_of_ensured c.tool c.arguments hensure).1]
  by_cases htool : c.tool = "reindex"
  · rw [if_pos htool, coherent_build_iff]
    simp [htool]
  · rw [if_neg htool]
    by_cases hreport : c.tool = Usage.reportTool
    · rw [if_pos hreport, ht]
      refine iff_of_true (Stage.coherent_ready snapshot) fun hbuilds => ?_
      have hneither : (c.tool == "reindex" || t.isGit && snapshot.outrun c) = false := by
        rw [beq_eq_false_iff_ne.2 htool]
        simp [Snapshot.outrun, hreport]
      rw [hneither] at hbuilds
      cases hbuilds
    · rw [if_neg hreport, coherent_update_iff ht]
      simp [Snapshot.outrun, htool, hreport]

/-- A service whose build failed sees no changes. -/
theorem exec_update_failed (hstage : s.stage = .failed kept) :
    exec update world s = (.ok (), s) := by
  unfold update
  simp only [exec_bind, exec_get, exec_read, hstage]
  cases s.isGit <;> rfl

/-- A call does its work on the service as it was, with the call counted and an empty log. -/
theorem exists_stage_after (s : Service) (c : Call) :
    ∃ start : Service, start.stage = s.stage ∧ start.isGit = s.isGit ∧
      start.adopted? c.world = s.adopted? c.world ∧
      (s.after c).stage = (exec (perform c.tool c.arguments) c.world start).2.stage :=
  ⟨{ s with usage := s.usage.count c.tool, log := [] }, rfl, rfl, rfl,
    (stage_call_eq c.world s c.tool c.arguments).1⟩

/-- A build that fails leaves a service that was asked before to answer from what it had. -/
theorem stage_after_of_unindexable (hbegun : s.stage ≠ .unbuilt) {c : Call}
    (htool : c.tool = "reindex") (hworld : c.world.Unindexable) :
    (s.after c).stage = .failed s.stage.answering? := by
  obtain ⟨start, hstart, -, -, hafter⟩ := exists_stage_after s c
  rw [← hstart] at hbegun
  obtain ⟨e, he⟩ := hworld
  obtain ⟨next, hnext, hkept, -⟩ := exec_build_error (s := start) he
  have hensure := exec_ensureIndex_begun c.world hbegun
  rw [hafter, (stage_perform_of_ensured c.tool c.arguments hensure).1, if_pos htool, hnext, hkept,
    hstart]

/-- A call leaves a service whose build failed as it was, unless it makes the index anew. -/
theorem stage_after_of_failed (hstage : s.stage = .failed kept) (c : Call) :
    ((c.tool = "reindex" → c.world.Unindexable) ∧ (s.after c).stage = s.stage) ∨
      c.tool = "reindex" ∧ ¬ c.world.Unindexable ∧ (s.after c).stage.Coherent := by
  obtain ⟨start, hstart, -, -, hafter⟩ := exists_stage_after s c
  have hfailed := hstart.trans hstage
  have hbegun : start.stage ≠ .unbuilt := fun h => by cases hfailed.symm.trans h
  have hensure := exec_ensureIndex_begun c.world hbegun
  have hperform := (stage_perform_of_ensured c.tool c.arguments hensure).1
  by_cases htool : c.tool = "reindex"
  · by_cases hworld : c.world.Unindexable
    · refine Or.inl ⟨fun _ => hworld, ?_⟩
      have hkept := stage_after_of_unindexable (s := s) (hstart ▸ hbegun) htool hworld
      rw [hkept, hstage]
      rfl
    · refine Or.inr ⟨htool, hworld, ?_⟩
      rw [hafter, hperform, if_pos htool]
      exact coherent_build_iff.2 hworld
  · refine Or.inl ⟨fun h => absurd h htool, ?_⟩
    rw [hafter, hperform, if_neg htool, exec_update_failed hfailed, ite_self, hstart]

/-- A call breaks a coherent service if and only if it tries a build that fails. -/
theorem coherent_after_iff (hs : s.stage.Coherent) (c : Call) :
    (s.after c).stage.Coherent ↔ (s.attempts c = true → ¬ c.world.Unindexable) := by
  obtain ⟨start, hstage, hisGit, hadopted, hafter⟩ := exists_stage_after s c
  rw [hafter]
  unfold attempts
  cases hcase : s.stage with
  | failed kept =>
    rw [hcase] at hs
    exact absurd hs (Stage.not_coherent_failed kept)
  | ready snapshot =>
    have hready := hstage.trans hcase
    have hbegun : start.stage ≠ .unbuilt := fun h => by cases hready.symm.trans h
    rw [coherent_perform_iff c (exec_ensureIndex_begun c.world hbegun) hready, hisGit]
  | unbuilt =>
    rcases exec_ensureIndex_outcome c.world (hstage.trans hcase) with
      ⟨hnone, t, hbuild⟩ | ⟨snapshot, t, hsome, hensure, hready, hgit⟩
    · rw [← hadopted, hnone, Bool.or_true, forall_prop_of_true rfl]
      constructor
      · rintro hcoherent ⟨e, he⟩
        obtain ⟨next, hnext, hfailed, -⟩ := exec_build_error (s := t) he
        rw [stage_perform_of_not_ensured _ _ (hbuild.trans hnext), hfailed] at hcoherent
        exact Stage.not_coherent_failed _ hcoherent
      -- What can be built once can be built again in the same call.
      · intro hworld
        obtain ⟨index, hmade⟩ := World.exists_index_of_not_unindexable hworld
        obtain ⟨next, hnext, -, hready⟩ := exec_build_ok (s := t) hmade
        exact (coherent_perform_iff c (hbuild.trans hnext) hready).2 fun _ => hworld
    · rw [← hadopted, hsome, coherent_perform_iff c hensure hready, hgit, Bool.true_and]

/-- What one call does to a service. -/
theorem not_coherent_after_iff (s : Service) (c : Call) :
    ¬ (s.after c).stage.Coherent ↔
      (s.attempts c = true ∧ c.world.Unindexable) ∨
        ¬ s.stage.Coherent ∧ (c.tool = "reindex" → c.world.Unindexable) := by
  by_cases hs : s.stage.Coherent
  · rw [coherent_after_iff hs c]
    simp [hs]
  · obtain ⟨kept, hstage⟩ := Stage.not_coherent_iff.1 hs
    rcases stage_after_of_failed hstage c with ⟨hkept, hsame⟩ | ⟨htool, hworld, hcoherent⟩
    · rw [hsame]
      exact iff_of_true hs (Or.inr ⟨hs, hkept⟩)
    · refine iff_of_false (fun h => h hcoherent) ?_
      rintro (⟨-, h⟩ | ⟨-, h⟩)
      · exact hworld h
      · exact hworld (h htool)

/-! ## All calls -/

/-- One of the calls tries a build in vain, and none of the later ones makes the index anew. -/
def Breaks (s : Service) (calls : List Call) : Prop :=
  ∃ before c later, calls = before ++ c :: later ∧ (s.afterAll before).attempts c = true ∧
    c.world.Unindexable ∧ ∀ d ∈ later, d.tool = "reindex" → d.world.Unindexable

/-- One more call: it is the one in question, or that one came before. -/
theorem breaks_concat_iff (s : Service) (calls : List Call) (d : Call) :
    s.Breaks (calls ++ [d]) ↔
      ((s.afterAll calls).attempts d = true ∧ d.world.Unindexable) ∨
        s.Breaks calls ∧ (d.tool = "reindex" → d.world.Unindexable) := by
  constructor
  · rintro ⟨before, c, later, hcalls, hattempts, hworld, hlater⟩
    rcases List.eq_nil_or_concat later with rfl | ⟨front, last, rfl⟩
    · obtain ⟨rfl, hlast⟩ := List.append_inj' hcalls rfl
      obtain rfl := List.singleton_inj.1 hlast
      exact Or.inl ⟨hattempts, hworld⟩
    · rw [List.concat_eq_append] at hcalls hlater
      rw [← List.cons_append, ← List.append_assoc] at hcalls
      obtain ⟨rfl, hlast⟩ := List.append_inj' hcalls rfl
      obtain rfl := List.singleton_inj.1 hlast
      refine Or.inr ⟨⟨before, c, front, rfl, hattempts, hworld, fun e he => ?_⟩, ?_⟩
      · exact hlater e (List.mem_append_left _ he)
      · exact hlater d (by simp)
  · rintro (⟨hattempts, hworld⟩ | ⟨⟨before, c, later, rfl, hattempts, hworld, hlater⟩, hd⟩)
    · exact ⟨calls, d, [], rfl, hattempts, hworld, by simp⟩
    · refine ⟨before, c, later ++ [d], by simp, hattempts, hworld, fun e he => ?_⟩
      rcases List.mem_append.1 he with he | he
      · exact hlater e he
      · rw [List.mem_singleton.1 he]
        exact hd

theorem not_coherent_afterAll_iff {s : Service} (hs : s.stage.Coherent) (calls : List Call) :
    ¬ (s.afterAll calls).stage.Coherent ↔ s.Breaks calls := by
  induction calls using List.reverseRecOn with
  | nil =>
    refine iff_of_false (fun h => h hs) ?_
    rintro ⟨before, c, later, hcalls, -⟩
    simp at hcalls
  | append_singleton calls d ih =>
    rw [afterAll_concat, not_coherent_after_iff, ih, breaks_concat_iff]

/-- **After any calls the service keeps one index and answers from it, unless a call tried to build
the index in vain and no later call made it anew.** A service for which this has failed stays as it
is in every call, until one makes the index anew. -/
theorem coherent_after_calls (now : Seconds) (cache : Option CacheFile) (calls : List Call) :
    (((start now cache).afterAll calls).stage.Coherent ↔ ¬ (start now cache).Breaks calls) ∧
      (¬ ((start now cache).afterAll calls).stage.Coherent → ∀ d : Call,
        ((start now cache).afterAll (calls ++ [d])).stage =
            ((start now cache).afterAll calls).stage ∨
          d.tool = "reindex" ∧ ¬ d.world.Unindexable ∧
            ((start now cache).afterAll (calls ++ [d])).stage.Coherent) := by
  refine ⟨?_, fun hbroken d => ?_⟩
  · rw [← not_coherent_afterAll_iff Stage.coherent_unbuilt, not_not]
  · obtain ⟨kept, hstage⟩ := Stage.not_coherent_iff.1 hbroken
    rw [afterAll_concat]
    exact (stage_after_of_failed hstage d).imp_left And.right

/-- One file with a function. -/
def soundFiles : FileTree := .ofTexts [("a.py", "def f(): pass\n")]

/-- The same with a file that has no outline. -/
def spoiltFiles : FileTree := soundFiles.write "deep.json" (Text.nestedArrays 5000)

/-- A call in a folder without git. -/
def callIn (tree : FileTree) (tool : String) : Call :=
  ⟨⟨"/project", tree, fun _ => .notFound, .whole 0⟩, tool, ⟨[]⟩⟩

theorem unindexable_spoiltFiles (tool : String) : (callIn spoiltFiles tool).world.Unindexable := by
  have hfinds : Settings.usual.Finds spoiltFiles
      [⟨"a.py", "a.py"⟩, ⟨"deep.json", "deep.json"⟩] := by
    decide +kernel
  have hkind : FileKind.of "deep.json" none = .json := by decide +kernel
  exact World.unindexable_of_file (d := ⟨"deep.json", "deep.json"⟩) hfinds.discover
    (by decide +kernel) rfl (Outline.ofBytes_nestedArrays (n := 5000) (by decide) hkind)

/-- A service that was asked a question once. -/
def askedOnce : Service := (start (.whole 0) none).after (callIn soundFiles "list_files")

/-- A question, an attempt to make the index anew that fails, and the question again. -/
def questionsAroundFailure : List Call :=
  [callIn soundFiles "list_files", callIn spoiltFiles "reindex", callIn spoiltFiles "list_files"]

/-- After a failed build the service keeps no index, and answers from one all the same. -/
theorem answers_without_current_index :
    let s := (start (.whole 0) none).afterAll questionsAroundFailure
    ¬ s.stage.Coherent ∧ s.stage.current?.isSome = false ∧
      s.stage.answering?.map (fun index => index.files.keys) = some ["a.py"] := by
  have hasked : askedOnce.stage.answering?.map (fun index => index.files.keys) =
      some ["a.py"] := by decide +kernel
  have hbegun : askedOnce.stage ≠ .unbuilt := by
    intro h
    rw [h] at hasked
    cases hasked
  have hfailed := stage_after_of_unindexable hbegun (c := callIn spoiltFiles "reindex") rfl
    (unindexable_spoiltFiles "reindex")
  intro s
  have hlast : s.stage = .failed askedOnce.stage.answering? := by
    rcases stage_after_of_failed hfailed (callIn spoiltFiles "list_files") with
      ⟨-, hsame⟩ | ⟨htool, -, -⟩
    · exact hsame.trans hfailed
    · exact absurd htool (by decide)
  rw [hlast]
  exact ⟨Stage.not_coherent_failed _, rfl, hasked⟩

/-- The second of these calls tries a build in vain, and the third does not make the index anew. -/
theorem not_coherent_around_failure :
    (callIn spoiltFiles "reindex").world.Unindexable ∧
      ¬ ((start (.whole 0) none).afterAll questionsAroundFailure).stage.Coherent := by
  refine ⟨unindexable_spoiltFiles _, fun hcoherent => ?_⟩
  refine (coherent_after_calls (.whole 0) none questionsAroundFailure).1.1 hcoherent ?_
  refine ⟨[callIn soundFiles "list_files"], callIn spoiltFiles "reindex",
    [callIn spoiltFiles "list_files"], rfl, rfl, unindexable_spoiltFiles _, ?_⟩
  intro d hd _
  rw [List.mem_singleton.1 hd]
  exact unindexable_spoiltFiles _

end Service

end SourceAtlas
