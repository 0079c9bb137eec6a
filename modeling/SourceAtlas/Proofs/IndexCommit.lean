import SourceAtlas.Proofs.FailedBuilds

/-!
# The commit of an index

An index stands for a commit, and an update asks git what has changed since that commit. So the
commit should change only to one that git has named as the head, and only if the committed changes
were reported or the index was made anew (`CommitKept`); otherwise changes are lost.

Every command of git can fail, and a command that fails says nothing. `commit_after_update` says
for all outcomes of all commands what the commit is after an update, and that there are exactly two
ways for it to go wrong.

* The index moves on and the head cannot be named. Then it stands for no commit, and no later update
  does anything.
* The index follows changes, the head is another commit, and the committed changes could not be
  reported. Then those are passed over.
-/

set_option autoImplicit false

namespace SourceAtlas

/-- Git has reported the changes that were committed since the commit. -/
def World.ReportsSince (world : World) (commit : String) : Prop :=
  (world.git ["git", "diff", "--name-status", commit, "HEAD"]).output?.isSome = true

/-- The commit of an index before and after an update go together: it is kept, or it is a head that
git has named; and it is another one only if the changes up to it were reported or the index was
made anew. -/
structure CommitKept (world : World) (commit : String) (rebuilt : Prop) (next : Option String) :
    Prop where
  named : next = some commit ∨ ∃ head, Id.run (Git.head world.git) = some head ∧ next = some head
  reported : next ≠ some commit → world.ReportsSince commit ∨ rebuilt

theorem CommitKept.same (world : World) (commit : String) (rebuilt : Prop) :
    CommitKept world commit rebuilt (some commit) :=
  ⟨Or.inl rfl, fun h => absurd rfl h⟩

/-- When the head may take the place of the commit, if the index was made anew or else has followed
the changes. -/
theorem commitKept_head_iff {world : World} {commit : String} {rebuilt followed : Prop}
    (hmoved : rebuilt ∨ followed) (hone : rebuilt → ¬ followed) :
    CommitKept world commit rebuilt (Id.run (Git.head world.git)) ↔
      (Id.run (Git.head world.git)).isSome = true ∧
        (followed → Id.run (Git.head world.git) ≠ some commit → world.ReportsSince commit) := by
  constructor
  · intro hkept
    refine ⟨?_, fun hfollowed hne => ?_⟩
    · rcases hkept.named with hsame | ⟨head, hhead, -⟩
      · exact Option.isSome_iff_exists.2 ⟨commit, hsame⟩
      · exact Option.isSome_iff_exists.2 ⟨head, hhead⟩
    · rcases hkept.reported hne with hreported | hrebuilt
      · exact hreported
      · exact absurd hfollowed (hone hrebuilt)
  · rintro ⟨hnamed, hreported⟩
    obtain ⟨head, hhead⟩ := Option.isSome_iff_exists.1 hnamed
    refine ⟨Or.inr ⟨head, hhead, hhead⟩, fun hne => ?_⟩
    rcases hmoved with hrebuilt | hfollowed
    · exact Or.inr hrebuilt
    · exact Or.inl (hreported hfollowed hne)

namespace Service

open Work

/-- The update makes the index anew. -/
def Rebuilds (s : Service) (world : World) (snapshot : Snapshot) : Prop :=
  s.isGit = true ∧
    areMany (Id.run (Git.changesSince? world.git snapshot.commit)) snapshot.index = true

/-- The update follows the reported changes to the end. -/
def Follows (s : Service) (world : World) (snapshot : Snapshot) : Prop :=
  let changes := Id.run (Git.changesSince? world.git snapshot.commit)
  s.isGit = true ∧ changes.isEmpty = false ∧ areMany changes snapshot.index = false ∧
    (snapshot.index.follow .usual world.tree changes).2 = none

variable {world : World} {s : Service} {snapshot : Snapshot}

theorem not_follows_of_rebuilds (h : s.Rebuilds world snapshot) : ¬ s.Follows world snapshot := by
  rintro ⟨-, -, hfew, -⟩
  exact Bool.false_ne_true (hfew.symm.trans h.2)

/-- An update leaves the index to a failed build, makes it anew, follows the changes to the end, or
leaves it with its commit. -/
theorem stage_update (world : World) (hstage : s.stage = .ready snapshot) :
    (s.Rebuilds world snapshot ∧ world.Unindexable ∧
        (exec update world s).2.stage.current? = none) ∨
      ∃ index, (s.Rebuilds world snapshot ∧ ¬ world.Unindexable ∨ s.Follows world snapshot) ∧
          (exec update world s).2.stage = .ready ⟨index, Id.run (Git.head world.git)⟩ ∨
        (¬ s.Rebuilds world snapshot ∧ ¬ s.Follows world snapshot) ∧
          (exec update world s).2.stage = .ready ⟨index, snapshot.commit⟩ := by
  rcases exec_update_outcome world hstage with
    ⟨hidle, hnext⟩ | ⟨hgit, hloud, ⟨hmany, t, hbuild, ht, htGit⟩ |
      ⟨hfew, ⟨e, t, hfault, hnext, -, ht⟩ | ⟨t, hdone, hnext, -, ht⟩⟩⟩
  · refine Or.inr ⟨snapshot.index, Or.inr ⟨⟨?_, ?_⟩, by rw [hnext, hstage]⟩⟩
    · rintro ⟨hgit, hmany⟩
      rcases hidle with hno | hquiet
      · exact Bool.false_ne_true (hno.symm.trans hgit)
      · exact Bool.false_ne_true ((areMany_eq_false_of_isEmpty hquiet _).symm.trans hmany)
    · rintro ⟨hgit, hloud, -, -⟩
      rcases hidle with hno | hquiet
      · exact Bool.false_ne_true (hno.symm.trans hgit)
      · exact Bool.false_ne_true (hloud.symm.trans hquiet)
  · by_cases hworld : world.Unindexable
    · obtain ⟨e, he⟩ := hworld
      obtain ⟨next, hfailed, hkept, -⟩ := exec_build_error (s := t) he
      refine Or.inl ⟨⟨hgit, hmany⟩, ⟨e, he⟩, ?_⟩
      rw [hbuild, hfailed, hkept]
      rfl
    · obtain ⟨index, hmade⟩ := World.exists_index_of_not_unindexable hworld
      obtain ⟨next, hdone, hisGit, hready⟩ := exec_build_ok (s := t) hmade
      -- The service has found git before, so the head is asked for.
      rw [htGit, hgit, Bool.true_or] at hisGit
      rw [hisGit, if_pos rfl] at hready
      exact Or.inr ⟨index, Or.inl ⟨Or.inl ⟨⟨hgit, hmany⟩, hworld⟩, by rw [hbuild, hdone, hready]⟩⟩
  · refine Or.inr ⟨_, Or.inr ⟨⟨?_, ?_⟩, by rw [hnext, ht]⟩⟩
    · rintro ⟨-, hmany⟩
      exact Bool.false_ne_true (hfew.symm.trans hmany)
    · rintro ⟨-, -, -, hdone⟩
      rw [hfault] at hdone
      cases hdone
  · exact Or.inr ⟨_, Or.inl ⟨Or.inr ⟨hgit, hloud, hfew, hdone⟩, by rw [hnext, ht]⟩⟩

/-- An index that stands for no commit is not updated any more. -/
theorem exec_update_of_no_commit {index : Index} (hstage : s.stage = .ready ⟨index, none⟩) :
    exec update world s = (.ok (), s) :=
  exec_update_idle hstage (Or.inr rfl)

/-- **What an update does to the commit of an index, whatever git answers.** It puts the head in the
place of the commit if it makes the index anew or follows the changes to the end, and keeps the
commit otherwise. This is as it should be if and only if git names the head whenever the commit
moves, and reports the committed changes whenever they are followed to another head. Once the commit
is lost, later updates do nothing. If the index cannot be made anew, there is none afterwards. -/
theorem commit_after_update (s : Service) (world : World) (index : Index) (commit : String) :
    let held : Service := { s with stage := .ready ⟨index, some commit⟩ }
    let rebuilds := held.Rebuilds world ⟨index, some commit⟩
    let follows := held.Follows world ⟨index, some commit⟩
    let after := (exec update world held).2
    (after.stage.current? = none ↔ rebuilds ∧ world.Unindexable) ∧
      ∀ next, after.stage.current? = some next →
        (rebuilds ∨ follows → next.commit = Id.run (Git.head world.git)) ∧
        (¬ (rebuilds ∨ follows) → next.commit = some commit) ∧
        (CommitKept world commit rebuilds next.commit ↔
          (rebuilds ∨ follows → (Id.run (Git.head world.git)).isSome = true) ∧
            (follows → Id.run (Git.head world.git) ≠ some commit → world.ReportsSince commit)) ∧
        (next.commit = none → ∀ later : World, exec update later after = (.ok (), after)) := by
  intro held rebuilds follows after
  have hheld : held.stage = .ready ⟨index, some commit⟩ := rfl
  -- The update loses the index, takes the head for the commit, or keeps the commit.
  rcases stage_update world hheld with
    ⟨hrebuilds, hworld, hnone⟩ | ⟨made, ⟨hmoves, hready⟩ | ⟨hstays, hready⟩⟩
  · refine ⟨iff_of_true hnone ⟨hrebuilds, hworld⟩, fun next hnext => ?_⟩
    rw [hnone] at hnext
    cases hnext
  · have hafter : after.stage = .ready ⟨made, Id.run (Git.head world.git)⟩ := hready
    have hmove : rebuilds ∨ follows := hmoves.imp_left And.left
    refine ⟨?_, fun next hnext => ?_⟩
    · rw [hafter]
      refine iff_of_false (fun h => by cases h) ?_
      rintro ⟨hrebuilds, hworld⟩
      rcases hmoves with ⟨-, hnot⟩ | hfollows
      · exact hnot hworld
      · exact not_follows_of_rebuilds hrebuilds hfollows
    · rw [hafter] at hnext
      obtain rfl := Option.some.inj hnext
      refine ⟨fun _ => rfl, fun h => absurd hmove h, ?_, fun hlost later => ?_⟩
      · rw [forall_prop_of_true hmove]
        exact commitKept_head_iff hmove not_follows_of_rebuilds
      · exact exec_update_of_no_commit (hafter.trans (congrArg _ (congrArg _ hlost)))
  · have hafter : after.stage = .ready ⟨made, some commit⟩ := hready
    have hstay : ¬ (rebuilds ∨ follows) := not_or.2 hstays
    refine ⟨?_, fun next hnext => ?_⟩
    · rw [hafter]
      exact iff_of_false (fun h => by cases h) fun h => hstays.1 h.1
    · rw [hafter] at hnext
      obtain rfl := Option.some.inj hnext
      refine ⟨fun h => absurd h hstay, fun _ => rfl, ?_, fun h => by cases h⟩
      exact iff_of_true (CommitKept.same world commit rebuilds)
        ⟨fun h => absurd h hstay, fun h => absurd h hstays.2⟩

/-! ## Commands that fail -/

/-- An index of no files that stands for a commit. -/
def emptyAtCommit : Snapshot := ⟨.empty "/project", some "c0"⟩

/-- A service of a git project with that index. -/
def keeper : Service := { start (.whole 0) none with isGit := true, stage := .ready emptyAtCommit }

/-- Git with a file that was changed and not staged, and with a head, if it can name it. The changes
between commits cannot be reported. -/
def shortGit (head : Option String) (command : List String) : Outcome :=
  if command = ["git", "diff", "--name-status"] then .exited 0 "M\tpkg/a.py\n"
  else if command = ["git", "rev-parse", "HEAD"] then (head.map (.exited 0)).getD (.exited 128 "")
  else .timedOut

/-- The world with that file and that git. -/
def shortWorld (head : Option String) : World :=
  ⟨"/project", .ofTexts [("pkg/a.py", "x = 1\n")], shortGit head, .whole 0⟩

/-- An update loses the commit if the head cannot be named. -/
theorem commit_lost_without_head :
    (exec update (shortWorld none) keeper).2.stage.current?.map
        (fun next => (next.index.files.keys, next.commit)) = some (["pkg/a.py"], none) ∧
      ∀ rebuilt, ¬ CommitKept (shortWorld none) "c0" rebuilt none := by
  refine ⟨by decide +kernel, fun rebuilt hkept => ?_⟩
  rcases hkept.named with h | ⟨head, -, h⟩
  · cases h
  · cases h

/-- An update moves on to another head although it is not known what was committed up to it. -/
theorem commit_passes_over_changes :
    (exec update (shortWorld (some "c1")) keeper).2.stage.current?.map Snapshot.commit =
        some (some "c1") ∧
      ¬ CommitKept (shortWorld (some "c1")) "c0"
        (keeper.Rebuilds (shortWorld (some "c1")) emptyAtCommit) (some "c1") := by
  have hview : (exec update (shortWorld (some "c1")) keeper).2.stage.current?.map Snapshot.commit =
      some (some "c1") := by decide +kernel
  have hsilent : ¬ (shortWorld (some "c1")).ReportsSince "c0" := by
    unfold World.ReportsSince
    decide +kernel
  have hfollows : keeper.Follows (shortWorld (some "c1")) emptyAtCommit :=
    ⟨rfl, by decide +kernel, by decide +kernel, by decide +kernel⟩
  have hmoved : Id.run (Git.head (shortWorld (some "c1")).git) ≠ some "c0" := by decide +kernel
  obtain ⟨next, hnext, hcommit⟩ := Option.map_eq_some_iff.1 hview
  have hlaw := (commit_after_update keeper (shortWorld (some "c1")) (.empty "/project") "c0").2
    next hnext
  refine ⟨hview, fun hkept => ?_⟩
  have hsame : CommitKept (shortWorld (some "c1")) "c0"
      (keeper.Rebuilds (shortWorld (some "c1")) emptyAtCommit) next.commit := hcommit.symm ▸ hkept
  exact hsilent ((hlaw.2.2.1.1 hsame).2 hfollows hmoved)

end Service

end SourceAtlas
