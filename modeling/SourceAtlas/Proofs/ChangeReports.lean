import SourceAtlas.Git.Changes
import SourceAtlas.Project.FileTree
import SourceAtlas.Proofs.Cutting
import SourceAtlas.Proofs.Tables

/-!
# Reports of changes

What the changes of a report come to: a file that is reported as added and as deleted counts as
modified, and every other report stands (`mem_collectChanges`).

`differences` are the changes from one state of the files to another. Git is faithful to a
repository when its reports are read as the differences between the states that they compare. That
is so for all repositories with plain paths: changes that are written one to a line are read back as
they are (`reportChanges_written`, `faithful_git`).
-/

set_option autoImplicit false

namespace SourceAtlas

variable {change : Change} {cs : List Char} {c : Char}
variable {command : List String}

/-- The file that a change is about. -/
def Change.path : Change → String
  | .modified path | .added path | .deleted path => path

namespace Text

/-- What stands first behind the leading blanks is no blank. -/
theorem head?_trimLeft (h : (trimLeft cs).head? = some c) :
    isBlank c = false := by
  have hnot := List.head?_dropWhile_not isBlank cs
  rw [trimLeft] at h
  rw [h] at hnot
  simpa using hnot

/-- What stands last before the trailing blanks is no blank. -/
theorem getLast?_trimRight (h : (trimRight cs).getLast? = some c) :
    isBlank c = false := by
  rw [trimRight, dropEndWhile, List.getLast?_reverse] at h
  exact head?_trimLeft h

end Text

namespace Git

variable {changes : List Change} {path : String}

/-! ## Changes put together -/

theorem mem_filterMap_iff {f : Change → Option String} (m : String → Change)
    (h : ∀ c p, f c = some p ↔ c = m p) : path ∈ changes.filterMap f ↔ m path ∈ changes := by
  simp [List.mem_filterMap, h]

/-- What the three lists of paths hold. -/
theorem mem_collectChanges (changes : List Change) (path : String) :
    (path ∈ (collectChanges changes).modified ↔
        .modified path ∈ changes ∨ .added path ∈ changes ∧ .deleted path ∈ changes) ∧
      (path ∈ (collectChanges changes).added ↔
        .added path ∈ changes ∧ .deleted path ∉ changes) ∧
      (path ∈ (collectChanges changes).deleted ↔
        .deleted path ∈ changes ∧ .added path ∉ changes) := by
  simp only [collectChanges, Names.mem_sorted, Names.mem_ofList, List.mem_append, List.mem_filter,
    List.contains_iff_mem, Bool.not_eq_true', Bool.eq_false_iff, ne_eq]
  rw [mem_filterMap_iff .modified fun c p => by cases c <;> simp,
    mem_filterMap_iff .added fun c p => by cases c <;> simp,
    mem_filterMap_iff .deleted fun c p => by cases c <;> simp]
  tauto

/-- A file counts as modified or added if and only if some report says so. -/
theorem mem_modified_or_added_iff :
    path ∈ (collectChanges changes).modified ∨ path ∈ (collectChanges changes).added ↔
      .modified path ∈ changes ∨ .added path ∈ changes := by
  simp only [mem_collectChanges]
  tauto

theorem isEmpty_collectChanges_iff (changes : List Change) :
    (collectChanges changes).isEmpty = true ↔ ∀ change, change ∉ changes := by
  have hempty : (collectChanges changes).isEmpty = true ↔
      ∀ path, path ∉ (collectChanges changes).modified ∧ path ∉ (collectChanges changes).added ∧
        path ∉ (collectChanges changes).deleted := by
    simp only [Changes.isEmpty, Bool.and_eq_true, List.isEmpty_iff, List.eq_nil_iff_forall_not_mem,
      forall_and, and_assoc]
  rw [hempty]
  simp only [mem_collectChanges]
  constructor
  · intro h change hchange
    cases change with
    | modified path => exact (h path).1 (Or.inl hchange)
    -- A file that is reported both ways is among the modified ones.
    | added path =>
      by_cases hdeleted : .deleted path ∈ changes
      · exact (h path).1 (Or.inr ⟨hchange, hdeleted⟩)
      · exact (h path).2.1 ⟨hchange, hdeleted⟩
    | deleted path =>
      by_cases hadded : .added path ∈ changes
      · exact (h path).1 (Or.inr ⟨hadded, hchange⟩)
      · exact (h path).2.2 ⟨hchange, hadded⟩
  · intro h path
    exact ⟨fun hor => hor.elim (h _) fun hand => h _ hand.1, fun hand => h _ hand.1,
      fun hand => h _ hand.1⟩

/-! ## Differences between two states of the files -/

/-- Files by path, as a commit or the stage holds them. -/
abbrev Contents := Assoc (List UInt8)

/-- How a file differs between two states of the files. -/
def difference? (old new : Contents) (path : String) : Option Change :=
  match old.get? path, new.get? path with
  | none, none => none
  | none, some _ => some (.added path)
  | some _, none => some (.deleted path)
  | some a, some b => if a = b then none else some (.modified path)

/-- The changes from one state of the files to another. -/
def differences (old new : Contents) : List Change :=
  (old.keys ++ new.keys).eraseDups.filterMap (difference? old new)

variable {old new : Contents}

theorem path_of_difference? (h : difference? old new path = some change) :
    change.path = path := by
  unfold difference? at h
  split at h
  · cases h
  · cases h
    rfl
  · cases h
    rfl
  · split at h
    · cases h
    · cases h
      rfl

theorem difference?_eq_added_iff :
    difference? old new path = some (.added path) ↔
      old.has path = false ∧ new.has path = true := by
  rw [difference?, Assoc.has_eq_isSome, Assoc.has_eq_isSome]
  cases old.get? path <;> cases new.get? path <;> simp

theorem difference?_eq_deleted_iff :
    difference? old new path = some (.deleted path) ↔
      old.has path = true ∧ new.has path = false := by
  rw [difference?, Assoc.has_eq_isSome, Assoc.has_eq_isSome]
  cases old.get? path <;> cases new.get? path <;> simp

/-- A change that leads to some bytes is reported as modified or added. -/
theorem difference?_of_ne {bytes : List UInt8} (hnew : new.get? path = some bytes)
    (hold : old.get? path ≠ some bytes) :
    difference? old new path = some (.modified path) ∨
      difference? old new path = some (.added path) := by
  rw [difference?, hnew]
  cases hget : old.get? path with
  | none => exact Or.inr rfl
  | some other =>
    have hne : other ≠ bytes := by
      rintro rfl
      exact hold hget
    exact Or.inl (if_neg hne)

theorem mem_differences :
    change ∈ differences old new ↔ difference? old new change.path = some change := by
  simp only [differences, List.mem_filterMap, List.mem_eraseDups, List.mem_append]
  constructor
  · rintro ⟨path, -, h⟩
    rwa [path_of_difference? h]
  · intro h
    refine ⟨change.path, ?_, h⟩
    by_contra hnone
    rw [not_or, ← Assoc.get?_eq_none_iff, ← Assoc.get?_eq_none_iff] at hnone
    simp [difference?, hnone.1, hnone.2] at h

theorem path_mem_of_mem_differences (h : change ∈ differences old new) :
    change.path ∈ old.keys ∨ change.path ∈ new.keys := by
  obtain ⟨path, hpath, hchange⟩ := List.mem_filterMap.1 h
  rw [path_of_difference? hchange]
  simpa using hpath

/-- What is reported of files that are not staged: those that git tracks, as far as they differ. -/
def unstaged (staged work : Contents) : List Change :=
  (differences staged work).filter fun change => staged.has change.path

/-- The files that git does not track and does not ignore. -/
def untracked (staged work : Contents) (ignored : String → Bool) : List String :=
  work.keys.eraseDups.filter fun path => !staged.has path && !ignored path

end Git

/-! ## Repositories -/

/-- A repository at the root of a project: the files of its commits, the commit that is checked out,
the staged files and the work tree. -/
structure Repository where
  commits : Assoc Git.Contents
  head : String
  staged : Git.Contents
  work : FileTree

namespace Repository

/-- The files of the commit that is checked out. -/
def headFiles (r : Repository) : Git.Contents := (r.commits.get? r.head).getD []

/-- The changes that comparisons report: from the files of a commit to those of the head, from there
to the stage, and from the stage to the work tree. -/
def compared (r : Repository) (since : Git.Contents) : List Change :=
  Git.differences since r.headFiles ++ Git.unstaged r.staged r.work.files ++
    Git.differences r.headFiles r.staged

/-- All changes that there are to report: those, and that the files that are not tracked are new. -/
def reported (r : Repository) (since : Git.Contents) (ignored : String → Bool) : List Change :=
  r.compared since ++ (Git.untracked r.staged r.work.files ignored).map .added

end Repository

namespace Git

variable {changes : List Change}

/-- The command succeeds, and what is read from its output are these changes. -/
def Reports (git : List String → Outcome) (command : List String)
    (read : List Char → List Change) (changes : List Change) : Prop :=
  ∃ output, (git command).output? = some output ∧ ∀ change, change ∈ read output ↔ change ∈ changes

/-- The three comparisons succeed, and report the differences between the states of the files that
they name. -/
structure Compares (r : Repository) (git : List String → Outcome) : Prop where
  committed : ∀ id files, r.commits.get? id = some files →
    Reports git ["git", "diff", "--name-status", id, "HEAD"] reportChanges
      (differences files r.headFiles)
  unstaged : Reports git ["git", "diff", "--name-status"] reportChanges
    (unstaged r.staged r.work.files)
  staged : Reports git ["git", "diff", "--name-status", "--cached"] reportChanges
    (differences r.headFiles r.staged)

/-- Every command succeeds and says how things are: the list of untracked files, too, is that. -/
structure Faithful (r : Repository) (ignored : String → Bool) (git : List String → Outcome) : Prop
    extends Compares r git where
  inside : (git ["git", "rev-parse", "--is-inside-work-tree"]).output?.map Text.trim =
    some "true".toList
  head : (git ["git", "rev-parse", "HEAD"]).output?.map Text.trim = some r.head.toList
  untracked : Reports git ["git", "ls-files", "--others", "--exclude-standard"] untrackedChanges
    ((untracked r.staged r.work.files ignored).map .added)

theorem Reports.changesBy {git : List String → Outcome} {read : List Char → List Change}
    (h : Reports git command read changes) :
    ∃ found, Id.run (changesBy git read command) = found ∧
      ∀ change, change ∈ found ↔ change ∈ changes := by
  obtain ⟨output, houtput, hread⟩ := h
  refine ⟨read output, ?_, hread⟩
  show ((git command).output?.map read).getD [] = read output
  rw [houtput]
  rfl

/-- The changes since a commit are those that the four commands report. -/
theorem Compares.changesSince {r : Repository} {git : List String → Outcome} (h : Compares r git)
    {id : String} {since : Contents} (hid : r.commits.get? id = some since)
    {untracked : List Change}
    (huntracked : Reports git ["git", "ls-files", "--others", "--exclude-standard"]
      untrackedChanges untracked) :
    ∃ found, Id.run (Git.changesSince git id) = collectChanges found ∧
      ∀ change, change ∈ found ↔ change ∈ r.compared since ++ untracked := by
  obtain ⟨as, has, ha⟩ := (h.committed id since hid).changesBy
  obtain ⟨bs, hbs, hb⟩ := h.unstaged.changesBy
  obtain ⟨cs, hcs, hc⟩ := h.staged.changesBy
  obtain ⟨ds, hds, hd⟩ := huntracked.changesBy
  refine ⟨as ++ bs ++ cs ++ ds, ?_, fun change => ?_⟩
  · rw [← has, ← hbs, ← hcs, ← hds]
    rfl
  · simp only [Repository.compared, List.mem_append, ha, hb, hc, hd]

namespace Faithful

variable {r : Repository} {ignored : String → Bool} {git : List String → Outcome}

theorem isWorkTree (h : Faithful r ignored git) : Id.run (isWorkTree git) = true := by
  obtain ⟨output, houtput, htrim⟩ := Option.map_eq_some_iff.1 h.inside
  show ((git _).output?.any fun output => Text.trim output == "true".toList) = true
  rw [houtput, Option.any_some, htrim]
  decide

theorem head_eq (h : Faithful r ignored git) : Id.run (Git.head git) = some r.head := by
  obtain ⟨output, houtput, htrim⟩ := Option.map_eq_some_iff.1 h.head
  show ((git _).output?.map fun output => String.ofList (Text.trim output)) = some r.head
  rw [houtput, Option.map_some, htrim, String.ofList_toList]

/-- All that faithful commands report since a commit. -/
theorem changesSince (h : Faithful r ignored git) {id : String} {since : Contents}
    (hid : r.commits.get? id = some since) :
    ∃ found, Id.run (Git.changesSince git id) = collectChanges found ∧
      ∀ change, change ∈ found ↔ change ∈ r.reported since ignored :=
  h.toCompares.changesSince hid h.untracked

end Faithful

/-! ## What git writes -/

open SourceAtlas.Text

/-- A text that stands in a list of lines as it is: it has no line breaks, and no blanks at its
ends. -/
def IsLine (line : List Char) : Prop :=
  (∀ c ∈ line, isBreak c = false) ∧ (∃ c, line.head? = some c ∧ isBlank c = false) ∧
    ∃ c, line.getLast? = some c ∧ isBlank c = false

/-- Lines, each with a newline behind it. -/
def written (lines : List (List Char)) : List Char := lines.flatMap fun line => line ++ ['\n']

variable {lines : List (List Char)}

theorem written_eq_join (h : lines ≠ []) : written lines = join ['\n'] lines ++ ['\n'] := by
  induction lines with
  | nil => exact absurd rfl h
  | cons line lines ih =>
    cases lines with
    | nil => simp [written]
    | cons next lines =>
      have hrest := ih (by simp)
      rw [join_cons_of_ne_nil _ _ (by simp)]
      simpa [written] using hrest

theorem trim_concat_newline (hfirst : ∃ c, cs.head? = some c ∧ isBlank c = false)
    (hlast : ∃ c, cs.getLast? = some c ∧ isBlank c = false) : trim (cs ++ ['\n']) = cs := by
  obtain ⟨a, ha, hablank⟩ := hfirst
  obtain ⟨z, hz, hzblank⟩ := hlast
  obtain ⟨rest, rfl⟩ : ∃ rest, cs = a :: rest := List.head?_eq_some_iff.1 ha
  obtain ⟨front, hfront⟩ : ∃ front, a :: rest = front ++ [z] := List.getLast?_eq_some_iff.1 hz
  have hleft : trimLeft (a :: rest ++ ['\n']) = a :: rest ++ ['\n'] := by
    simp [trimLeft, hablank]
  have hnewline : isBlank '\n' = true := by decide
  rw [trim, hleft, hfront]
  simp [trimRight, dropEndWhile, hzblank, hnewline]

theorem ends_join (hne : lines ≠ []) (h : ∀ line ∈ lines, IsLine line) :
    (∃ c, (join ['\n'] lines).head? = some c ∧ isBlank c = false) ∧
      ∃ c, (join ['\n'] lines).getLast? = some c ∧ isBlank c = false := by
  induction lines with
  | nil => exact absurd rfl hne
  | cons line lines ih =>
    obtain ⟨-, hfirst, hlast⟩ := h line List.mem_cons_self
    cases lines with
    | nil => simpa using ⟨hfirst, hlast⟩
    | cons next lines =>
      obtain ⟨-, c, hc, hblank⟩ := ih (by simp) (List.forall_mem_cons.1 h).2
      obtain ⟨a, ha, hablank⟩ := hfirst
      rw [join_cons_of_ne_nil _ _ (by simp)]
      exact ⟨⟨a, by simp [ha], hablank⟩, c, by simp [List.getLast?_cons, hc], hblank⟩

/-- Lines without breaks, the last of them not empty, are found again in the text that they make
up. -/
theorem splitBreaks_join (hbreak : ∀ line ∈ lines, ∀ c ∈ line, isBreak c = false)
    {front : List (List Char)} {last : List Char} (hlines : lines = front ++ [last])
    (hlast : last ≠ []) : splitBreaks (join ['\n'] lines) = lines := by
  have hne : lines ≠ [] := by simp [hlines]
  -- No line holds a break, so that cutting at breaks cuts between the lines only.
  have hreturn : '\r' ∉ join ['\n'] lines := by
    refine not_mem_join (by decide) fun line hline hmem => ?_
    have := hbreak line hline _ hmem
    simp [isBreak] at this
  rw [splitBreaks, mergeReturns_of_no_return hreturn, splitWhere_join (by decide) hne hbreak]
  -- The last line is not empty, so that none is dropped at the end.
  cases last with
  | nil => exact absurd rfl hlast
  | cons a rest => simp [hlines]

/-- Lines are read as they are written. -/
theorem outputLines_written (h : ∀ line ∈ lines, IsLine line) :
    outputLines (written lines) = lines := by
  by_cases hne : lines = []
  · subst hne
    rfl
  obtain ⟨hfirst, hlast⟩ := ends_join hne h
  obtain ⟨front, last, hlines⟩ : ∃ front last, lines = front ++ [last] :=
    ⟨_, _, (List.dropLast_append_getLast hne).symm⟩
  have hfilled : last ≠ [] := by
    obtain ⟨-, ⟨c, hc, -⟩, -⟩ := h last (by simp [hlines])
    rintro rfl
    cases hc
  rw [outputLines, written_eq_join hne, trim_concat_newline hfirst hlast]
  exact splitBreaks_join (fun line hline => (h line hline).1) hlines hfilled

/-- A path that git writes as it is: visible ASCII characters without quotes and backslashes. -/
def IsPlain (path : String) : Prop :=
  path ≠ "" ∧ ∀ c ∈ path.toList, 33 ≤ c.toNat ∧ c.toNat < 127 ∧ c ≠ '"' ∧ c ≠ '\\'

instance (path : String) : Decidable (IsPlain path) := by
  unfold IsPlain
  infer_instance

namespace IsPlain

variable {path : String} (h : IsPlain path)

include h

theorem not_blank (hc : c ∈ path.toList) : isBlank c = false := by
  obtain ⟨hlow, hhigh, -⟩ := h.2 c hc
  simp only [isBlank, show c.toNat < 128 by omega, if_true]
  simp
  omega

theorem not_break (hc : c ∈ path.toList) : isBreak c = false := by
  obtain ⟨hlow, hhigh, -⟩ := h.2 c hc
  simp [isBreak]
  omega

theorem not_tab : '\t' ∉ path.toList := by
  intro hc
  have hlow := (h.2 _ hc).1
  exact absurd hlow (by decide)

theorem toList_ne_nil : path.toList ≠ [] := by
  simpa [String.toList_eq_nil_iff] using h.1

theorem last_not_blank : ∃ c, path.toList.getLast? = some c ∧ isBlank c = false :=
  ⟨_, List.getLast?_eq_some_getLast h.toList_ne_nil, h.not_blank (List.getLast_mem _)⟩

theorem isLine : IsLine path.toList :=
  ⟨fun _ hc => h.not_break hc,
    ⟨_, List.head?_eq_some_head h.toList_ne_nil, h.not_blank (List.head_mem _)⟩, h.last_not_blank⟩

theorem trim_toList : trim path.toList = path.toList := by
  have hnone : ∀ {cs : List Char}, (∀ c ∈ cs, isBlank c = false) → cs.dropWhile isBlank = cs := by
    intro cs hcs
    cases cs with
    | nil => rfl
    | cons c cs => simp [hcs c List.mem_cons_self]
  rw [trim, trimLeft, hnone fun c hc => h.not_blank hc, trimRight, dropEndWhile,
    hnone fun c hc => h.not_blank (List.mem_reverse.1 hc), List.reverse_reverse]

end IsPlain

/-- The letter that stands for a kind of change. -/
def letter : Change → Char
  | .modified _ => 'M'
  | .added _ => 'A'
  | .deleted _ => 'D'

/-- A change as git writes it. -/
def line (change : Change) : List Char := letter change :: '\t' :: change.path.toList

theorem letter_spec (change : Change) :
    isBlank (letter change) = false ∧ isBreak (letter change) = false ∧ '\t' ∉ [letter change] := by
  cases change <;> simp only [letter] <;> decide

theorem isLine_line (h : IsPlain change.path) : IsLine (line change) := by
  obtain ⟨c, hc, hblank⟩ := h.last_not_blank
  refine ⟨?_, ⟨letter change, rfl, (letter_spec change).1⟩, c, ?_, hblank⟩
  · intro c hc
    rcases List.mem_cons.1 hc with rfl | hc
    · exact (letter_spec change).2.1
    rcases List.mem_cons.1 hc with rfl | hc
    · decide
    · exact h.not_break hc
  · simp [line, List.getLast?_cons, hc]

theorem statusChanges_line (h : '\t' ∉ change.path.toList) :
    statusChanges (line change) = [change] := by
  have hsplit : splitOn '\t' (line change) = [[letter change], change.path.toList] := by
    have hcut := splitOn_append_sep '\t' [letter change] change.path.toList
    rwa [splitOn_of_not_mem (letter_spec change).2.2, splitOn_of_not_mem h] at hcut
  rw [statusChanges, hsplit]
  cases change <;> simp [letter, Change.path]

/-- Changes are read as they are written. -/
theorem reportChanges_written (h : ∀ c ∈ changes, IsPlain c.path) :
    reportChanges (written (changes.map line)) = changes := by
  rw [reportChanges, outputLines_written]
  · induction changes with
    | nil => rfl
    | cons change changes ih =>
      have hchange := statusChanges_line (h change List.mem_cons_self).not_tab
      rw [List.map_cons, List.flatMap_cons, hchange,
        ih (List.forall_mem_cons.1 h).2]
      rfl
  · intro l hl
    obtain ⟨change, hchange, rfl⟩ := List.mem_map.1 hl
    exact isLine_line (h change hchange)

theorem untrackedChanges_written {paths : List String} (h : ∀ path ∈ paths, IsPlain path) :
    untrackedChanges (written (paths.map String.toList)) = paths.map .added := by
  rw [untrackedChanges, outputLines_written]
  · induction paths with
    | nil => rfl
    | cons path paths ih =>
      have hpath := h path List.mem_cons_self
      have hrest := ih (List.forall_mem_cons.1 h).2
      simp only [List.map_cons, hpath.trim_toList] at hrest ⊢
      rw [List.filterMap_cons, hrest]
      simp [hpath.toList_ne_nil]
  · intro l hl
    obtain ⟨path, hpath, rfl⟩ := List.mem_map.1 hl
    exact (h path hpath).isLine

end Git

namespace Repository

open SourceAtlas.Git

/-- All paths of the repository are plain, and so is the name of its head. -/
structure Plain (r : Repository) : Prop where
  head : IsPlain r.head
  commits : ∀ e ∈ r.commits, ∀ path ∈ e.2.keys, IsPlain path
  staged : ∀ path ∈ r.staged.keys, IsPlain path
  work : ∀ path ∈ r.work.files.keys, IsPlain path

instance (r : Repository) : Decidable r.Plain :=
  decidable_of_iff
    (IsPlain r.head ∧ (∀ e ∈ r.commits, ∀ path ∈ e.2.keys, IsPlain path) ∧
      (∀ path ∈ r.staged.keys, IsPlain path) ∧ ∀ path ∈ r.work.files.keys, IsPlain path)
    ⟨fun h => ⟨h.1, h.2.1, h.2.2.1, h.2.2.2⟩, fun h => ⟨h.head, h.commits, h.staged, h.work⟩⟩

/-- The end of a command that writes changes. -/
def reply (changes : List Change) : Outcome :=
  .exited 0 (String.ofList (written (changes.map Git.line)))

/-- What git answers about the repository. -/
def git (r : Repository) (ignored : String → Bool) : List String → Outcome
  | ["git", "rev-parse", "--is-inside-work-tree"] => .exited 0 "true\n"
  | ["git", "rev-parse", "HEAD"] => .exited 0 (r.head ++ "\n")
  | ["git", "diff", "--name-status", id, "HEAD"] =>
    reply (differences ((r.commits.get? id).getD []) r.headFiles)
  | ["git", "diff", "--name-status"] => reply (Git.unstaged r.staged r.work.files)
  | ["git", "diff", "--name-status", "--cached"] => reply (differences r.headFiles r.staged)
  | ["git", "ls-files", "--others", "--exclude-standard"] =>
    .exited 0 (String.ofList (written
      ((Git.untracked r.staged r.work.files ignored).map String.toList)))
  | _ => .notFound

theorem reports_reply {git : List String → Outcome} {changes : List Change}
    (hreply : git command = reply changes) (hplain : ∀ c ∈ changes, IsPlain c.path) :
    Reports git command reportChanges changes := by
  refine ⟨written (changes.map Git.line), by simp [hreply, reply, Outcome.output?], ?_⟩
  rw [reportChanges_written hplain]
  exact fun _ => Iff.rfl

theorem Plain.headFiles {r : Repository} (h : r.Plain) :
    ∀ path ∈ r.headFiles.keys, IsPlain path := by
  intro path hpath
  unfold Repository.headFiles at hpath
  cases hfiles : r.commits.get? r.head with
  | none => simp [hfiles, Assoc.keys] at hpath
  | some files =>
    rw [hfiles, Option.getD_some] at hpath
    exact h.commits _ (Assoc.mem_of_get? hfiles) path hpath

theorem plain_of_mem_differences {old new : Contents} (hold : ∀ path ∈ old.keys, IsPlain path)
    (hnew : ∀ path ∈ new.keys, IsPlain path) : ∀ c ∈ differences old new, IsPlain c.path :=
  fun _ hc => (path_mem_of_mem_differences hc).elim (hold _) (hnew _)

/-- With plain paths, git is faithful. -/
theorem faithful_git {r : Repository} (h : r.Plain) (ignored : String → Bool) :
    Faithful r ignored (r.git ignored) where
  inside := by
    simp only [git, Outcome.output?]
    decide
  head := by
    have hline := trim_concat_newline h.head.isLine.2.1 h.head.isLine.2.2
    simp [git, Outcome.output?, hline]
  committed id files hid := by
    refine reports_reply (by simp [git, hid]) (plain_of_mem_differences ?_ h.headFiles)
    exact h.commits _ (Assoc.mem_of_get? hid)
  unstaged := by
    refine reports_reply (by simp [git]) fun c hc => ?_
    exact plain_of_mem_differences h.staged h.work c (List.mem_filter.1 hc).1
  staged := reports_reply (by simp [git]) (plain_of_mem_differences h.headFiles h.staged)
  untracked := by
    refine ⟨_, by simp only [git, Outcome.output?]; rfl, ?_⟩
    rw [String.toList_ofList, untrackedChanges_written]
    · exact fun _ => Iff.rfl
    · intro path hpath
      exact h.work path (by simpa using (List.mem_filter.1 hpath).1)

end Repository

end SourceAtlas
